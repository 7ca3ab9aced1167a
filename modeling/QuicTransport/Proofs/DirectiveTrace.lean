import Mathlib.Algebra.GroupWithZero.Nat
import QuicTransport.Proofs.HandshakeOrder
import QuicTransport.Proofs.HandshakeRecord

set_option autoImplicit false

/-! # What a handshake tells its owner

How many directives come with a call depends on where the messages were cut. All answers together do
not: each degree of progress has its directives, which are given once, when it is reached. They are
listed for a client (`Progress.toldToClient`) and for a server (`Progress.toldToServer`), and the
list up to a degree is its `trace`.

Our own messages go out as CRYPTO frames, each behind those that have gone out before it in its
epoch. So where the next one belongs is a sum over the messages so far (`written`), and that is what
the handshake has counted (`HandshakeSetup.Counts`). -/

namespace QuicTransport

open HandshakeSetup (Found)

/-! ## The directives of each degree of progress -/

namespace Progress

/-- What a client is told when it reaches a degree of progress. The messages are named after the
degree that they lead to. -/
def toldToClient (text : Progress → Bytes) : Progress → List Directive
  | .clientHello => [.forwardFrame (.crypto 0 (text .clientHello))]
  | .serverHello => [.allowBufferedFlush .handshake, .updateDcid, .dropKeys .initial]
  | .serverFinished => [.allowBufferedFlush .application]
  | .clientFinished =>
    [.emit .handshake [.crypto 0 (text .clientFinished)], .allowBufferedFlush .application]
  | _ => []

/-- What a server is told when it reaches a degree of progress. Its messages after the ServerHello
follow each other in one stream. -/
def toldToServer (text : Progress → Bytes) (token : Bytes) : Progress → List Directive
  | .serverHello =>
    [.emit .initial [.crypto 0 (text .serverHello)], .allowBufferedFlush .handshake, .updateDcid,
      .dropKeys .initial]
  | .encryptedExtensions => [.emit .handshake [.crypto 0 (text .encryptedExtensions)]]
  | .certificate =>
    [.emit .handshake [.crypto (text .encryptedExtensions).length (text .certificate)]]
  | .certificateVerify =>
    [.emit .handshake
      [.crypto ((text .encryptedExtensions).length + (text .certificate).length)
        (text .certificateVerify)]]
  | .serverFinished =>
    [.emit .handshake
      [.crypto ((text .encryptedExtensions).length + (text .certificate).length
          + (text .certificateVerify).length) (text .serverFinished)],
      .allowBufferedFlush .application]
  | .clientFinished =>
    [.emit .application [.handshakeDone, .newToken token], .allowBufferedFlush .application]
  | _ => []

/-- What a side is told when it reaches a degree of progress. -/
def told (self : Side) (text : Progress → Bytes) (token : Bytes) : Progress → List Directive :=
  match self with
  | .client => toldToClient text
  | .server => toldToServer text token

/-- Everything that a side is told up to a degree of progress. -/
def trace (self : Side) (text : Progress → Bytes) (token : Bytes) (p : Progress) :
    List Directive :=
  (Expectation.script.take p.rank).flatMap fun e => told self text token e.next

/-- How many bytes a side has written in an epoch up to a degree of progress. -/
def written (self : Side) (text : Progress → Bytes) (e : Epoch) (p : Progress) : Nat :=
  (((Expectation.script.take p.rank).filter fun x => x.author = self ∧ x.kind.epoch = e).map
    fun x => (text x.next).length).sum

/-- What a side gets new keys by is told once, with the ServerHello. -/
theorem count_trace (self : Side) (text : Progress → Bytes) (token : Bytes) (p : Progress)
    {d : Directive} (hd : d ∈ [.allowBufferedFlush .handshake, .updateDcid, .dropKeys .initial]) :
    (trace self text token p).count d = if serverHello.rank ≤ p.rank then 1 else 0 := by
  simp only [List.mem_cons, List.not_mem_nil, or_false] at hd
  rcases hd with rfl | rfl | rfl <;> cases self <;> cases p <;>
    simp [trace, told, toldToClient, toldToServer, Expectation.script, rank, Directive.emit]

end Progress

/-- The message among these that leads to a degree of progress. -/
def textOf (messages : List Found) (p : Progress) : Bytes :=
  ((messages.find? fun m => m.expectation.next = p).map Found.message).getD []

/-- Messages that follow the script are told apart by the degrees that they lead to. -/
theorem textOf_next {messages : List Found} {n : Nat}
    (hscript : messages.map Found.expectation = Expectation.script.take n) {m : Found}
    (hm : m ∈ messages) : textOf messages m.expectation.next = m.message := by
  have hnodup : (messages.map fun a => a.expectation.next).Nodup := by
    have hall : (Expectation.script.map Expectation.next).Nodup := by decide
    have hmap : messages.map (fun a => a.expectation.next) =
        (Expectation.script.take n).map Expectation.next := by
      rw [← hscript, List.map_map]
      rfl
    rw [hmap, List.map_take]
    exact hall.sublist (List.take_sublist _ _)
  clear hscript
  induction messages with
  | nil => cases hm
  | cons a messages ih =>
    rw [List.map_cons, List.nodup_cons] at hnodup
    rcases List.mem_cons.1 hm with rfl | hm
    · simp [textOf]
    · have hne : a.expectation.next ≠ m.expectation.next := fun h =>
        hnodup.1 (h ▸ List.mem_map_of_mem hm)
      have hrest := ih hm hnodup.2
      unfold textOf at hrest ⊢
      rwa [List.find?_cons_of_neg (by simpa using hne)]

namespace HandshakeSetup

variable {Memory : Type} {setup : HandshakeSetup Memory} {text : Progress → Bytes}

/-! ## Steps -/

/-- A message adds itself to the script so far. -/
theorem take_progressAfter {p : Progress} {e : Expectation} (h : p.expectation? = some e) :
    Expectation.script.take (setup.progressAfter e).rank =
      Expectation.script.take p.rank ++ [e] := by
  unfold progressAfter
  split
  · next hlast =>
    -- the server goes on to a degree that adds nothing to the script
    cases p <;> cases h <;> first | rfl | cases hlast.2
  · cases p <;> cases h <;> rfl

/-- The handshake has counted what its side has written. -/
def Counts (setup : HandshakeSetup Memory) (text : Progress → Bytes) (h : Handshake Memory) :
    Prop :=
  ∀ e, h.outbound.consumed.get e = h.progress.written setup.side text e

theorem counts_start (setup : HandshakeSetup Memory) (text : Progress → Bytes) :
    setup.Counts text setup.start := by
  intro e
  exact PerEpoch.get_all 0 e

theorem written_progressAfter {p : Progress} {e : Expectation} (h : p.expectation? = some e)
    (epoch : Epoch) :
    (setup.progressAfter e).written setup.side text epoch =
      p.written setup.side text epoch
        + if e.author = setup.side ∧ e.kind.epoch = epoch then (text e.next).length else 0 := by
  unfold Progress.written
  rw [take_progressAfter h, List.filter_append, List.map_append, List.sum_append]
  congr 1
  by_cases hown : e.author = setup.side ∧ e.kind.epoch = epoch <;> simp [hown]

/-- A message of the other side brings what is due, which has no CRYPTO frame in it. -/
theorem told_of_inbound {p : Progress} {e : Expectation} (h : p.expectation? = some e)
    (hauthor : e.author = setup.side.opposite) (crypto : Frame) :
    setup.sendings .inbound e crypto ++ keyChanges e.next =
      Progress.told setup.side text setup.newToken e.next := by
  unfold sendings
  cases hside : setup.side with
  | client =>
    rw [hside] at hauthor
    cases p <;> cases h <;> first | rfl | cases hauthor
  | server =>
    rw [hside] at hauthor
    cases p <;> cases h <;> first | rfl | cases hauthor

/-- A message of our own brings what is due, if its CRYPTO frame stands behind what was written. -/
theorem told_of_outbound {p : Progress} {e : Expectation} (h : p.expectation? = some e)
    (hauthor : e.author = setup.side) :
    setup.sendings .outbound e
        (.crypto (p.written setup.side text e.kind.epoch) (text e.next)) ++ keyChanges e.next =
      Progress.told setup.side text setup.newToken e.next := by
  unfold sendings Progress.written
  cases hside : setup.side with
  | client =>
    rw [hside] at hauthor
    cases p <;> cases h <;> first | rfl | cases hauthor
  | server =>
    rw [hside] at hauthor
    cases p <;> cases h <;>
      simp [Progress.told, Progress.toldToServer, keyChanges, Expectation.script, Progress.rank,
        MessageKind.epoch, Nat.add_assoc] at hauthor ⊢

/-- A message that is taken brings what is due. -/
theorem Counts.answer {d : Direction} {h : Handshake Memory} {found : Found} {memory : Memory}
    (hcounts : setup.Counts text h) (htakes : setup.Takes d h found memory)
    (htext : text found.expectation.next = found.message) :
    (setup.advance { h with memory } d found).1 =
      Progress.told setup.side text setup.newToken found.expectation.next := by
  have hauthor := htakes.author
  cases d with
  | inbound => exact told_of_inbound htakes.expected hauthor _
  | outbound =>
    have hplace := hcounts found.expectation.kind.epoch
    rw [← told_of_outbound htakes.expected hauthor, ← hplace, htext]
    rfl

/-- The message is counted, if it is our own. -/
theorem Counts.advance {d : Direction} {h : Handshake Memory} {found : Found} {memory : Memory}
    (hcounts : setup.Counts text h) (htakes : setup.Takes d h found memory)
    (htext : text found.expectation.next = found.message) :
    setup.Counts text (setup.advance { h with memory } d found).2 := by
  intro e
  have hbefore := hcounts e
  have hauthor := htakes.author
  change _ = (setup.progressAfter found.expectation).written setup.side text e
  rw [written_progressAfter htakes.expected, htext, hauthor]
  cases d with
  | inbound =>
    have hother : setup.side.opposite ≠ setup.side := by cases setup.side <;> decide
    rw [if_neg fun h => hother h.1]
    exact hbefore
  | outbound =>
    change (h.outbound.consumed.set _ found.expectation.kind.epoch).get e = _
    rw [PerEpoch.get_set]
    by_cases he : e = found.expectation.kind.epoch
    · rw [if_pos he, if_pos ⟨rfl, he.symm⟩, ← hbefore, he]
      rfl
    · rw [if_neg he, if_neg fun h => he h.2.symm]
      exact hbefore

/-! ## Runs -/

/-- What is known about a handshake that has gone from one state to another: which messages took it
there, and what its owner is told about them. -/
structure Progressed (setup : HandshakeSetup Memory) (text : Progress → Bytes)
    (h : Handshake Memory) (founds : List Found) (directives : List Directive)
    (h' : Handshake Memory) : Prop where
  counts : setup.Counts text h'
  script : Expectation.script.take h'.progress.rank =
    Expectation.script.take h.progress.rank ++ founds.map Found.expectation
  trace : h'.progress.trace setup.side text setup.newToken =
    h.progress.trace setup.side text setup.newToken ++ directives

/-- What is told is what is due for each message. -/
theorem Progressed.directives_eq {h h' : Handshake Memory} {founds : List Found}
    {directives : List Directive} (hprogressed : setup.Progressed text h founds directives h') :
    directives =
      founds.flatMap fun m => Progress.told setup.side text setup.newToken m.expectation.next := by
  have htrace := hprogressed.trace
  unfold Progress.trace at htrace
  rw [hprogressed.script, List.flatMap_append, List.flatMap_map] at htrace
  exact (List.append_cancel_left htrace).symm

theorem Counts.draining {d : Direction} {h h' : Handshake Memory} {founds : List Found}
    {directives : List Directive} (hdraining : setup.Draining d h founds directives h')
    (hcounts : setup.Counts text h)
    (htext : ∀ m ∈ founds, text m.expectation.next = m.message) :
    setup.Progressed text h founds directives h' := by
  induction hdraining with
  | stop h memory => exact ⟨hcounts, (List.append_nil _).symm, (List.append_nil _).symm⟩
  | @take h h' found memory more directives htakes _ ih =>
    have hfound := htext found List.mem_cons_self
    have hrest := ih (hcounts.advance htakes hfound) fun m hm =>
      htext m (List.mem_cons_of_mem found hm)
    have hscript : Expectation.script.take
        (setup.advance { h with memory } d found).2.progress.rank =
        Expectation.script.take h.progress.rank ++ [found.expectation] :=
      take_progressAfter htakes.expected
    refine ⟨hrest.counts, ?_, ?_⟩
    · rw [hrest.script, hscript, List.append_assoc]
      rfl
    · rw [hrest.trace, hcounts.answer htakes hfound, ← List.append_assoc]
      congr 1
      unfold Progress.trace
      rw [hscript, List.flatMap_append, List.flatMap_singleton]

/-- HANDSHAKE_DONE adds nothing. -/
theorem Counts.confirm {h : Handshake Memory} (hcounts : setup.Counts text h)
    (hlast : h.progress = .clientFinished) :
    setup.Progressed text h [] [] { h with progress := .done } where
  counts := by
    intro e
    have hbefore := hcounts e
    rw [hlast] at hbefore
    exact hbefore
  script := by
    rw [hlast]
    rfl
  trace := by
    rw [hlast, List.append_nil]
    rfl

/-- Data that are only taken in are not counted. -/
theorem Counts.receive {h : Handshake Memory} (hcounts : setup.Counts text h) (d : Direction)
    (limit : Nat) (epoch : Epoch) (offset : Nat) (data : Bytes) :
    setup.Counts text (h.setFlow ((h.flow d).receive limit epoch offset data).2 d) := by
  intro e
  cases d with
  | inbound => exact hcounts e
  | outbound =>
    change ((h.outbound.receive limit epoch offset data).2.consumed).get e = _
    rw [receive_snd]
    exact hcounts e

/-- A call that succeeds answers with what its messages bring. One that fails keeps the count all
the same. -/
theorem Counts.call {h : Handshake Memory} (hcounts : setup.Counts text h) (c : HandshakeCall)
    (htext : ∀ m ∈ messagesOf (setup.moves h c), text m.expectation.next = m.message) :
    ∃ directives, setup.Progressed text h (messagesOf (setup.moves h c)) directives
        (setup.call h c).2
      ∧ ∀ answer, (setup.call h c).1 = .ok answer → answer = directives := by
  cases c with
  | crypto d epoch offset data =>
    obtain ⟨directives, hdraining, hanswer⟩ := setup.draining_processCrypto h d epoch offset data
    have hmessages : messagesOf (setup.moves h (.crypto d epoch offset data)) =
        setup.takenByCrypto h d epoch offset data := by
      simp [moves, messagesOf, Move.message?, List.filterMap_map, Function.comp_def]
    rw [hmessages] at htext ⊢
    have hreceived := hcounts.receive d setup.config.maxCryptoBuffer epoch offset data
    have hprogressed := hreceived.draining hdraining htext
    refine ⟨directives, ⟨hprogressed.counts, ?_, ?_⟩, hanswer⟩ <;> cases d
    · exact hprogressed.script
    · exact hprogressed.script
    · exact hprogressed.trace
    · exact hprogressed.trace
  | done =>
    refine ⟨[], ?_⟩
    by_cases hlast : h.progress = .clientFinished
    · have hdone : h.processDone = (.ok [], { h with progress := .done }) := if_pos hlast
      simp only [HandshakeSetup.call, moves, hdone]
      refine ⟨hcounts.confirm hlast, ?_⟩
      intro answer hok
      cases hok
      rfl
    · have hrefused : h.processDone =
          (.error (.invalidStateTransition h.progress.text Progress.done.text), h) := if_neg hlast
      simp only [HandshakeSetup.call, moves, hrefused]
      refine ⟨⟨hcounts, (List.append_nil _).symm, (List.append_nil _).symm⟩, ?_⟩
      intro answer hok
      cases hok

/-- The answers of several calls, one after the other, or the error of the first that fails. -/
def answers (setup : HandshakeSetup Memory) (h : Handshake Memory) :
    List HandshakeCall → Result (List Directive)
  | [] => .ok []
  | c :: calls => do
    let front ← (setup.call h c).1
    let back ← setup.answers (setup.call h c).2 calls
    return front ++ back

theorem answers_cons_eq_ok {h : Handshake Memory} {c : HandshakeCall} {calls : List HandshakeCall}
    {directives : List Directive} :
    setup.answers h (c :: calls) = .ok directives ↔
      ∃ front back, (setup.call h c).1 = .ok front
        ∧ setup.answers (setup.call h c).2 calls = .ok back ∧ directives = front ++ back := by
  rw [answers]
  constructor
  · intro hok
    obtain ⟨front, hfront, hok⟩ := Result.bind_eq_ok.1 hok
    obtain ⟨back, hback, hok⟩ := Result.bind_eq_ok.1 hok
    injection hok with hok
    exact ⟨front, back, hfront, hback, hok.symm⟩
  · rintro ⟨front, back, hfront, hback, rfl⟩
    exact Result.bind_eq_ok.2 ⟨front, hfront, Result.bind_eq_ok.2 ⟨back, hback, rfl⟩⟩

theorem answers_append {h : Handshake Memory} {early late : List HandshakeCall}
    {front back : List Directive} (hearly : setup.answers h early = .ok front)
    (hlate : setup.answers (setup.run h early) late = .ok back) :
    setup.answers h (early ++ late) = .ok (front ++ back) := by
  induction early generalizing h front with
  | nil =>
    injection hearly with hearly
    rw [← hearly]
    exact hlate
  | cons c early ih =>
    obtain ⟨first, rest, hfirst, hrest, rfl⟩ := answers_cons_eq_ok.1 hearly
    rw [List.append_assoc]
    exact answers_cons_eq_ok.2 ⟨first, rest ++ back, hfirst, ih hrest hlate, rfl⟩

theorem Progressed.trans {h h' h'' : Handshake Memory} {founds more : List Found}
    {front back : List Directive} (hfront : setup.Progressed text h founds front h')
    (hback : setup.Progressed text h' more back h'') :
    setup.Progressed text h (founds ++ more) (front ++ back) h'' where
  counts := hback.counts
  script := by rw [hback.script, hfront.script, List.map_append, List.append_assoc]
  trace := by rw [hback.trace, hfront.trace, List.append_assoc]

/-- Calls that all succeed answer with what their messages bring. -/
theorem Counts.answers {h : Handshake Memory} (hcounts : setup.Counts text h)
    {calls : List HandshakeCall}
    (htext : ∀ m ∈ messagesOf (setup.history h calls), text m.expectation.next = m.message) :
    ∃ directives, setup.Progressed text h (messagesOf (setup.history h calls)) directives
        (setup.run h calls)
      ∧ ∀ answer, setup.answers h calls = .ok answer → answer = directives := by
  induction calls generalizing h with
  | nil =>
    refine ⟨[], ⟨hcounts, (List.append_nil _).symm, (List.append_nil _).symm⟩, ?_⟩
    intro answer hok
    injection hok with hok
    exact hok.symm
  | cons c calls ih =>
    rw [history, messagesOf_append] at htext ⊢
    obtain ⟨front, hfront, hanswer⟩ := hcounts.call c fun m hm =>
      htext m (List.mem_append_left _ hm)
    obtain ⟨back, hback, hmore⟩ := ih hfront.counts fun m hm =>
      htext m (List.mem_append_right _ hm)
    refine ⟨front ++ back, hfront.trans hback, ?_⟩
    intro answer hok
    obtain ⟨front', back', hfront', hback', rfl⟩ := answers_cons_eq_ok.1 hok
    rw [hanswer front' hfront', hmore back' hback']

/-- Messages can be told apart by where they lead, and as many have been taken as lead to where the
handshake is. -/
theorem messages_of_run (setup : HandshakeSetup Memory) (calls : List HandshakeCall) :
    let messages := messagesOf (setup.history setup.start calls)
    (∀ m ∈ messages, textOf messages m.expectation.next = m.message)
      ∧ ∃ directives, setup.Progressed (textOf messages) setup.start messages directives
          (setup.run setup.start calls)
        ∧ ∀ answer, setup.answers setup.start calls = .ok answer → answer = directives := by
  intro messages
  have htext : ∀ m ∈ messages, textOf messages m.expectation.next = m.message := by
    intro m hm
    exact textOf_next (InOrder.of_run setup calls).scripted hm
  exact ⟨htext, (setup.counts_start _).answers htext⟩

/-- Calls that all succeed answer with the trace of what the handshake has reached, in whatever
pieces and in whatever order the data came. The trace knows only the side and the degree of
progress, and our own messages and the token where they are sent: these are the messages that have
been taken, and the token is as long as it is set to be. What belongs to the ServerHello is told
once, and not before it. -/
theorem answers_eq_trace (setup : HandshakeSetup Memory) {calls : List HandshakeCall}
    {directives : List Directive} (hok : setup.answers setup.start calls = .ok directives) :
    let messages := messagesOf (setup.history setup.start calls)
    let p := (setup.run setup.start calls).progress
    directives = p.trace setup.side (textOf messages) setup.newToken
      ∧ messages.map Found.expectation = Expectation.script.take p.rank
      ∧ (∀ m ∈ messages, textOf messages m.expectation.next = m.message)
      ∧ setup.newToken.length = setup.config.newTokenLength
      ∧ ∀ d ∈ [.allowBufferedFlush .handshake, .updateDcid, .dropKeys .initial],
        directives.count d = if Progress.serverHello.rank ≤ p.rank then 1 else 0 := by
  intro messages p
  obtain ⟨htext, answer, hprogressed, hanswer⟩ := setup.messages_of_run calls
  have htrace : directives = p.trace setup.side (textOf messages) setup.newToken := by
    rw [hanswer directives hok]
    exact hprogressed.trace.symm
  refine ⟨htrace, hprogressed.script.symm, htext, setup.length_newToken, ?_⟩
  intro d hd
  rw [htrace]
  exact Progress.count_trace _ _ _ _ hd

/-- A server gets the ClientHello in two pieces, the second first, and writes four messages
at once. -/
theorem answers_eq_trace_of_server :
    let setup : HandshakeSetup Unit :=
      { side := .server, config := { newTokenLength := 2 }, parser := .framing, memory := (),
        randomness := fun _ => 7 }
    let calls : List HandshakeCall :=
      [.crypto .inbound .initial 2 [0, 1, 9], .crypto .inbound .initial 0 [1, 0],
        .crypto .outbound .initial 0 [2, 0, 0, 0],
        .crypto .outbound .handshake 0 [8, 0, 0, 1, 5, 11, 0, 0, 0, 15, 0, 0, 0, 20, 0, 0, 0],
        .crypto .inbound .handshake 0 [20, 0, 0, 0]]
    ∃ directives, setup.answers setup.start calls = .ok directives
      ∧ (setup.run setup.start calls).progress = .done
      ∧ directives = Progress.done.trace .server
        (textOf (messagesOf (setup.history setup.start calls))) [7, 7]
      ∧ directives.count (.dropKeys .initial) = 1
      ∧ directives.getLast? = some (.allowBufferedFlush .application) := by
  intro setup calls
  have hok : (setup.answers setup.start calls).isOk = true := by decide +kernel
  have hdone : (setup.run setup.start calls).progress = .done := by decide +kernel
  obtain ⟨directives, hanswers⟩ := Result.exists_of_isOk hok
  obtain ⟨htrace, _, _, _, hkeys⟩ := setup.answers_eq_trace hanswers
  have hcount := hkeys (.dropKeys .initial) (by decide)
  rw [hdone] at htrace hcount
  refine ⟨directives, hanswers, hdone, htrace, hcount, ?_⟩
  rw [htrace]
  rfl

end HandshakeSetup

end QuicTransport
