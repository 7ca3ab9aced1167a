import QuicTransport.Proofs.HandshakeTrace

set_option autoImplicit false

/-! # The handshake keeps its order

The owner of a handshake may call it in any way: with data of any epoch and direction, in pieces or
out of order, and it may go on after a call has failed. The parser may be anything too. Still the
handshake takes the seven messages in their order, each once and each from its author, and goes from
one degree of progress to the next without leaving one out or going back.

A handshake keeps no history, so one is made beside it. A call makes the handshake take some moves
(`HandshakeSetup.moves`), and each move passes through one degree of progress, or through two where
the client's Finished completes the handshake of a server. -/

namespace QuicTransport

open HandshakeSetup (Found)

/-! ## Walks -/

namespace Progress

/-- From one degree of progress to another through the given ones, each the successor of the one
before. -/
def Walk : (start : Progress) → (path : List Progress) → (stop : Progress) → Prop
  | p, [], q => p = q
  | p, r :: path, q => p.successor? = some r ∧ Walk r path q

theorem Walk.append {p q r : Progress} {path more : List Progress} (h : Walk p path q)
    (hmore : Walk q more r) : Walk p (path ++ more) r := by
  induction path generalizing p with
  | nil =>
    obtain rfl : p = q := h
    exact hmore
  | cons a path ih => exact ⟨h.1, ih h.2⟩

/-- Each step of a walk goes up by one. -/
theorem Walk.rank_eq {p q : Progress} {path : List Progress} (h : Walk p path q) :
    q.rank = p.rank + path.length := by
  induction path generalizing p with
  | nil => exact congrArg rank (Eq.symm h)
  | cons a path ih =>
    have hstep := rank_successor? h.1
    have hrest := ih h.2
    rw [List.length_cons]
    omega

end Progress

/-! ## Calls and moves -/

/-- What can be asked of a handshake. -/
inductive HandshakeCall where
  | crypto (d : Direction) (epoch : Epoch) (offset : Nat) (data : Bytes)
  | done

/-- What moves a handshake on: a message from one direction, or HANDSHAKE_DONE. -/
inductive Move where
  | message (d : Direction) (found : Found)
  | confirmation

namespace Move

/-- The message of a move. -/
def message? : Move → Option Found
  | .message _ found => some found
  | .confirmation => none

/-- The degrees of progress that a move passes through, the last of which it reaches. -/
def passes (self : Side) : Move → List Progress
  | .message _ found =>
    if self = .server ∧ found.expectation.next = .clientFinished then [.clientFinished, .done]
    else [found.expectation.next]
  | .confirmation => [.done]

end Move

/-- The messages of a history. -/
def messagesOf (moves : List Move) : List Found := moves.filterMap Move.message?

theorem messagesOf_append (moves more : List Move) :
    messagesOf (moves ++ more) = messagesOf moves ++ messagesOf more :=
  List.filterMap_append

@[simp] theorem messagesOf_confirmation (moves : List Move) :
    messagesOf (moves ++ [.confirmation]) = messagesOf moves := by
  rw [messagesOf_append]
  exact List.append_nil _

namespace HandshakeSetup

variable {Memory : Type}

/-- Do what a call asks. -/
def call (setup : HandshakeSetup Memory) (h : Handshake Memory) :
    HandshakeCall → Outcome (Handshake Memory) (List Directive)
  | .crypto d epoch offset data => setup.processCrypto h d epoch offset data
  | .done => h.processDone

/-- The moves that a call makes, whether it fails in the end or not. -/
def moves (setup : HandshakeSetup Memory) (h : Handshake Memory) : HandshakeCall → List Move
  | .crypto d epoch offset data => (setup.takenByCrypto h d epoch offset data).map (.message d)
  | .done =>
    match h.processDone with
    | (.ok _, _) => [.confirmation]
    | (.error _, _) => []

/-- A handshake after several calls. A call that fails does not stop the ones after it. -/
def run (setup : HandshakeSetup Memory) (h : Handshake Memory) : List HandshakeCall →
    Handshake Memory
  | [] => h
  | c :: calls => setup.run (setup.call h c).2 calls

/-- The moves of several calls. -/
def history (setup : HandshakeSetup Memory) (h : Handshake Memory) : List HandshakeCall → List Move
  | [] => []
  | c :: calls => setup.moves h c ++ setup.history (setup.call h c).2 calls

theorem run_append (setup : HandshakeSetup Memory) (h : Handshake Memory)
    (early late : List HandshakeCall) :
    setup.run h (early ++ late) = setup.run (setup.run h early) late := by
  induction early generalizing h with
  | nil => rfl
  | cons c early ih => exact ih _

theorem history_append (setup : HandshakeSetup Memory) (h : Handshake Memory)
    (early late : List HandshakeCall) :
    setup.history h (early ++ late) =
      setup.history h early ++ setup.history (setup.run h early) late := by
  induction early generalizing h with
  | nil => rfl
  | cons c early ih =>
    rw [List.cons_append, history, history, ih, List.append_assoc]
    rfl

end HandshakeSetup

/-! ## Order -/

/-- Whose move it is: what comes in is the peer's message and what goes out our own, and
HANDSHAKE_DONE comes to a client. -/
def Move.IsDue (self : Side) : Move → Prop
  | .message .inbound found => found.expectation.author ≠ self
  | .message .outbound found => found.expectation.author = self
  | .confirmation => self = .client

theorem Move.isDue_message_iff {self : Side} {d : Direction} {found : Found} :
    Move.IsDue self (.message d found) ↔ found.expectation.author = d.author self := by
  cases d with
  | inbound =>
    rw [IsDue, Direction.author]
    cases self <;> cases found.expectation.author <;> decide
  | outbound => rfl

/-- Where a handshake is after a history. -/
structure InOrder {Memory : Type} (setup : HandshakeSetup Memory) (p : Progress)
    (moves : List Move) : Prop where
  walk : Progress.Walk .idle (moves.flatMap (Move.passes setup.side)) p
  /-- The messages are the first of the script. -/
  scripted : (messagesOf moves).map Found.expectation =
    Expectation.script.take (messagesOf moves).length
  /-- What is expected is the next message of the script. -/
  expected : p.expectation? = Expectation.script[(messagesOf moves).length]?
  /-- A server does not wait for HANDSHAKE_DONE. -/
  answered : setup.side = .server → p ≠ .clientFinished
  due : ∀ m ∈ moves, m.IsDue setup.side

namespace InOrder

variable {Memory : Type} {setup : HandshakeSetup Memory} {p : Progress} {moves : List Move}

theorem start (setup : HandshakeSetup Memory) : InOrder setup setup.start.progress [] where
  walk := rfl
  scripted := rfl
  expected := rfl
  answered := by
    intro _ h
    cases h
  due := by
    intro m hm
    cases hm

/-- The last degree that a message passes through is the one it reaches. -/
theorem walk_passes {d : Direction} {found : Found} (h : p.expectation? = some found.expectation) :
    Progress.Walk p (Move.passes setup.side (.message d found))
      (setup.progressAfter found.expectation) := by
  have hstep := Progress.successor?_of_expectation? h
  simp only [Move.passes, HandshakeSetup.progressAfter]
  by_cases hlast : setup.side = .server ∧ found.expectation.next = .clientFinished
  · rw [if_pos hlast, if_pos hlast]
    rw [hlast.2] at hstep
    exact ⟨hstep, rfl, rfl⟩
  · rw [if_neg hlast, if_neg hlast]
    exact ⟨hstep, rfl⟩

/-- A message that is taken is the next one. -/
theorem take {d : Direction} {h : Handshake Memory} (hmoves : InOrder setup h.progress moves)
    {found : Found} {memory : Memory} (htakes : setup.Takes d h found memory) :
    InOrder setup (setup.progressAfter found.expectation) (moves ++ [.message d found]) := by
  have hscript : Expectation.script[(messagesOf moves).length]? = some found.expectation := by
    rw [← hmoves.expected, htakes.expected]
  have hmessages : messagesOf (moves ++ [.message d found]) = messagesOf moves ++ [found] :=
    messagesOf_append moves [.message d found]
  refine ⟨?_, ?_, ?_, ?_, ?_⟩
  · rw [List.flatMap_append, List.flatMap_singleton]
    exact hmoves.walk.append (walk_passes htakes.expected)
  · rw [hmessages, List.map_append, hmoves.scripted, List.length_append, List.length_singleton,
      List.take_add_one, hscript]
    rfl
  · rw [hmessages, List.length_append]
    exact Expectation.expectation?_progressAfter setup hscript
  · intro hserver
    exact Expectation.progressAfter_ne_clientFinished hserver found.expectation
  · intro m hm
    rcases List.mem_append.1 hm with hm | hm
    · exact hmoves.due m hm
    · rw [List.mem_singleton.1 hm]
      exact Move.isDue_message_iff.2 htakes.author

/-- HANDSHAKE_DONE comes after all messages, and only a client waits for it. -/
theorem confirm (hmoves : InOrder setup .clientFinished moves) :
    InOrder setup .done (moves ++ [.confirmation]) where
  walk := by
    rw [List.flatMap_append, List.flatMap_singleton]
    exact hmoves.walk.append ⟨rfl, rfl⟩
  scripted := by simpa using hmoves.scripted
  expected := by
    -- neither before nor after HANDSHAKE_DONE is a message expected
    rw [messagesOf_confirmation]
    exact hmoves.expected
  answered := by
    intro _ h
    cases h
  due := by
    intro m hm
    rcases List.mem_append.1 hm with hm | hm
    · exact hmoves.due m hm
    · rw [List.mem_singleton.1 hm]
      cases hside : setup.side with
      | client => rfl
      | server => exact absurd rfl (hmoves.answered hside)

theorem draining {d : Direction} {h h' : Handshake Memory} {founds : List Found}
    {directives : List Directive} (hdraining : setup.Draining d h founds directives h')
    (hmoves : InOrder setup h.progress moves) :
    InOrder setup h'.progress (moves ++ founds.map (.message d)) := by
  induction hdraining generalizing moves with
  | stop h memory => simpa using hmoves
  | take htakes _ ih => simpa using ih (hmoves.take htakes)

/-- A call keeps the order, whatever its answer. -/
theorem call {h : Handshake Memory} (hmoves : InOrder setup h.progress moves) (c : HandshakeCall) :
    InOrder setup (setup.call h c).2.progress (moves ++ setup.moves h c) := by
  cases c with
  | crypto d epoch offset data =>
    obtain ⟨directives, hdraining, _⟩ := setup.draining_processCrypto h d epoch offset data
    refine InOrder.draining hdraining ?_
    cases d <;> exact hmoves
  | done =>
    by_cases hlast : h.progress = .clientFinished
    · rw [hlast] at hmoves
      simpa [HandshakeSetup.call, HandshakeSetup.moves, Handshake.processDone, hlast]
        using hmoves.confirm
    · simpa [HandshakeSetup.call, HandshakeSetup.moves, Handshake.processDone, hlast] using hmoves

theorem run {h : Handshake Memory} (hmoves : InOrder setup h.progress moves)
    (calls : List HandshakeCall) :
    InOrder setup (setup.run h calls).progress (moves ++ setup.history h calls) := by
  induction calls generalizing h moves with
  | nil => simpa [HandshakeSetup.run, HandshakeSetup.history] using hmoves
  | cons c calls ih =>
    rw [HandshakeSetup.history, ← List.append_assoc]
    exact ih (hmoves.call c)

theorem of_run (setup : HandshakeSetup Memory) (calls : List HandshakeCall) :
    InOrder setup (setup.run setup.start calls).progress (setup.history setup.start calls) :=
  (start setup).run calls

/-- A handshake that is in order has come as far as its moves have passed. -/
theorem rank_eq (hmoves : InOrder setup p moves) :
    p.rank = (moves.flatMap (Move.passes setup.side)).length := by
  rw [hmoves.walk.rank_eq]
  exact Nat.zero_add _

/-- The messages that have been taken have expectations of the script. -/
theorem mem_script (hmoves : InOrder setup p moves) {d : Direction} {found : Found}
    (hm : .message d found ∈ moves) : found.expectation ∈ Expectation.script := by
  have hmessage : found ∈ messagesOf moves := List.mem_filterMap.2 ⟨_, hm, rfl⟩
  have hexpectation := List.mem_map_of_mem (f := Found.expectation) hmessage
  rw [hmoves.scripted] at hexpectation
  exact List.mem_of_mem_take hexpectation

/-- A message completes the handshake only of a server, and it is the client's Finished. -/
theorem eq_of_done_mem_passes (hmoves : InOrder setup p moves) {d : Direction} {found : Found}
    (hm : .message d found ∈ moves) (hdone : .done ∈ Move.passes setup.side (.message d found)) :
    setup.side = .server ∧ d = .inbound
      ∧ found.expectation = ⟨.finished, .client, .clientFinished⟩ := by
  have hscript : ∀ e ∈ Expectation.script, e.next ≠ .done
      ∧ (e.next = .clientFinished → e = ⟨.finished, .client, .clientFinished⟩) := by decide
  obtain ⟨hnext, hlast⟩ := hscript _ (hmoves.mem_script hm)
  have hauthor := Move.isDue_message_iff.1 (hmoves.due _ hm)
  unfold Move.passes at hdone
  dsimp only at hdone
  split at hdone
  · next hserver =>
    have hfound := hlast hserver.2
    rw [hfound, hserver.1] at hauthor
    refine ⟨hserver.1, ?_, hfound⟩
    cases d with
    | inbound => rfl
    | outbound => cases hauthor
  · exact absurd (List.mem_singleton.1 hdone).symm hnext

end InOrder

/-- The handshake keeps its order whatever it is called with, whatever its parser answers and
whichever calls fail. It goes step by step from one degree of progress to the next, so it never
falls back. The messages that it takes are the first of the script, in its order: the peer's among
them come in, and our own go out. What the next call takes, it takes one by one: each message is found by the
parser when it is asked for the kind that is due, in the bytes that wait in the direction of the
call. A client is done only by HANDSHAKE_DONE, and a server only with the client's Finished. -/
theorem HandshakeSetup.history_inOrder {Memory : Type} (setup : HandshakeSetup Memory)
    (calls : List HandshakeCall) :
    Progress.Walk .idle ((setup.history setup.start calls).flatMap (Move.passes setup.side))
        (setup.run setup.start calls).progress
      ∧ (∀ early late, calls = early ++ late →
        (setup.run setup.start early).progress.rank ≤ (setup.run setup.start calls).progress.rank)
      ∧ (messagesOf (setup.history setup.start calls)).map Found.expectation <+: Expectation.script
      ∧ (∀ found, .message .inbound found ∈ setup.history setup.start calls →
        found.expectation.author ≠ setup.side)
      ∧ (∀ found, .message .outbound found ∈ setup.history setup.start calls →
        found.expectation.author = setup.side)
      ∧ (∀ d epoch offset data,
        let h := setup.run setup.start calls
        let received :=
          h.setFlow ((h.flow d).receive setup.config.maxCryptoBuffer epoch offset data).2 d
        ∃ directives, setup.Draining d received (setup.takenByCrypto h d epoch offset data)
          directives (setup.run setup.start (calls ++ [.crypto d epoch offset data])))
      ∧ (∀ m ∈ setup.history setup.start calls, .done ∈ m.passes setup.side →
        match setup.side with
        | .client => m = .confirmation
        | .server => ∃ found, m = .message .inbound found
          ∧ found.expectation = ⟨.finished, .client, .clientFinished⟩) := by
  have hmoves := InOrder.of_run setup calls
  refine ⟨hmoves.walk, ?_, ?_, fun found hm => hmoves.due _ hm, fun found hm => hmoves.due _ hm,
    ?_, ?_⟩
  · rintro early late rfl
    have hearly := InOrder.of_run setup early
    have hlate := hearly.run late
    rw [setup.run_append, hearly.rank_eq, hlate.rank_eq, List.flatMap_append, List.length_append]
    exact Nat.le_add_right _ _
  · rw [hmoves.scripted]
    exact List.take_prefix _ _
  · intro d epoch offset data h received
    obtain ⟨directives, hdraining, _⟩ := setup.draining_processCrypto h d epoch offset data
    rw [setup.run_append]
    exact ⟨directives, hdraining⟩
  · intro m hm hdone
    cases m with
    | message d found =>
      obtain ⟨hserver, rfl, hfound⟩ := hmoves.eq_of_done_mem_passes hm hdone
      rw [hserver]
      exact ⟨found, rfl, hfound⟩
    | confirmation =>
      have hclient : setup.side = .client := hmoves.due _ hm
      rw [hclient]

end QuicTransport
