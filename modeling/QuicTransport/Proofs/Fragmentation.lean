import QuicTransport.Proofs.CryptoLevels
import QuicTransport.Proofs.DirectiveTrace
import QuicTransport.Proofs.HeldBytes

set_option autoImplicit false

/-! # It does not matter how CRYPTO data are cut

A parser that goes by the framing answers the same about a message whatever follows it, and it sees
that something is no message from its first byte. So when bytes arrive in two lots, what is taken
after the first are the first of the messages that would have been taken from both
(`drain_arrive`). A handshake that has not failed is quiet: what waits in each direction is nothing
or the beginning of the message that is due (`Settled`).

Together with reassembly this makes handshake processing independent of how a text is cut into
CRYPTO frames and of the order in which they arrive (`answers_of_pieces`). -/

namespace QuicTransport

open HandshakeSetup (Found)

/-! ## Parts of a handshake -/

namespace PerEpoch

variable {α : Type}

theorem set_set (p : PerEpoch α) (a b : α) (e : Epoch) : (p.set a e).set b e = p.set b e := by
  cases e <;> rfl

theorem set_get (p : PerEpoch α) (e : Epoch) : p.set (p.get e) e = p := by
  cases e <;> rfl

end PerEpoch

namespace Handshake

variable {Memory : Type}

/-- More bytes wait in a direction. -/
def arrive (h : Handshake Memory) (bs : Bytes) (d : Direction) : Handshake Memory :=
  h.setFlow { h.flow d with waiting := (h.flow d).waiting ++ bs } d

/-- Change the stream of an epoch in a direction. -/
def withStream (h : Handshake Memory) (s : CryptoStream) (d : Direction) (e : Epoch) :
    Handshake Memory :=
  h.setFlow { h.flow d with streams := (h.flow d).streams.set s e } d

/-- The stream of an epoch in a direction. -/
def stream (h : Handshake Memory) (d : Direction) (e : Epoch) : CryptoStream :=
  (h.flow d).streams.get e

variable (h : Handshake Memory) (d : Direction) (e : Epoch) (s : CryptoStream)

@[simp] theorem waiting_arrive (bs : Bytes) :
    ((h.arrive bs d).flow d).waiting = (h.flow d).waiting ++ bs := by
  cases d <;> rfl

@[simp] theorem waiting_withStream :
    ((h.withStream s d e).flow d).waiting = (h.flow d).waiting := by
  cases d <;> rfl

@[simp] theorem progress_arrive (bs : Bytes) : (h.arrive bs d).progress = h.progress := by
  cases d <;> rfl

@[simp] theorem progress_withStream : (h.withStream s d e).progress = h.progress := by
  cases d <;> rfl

@[simp] theorem stream_withStream : (h.withStream s d e).stream d e = s := by
  cases d <;> exact PerEpoch.get_set_self _ _ _

@[simp] theorem arrive_nil : h.arrive [] d = h := by
  cases d <;> simp [arrive, setFlow, flow]

theorem arrive_arrive (bs more : Bytes) :
    (h.arrive bs d).arrive more d = h.arrive (bs ++ more) d := by
  cases d <;> simp [arrive, setFlow, flow]

theorem arrive_withStream (bs : Bytes) :
    (h.withStream s d e).arrive bs d = (h.arrive bs d).withStream s d e := by
  cases d <;> rfl

theorem withStream_withStream (s' : CryptoStream) :
    (h.withStream s d e).withStream s' d e = h.withStream s' d e := by
  cases d <;> simp [withStream, setFlow, flow, PerEpoch.set_set]

theorem withStream_stream : h.withStream (h.stream d e) d e = h := by
  cases d <;> simp [withStream, stream, setFlow, flow, PerEpoch.set_get]

end Handshake

namespace HandshakeSetup

/-! ## Draining -/

section Draining

variable {Memory : Type} {setup : HandshakeSetup Memory} {d : Direction} {h h' : Handshake Memory}
  {founds : List Found} {directives : List Directive}

/-- When it is the turn of a direction, its bytes are shown to the parser. -/
theorem look_of_expected {e : Expectation} (hexpected : h.progress.expectation? = some e)
    (hauthor : e.author = d.author setup.side) (isFirst : Bool) (waiting : Bytes) :
    setup.look h (d.author setup.side) isFirst waiting =
      (judge h.progress e waiting (setup.parser.parse h.memory e.kind waiting).1,
        (setup.parser.parse h.memory e.kind waiting).2) := by
  unfold look
  rw [hexpected]
  exact if_neg (not_not_intro hauthor)

theorem look_of_takes {found : Found} {memory : Memory} (htakes : setup.Takes d h found memory)
    (isFirst : Bool) :
    setup.look h (d.author setup.side) isFirst (h.flow d).waiting = (.ok (some found), memory) := by
  have hpos := htakes.length_pos
  have hle := htakes.length_le
  rw [look_of_expected htakes.expected htakes.author, htakes.parsed]
  dsimp only [judge]
  rw [if_neg (by omega)]

/-- Which message is taken does not depend on the streams. -/
theorem Takes.withStream {found : Found} {memory : Memory} (htakes : setup.Takes d h found memory)
    (s : CryptoStream) (e : Epoch) : setup.Takes d (h.withStream s d e) found memory := by
  refine ⟨?_, htakes.author, ?_, htakes.length_pos, ?_⟩
  · rw [Handshake.progress_withStream]
    exact htakes.expected
  · rw [Handshake.waiting_withStream, ← htakes.parsed]
    cases d <;> rfl
  · rw [Handshake.waiting_withStream]
    exact htakes.length_le

theorem advance_withStream (s : CryptoStream) (e : Epoch) (memory : Memory) (found : Found) :
    setup.advance { h.withStream s d e with memory } d found =
      ((setup.advance { h with memory } d found).1,
        (setup.advance { h with memory } d found).2.withStream s d e) := by
  cases d <;> rfl

theorem Draining.withStream (hdraining : setup.Draining d h founds directives h')
    (s : CryptoStream) (e : Epoch) :
    setup.Draining d (h.withStream s d e) founds directives (h'.withStream s d e) := by
  induction hdraining with
  | stop h memory =>
    have hsame : ({ h with memory } : Handshake Memory).withStream s d e =
        { h.withStream s d e with memory } := by
      cases d <;> rfl
    rw [hsame]
    exact .stop _ memory
  | @take h h' found memory more directives htakes _ ih =>
    have hadvance : setup.advance { h.withStream s d e with memory } d found = _ :=
      advance_withStream s e memory found
    have hrest : setup.Draining d
        (setup.advance { h.withStream s d e with memory } d found).2 more directives
        (h'.withStream s d e) := by
      rw [hadvance]
      exact ih
    have hstep := Draining.take (htakes.withStream s e) hrest
    rwa [hadvance] at hstep

/-- Draining only takes bytes away. -/
theorem Draining.length_waiting_le (hdraining : setup.Draining d h founds directives h') :
    (h'.flow d).waiting.length ≤ (h.flow d).waiting.length := by
  induction hdraining with
  | stop h memory => cases d <;> exact Nat.le_refl _
  | @take h h' found memory more directives htakes _ ih =>
    have hflow : ({ h with memory } : Handshake Memory).flow d = h.flow d := by cases d <;> rfl
    rw [waiting_advance, List.length_drop, hflow] at ih
    omega

/-- Draining leaves the streams alone. -/
theorem Draining.streams (hdraining : setup.Draining d h founds directives h') (d' : Direction) :
    (h'.flow d').streams = (h.flow d').streams := by
  induction hdraining with
  | stop h memory => cases d' <;> rfl
  | take _ _ ih =>
    rw [ih]
    cases d <;> cases d' <;> rfl

end Draining

/-! ## Operations -/

section Operations

variable {Memory : Type} {setup : HandshakeSetup Memory} {d : Direction} {h h' : Handshake Memory}
  {e : Epoch} {offset : Nat} {data : Bytes} {directives : List Directive}

/-- CRYPTO data that their stream and the waiting bytes have room for are taken in. -/
theorem processCrypto_of_insert {bytes : Bytes} {s : CryptoStream}
    (hinsert : (h.stream d e).insert offset data setup.config.maxCryptoBuffer = (.ok bytes, s))
    (hroom : (h.flow d).waiting.length + bytes.length ≤ setup.config.maxCryptoBuffer) :
    setup.processCrypto h d e offset data =
      setup.drain d true ((h.arrive bytes d).withStream s d e) := by
  have hreceive : (h.flow d).receive setup.config.maxCryptoBuffer e offset data =
      (.ok (), { h.flow d with
        streams := (h.flow d).streams.set s e, waiting := (h.flow d).waiting ++ bytes }) := by
    unfold Handshake.stream at hinsert
    unfold CryptoFlow.receive
    rw [hinsert]
    dsimp only
    rw [if_neg (by rw [List.length_append]; omega)]
  unfold processCrypto
  rw [hreceive]
  cases d <;> rfl

/-- No others are processed. -/
theorem exists_insert_of_processCrypto
    (hok : setup.processCrypto h d e offset data = (.ok directives, h')) :
    ∃ bytes s, (h.stream d e).insert offset data setup.config.maxCryptoBuffer = (.ok bytes, s)
      ∧ (h.flow d).waiting.length + bytes.length ≤ setup.config.maxCryptoBuffer := by
  cases hinsert : (h.stream d e).insert offset data setup.config.maxCryptoBuffer with
  | mk answer s =>
    unfold Handshake.stream at hinsert
    unfold processCrypto CryptoFlow.receive at hok
    rw [hinsert] at hok
    cases answer with
    | error error => cases hok
    | ok bytes =>
      refine ⟨bytes, s, rfl, ?_⟩
      by_contra hroom
      dsimp only at hok
      rw [List.length_append, if_pos (by omega)] at hok
      cases hok

end Operations

/-! ## Framed messages -/

section Framed

variable {setup : HandshakeSetup Unit} {d : Direction} {h h' : Handshake Unit}
  {founds : List Found} {directives : List Directive}

/-- In a direction there is nothing to do: no bytes wait, or the beginning of the message that is
due. -/
def Quiet (setup : HandshakeSetup Unit) (d : Direction) (h : Handshake Unit) : Prop :=
  (h.flow d).waiting = [] ∨
    ∃ e, h.progress.expectation? = some e ∧ e.author = d.author setup.side
      ∧ Message.split e.kind (h.flow d).waiting = .needMore

theorem drain_of_quiet (hparser : setup.parser = .framing) (hquiet : setup.Quiet d h)
    (isFirst : Bool) : setup.drain d isFirst h = (.ok [], h) := by
  by_cases hnil : (h.flow d).waiting = []
  · rw [drain, if_pos hnil]
  · obtain ⟨e, hexpected, hauthor, hsplit⟩ := hquiet.resolve_left hnil
    have hlook :
        setup.look h (d.author setup.side) isFirst (h.flow d).waiting = (.ok none, ()) := by
      rw [look_of_expected hexpected hauthor, hparser]
      dsimp only [MessageParser.framing]
      rw [hsplit]
      rfl
    rw [drain, if_neg hnil]
    split
    · next hother =>
      rw [hlook] at hother
      cases hother
    · rfl
    · next hother =>
      rw [hlook] at hother
      cases hother

/-- A message is taken exactly if it is found by the framing. -/
theorem takes_iff (hparser : setup.parser = .framing) {found : Found} :
    setup.Takes d h found () ↔
      h.progress.expectation? = some found.expectation
        ∧ found.expectation.author = d.author setup.side
        ∧ Message.split found.expectation.kind (h.flow d).waiting = .message found.message := by
  constructor
  · intro htakes
    have hparsed := congrArg Prod.fst htakes.parsed
    rw [hparser] at hparsed
    exact ⟨htakes.expected, htakes.author, hparsed⟩
  · rintro ⟨hexpected, hauthor, hsplit⟩
    obtain ⟨hframed, hprefix⟩ := Message.isFramed_and_prefix_of_split hsplit
    refine ⟨hexpected, hauthor, ?_, List.length_pos_iff.2 hframed.ne_nil, hprefix.length_le⟩
    rw [hparser]
    exact Prod.ext hsplit rfl

/-- Where draining does not fail, there is nothing to do or a message is taken. -/
theorem quiet_or_takes_of_drain {isFirst : Bool} (hparser : setup.parser = .framing)
    (hok : setup.drain d isFirst h = (.ok directives, h')) :
    setup.Quiet d h ∨ ∃ found, setup.Takes d h found () := by
  by_cases hnil : (h.flow d).waiting = []
  · exact Or.inl (Or.inl hnil)
  rw [drain, if_neg hnil] at hok
  split at hok
  · cases hok
  · next memory hlook =>
    -- the parser wants more
    unfold look at hlook
    split at hlook
    · cases hlook
    · next e hexpected =>
      split at hlook
      · cases hlook
      · next hauthor =>
        refine Or.inl (Or.inr ⟨e, hexpected, not_not.1 hauthor, ?_⟩)
        rw [hparser] at hlook
        have hjudge := congrArg Prod.fst hlook
        dsimp only [MessageParser.framing] at hjudge
        unfold judge at hjudge
        split at hjudge
        · assumption
        · cases hjudge
        · split at hjudge <;> cases hjudge
  · next found memory hlook => exact Or.inr ⟨found, takes_of_look hlook⟩

/-- Draining that does not fail goes on until there is nothing to do. -/
theorem quiet_of_drain (hparser : setup.parser = .framing) {isFirst : Bool}
    (hok : setup.drain d isFirst h = (.ok directives, h')) : setup.Quiet d h' := by
  induction isFirst, h using taken.induct setup d generalizing directives h' with
  | case1 isFirst h hwaiting =>
    rw [drain, if_pos hwaiting] at hok
    cases hok
    exact Or.inl hwaiting
  | case2 isFirst h hwaiting found memory hlook ih =>
    rw [drain_of_look hlook] at hok
    cases hmore : setup.drain d false (setup.advance { h with memory } d found).2 with
    | mk answer h'' =>
      rw [hmore] at hok
      cases answer with
      | error e => cases hok
      | ok more =>
        cases hok
        exact ih hmore
  | case3 isFirst h hwaiting hnone =>
    rcases quiet_or_takes_of_drain hparser hok with hquiet | ⟨found, htakes⟩
    · rw [drain_of_quiet hparser hquiet] at hok
      cases hok
      exact hquiet
    · exact absurd (look_of_takes htakes isFirst) (hnone found ())

/-- Messages that are taken one after the other until there is nothing to do are what draining
takes, whether a message has gone before or not. -/
theorem Draining.drain (hparser : setup.parser = .framing)
    (hdraining : setup.Draining d h founds directives h') (hquiet : setup.Quiet d h')
    (isFirst : Bool) : setup.drain d isFirst h = (.ok directives, h') := by
  induction hdraining generalizing isFirst with
  | stop h memory => exact drain_of_quiet hparser hquiet isFirst
  | take htakes _ ih =>
    rw [drain_of_look (look_of_takes htakes isFirst), ih hquiet false]
    rfl

/-- Draining that does not fail takes messages until there is nothing to do. -/
theorem exists_draining (hparser : setup.parser = .framing) {isFirst : Bool}
    (hok : setup.drain d isFirst h = (.ok directives, h')) :
    ∃ founds, setup.Draining d h founds directives h' ∧ setup.Quiet d h' := by
  obtain ⟨directives', hdraining, hanswer⟩ := setup.draining_drain d isFirst h
  rw [hok] at hdraining hanswer
  rw [← hanswer directives rfl] at hdraining
  exact ⟨_, hdraining, quiet_of_drain hparser hok⟩

/-! ## More bytes -/

theorem Quiet.of_arrive {bs : Bytes} (hquiet : setup.Quiet d (h.arrive bs d)) :
    setup.Quiet d h := by
  unfold Quiet at hquiet
  rw [Handshake.waiting_arrive, Handshake.progress_arrive] at hquiet
  rcases hquiet with hnil | ⟨e, hexpected, hauthor, hsplit⟩
  · exact Or.inl (List.append_eq_nil_iff.1 hnil).1
  · exact Or.inr ⟨e, hexpected, hauthor, Message.split_of_append_needMore hsplit⟩

/-- A message that is taken from more bytes is taken from the first of them, unless these are only
its beginning. -/
theorem Takes.of_arrive (hparser : setup.parser = .framing) {bs : Bytes} {found : Found}
    (htakes : setup.Takes d (h.arrive bs d) found ()) :
    setup.Quiet d h ∨ setup.Takes d h found () := by
  obtain ⟨hexpected, hauthor, hsplit⟩ := (takes_iff hparser).1 htakes
  rw [Handshake.waiting_arrive] at hsplit
  rw [Handshake.progress_arrive] at hexpected
  cases hfirst : Message.split found.expectation.kind (h.flow d).waiting with
  | needMore => exact Or.inl (Or.inr ⟨_, hexpected, hauthor, hfirst⟩)
  | message message =>
    rw [Message.split_append_of_message hfirst] at hsplit
    injection hsplit with hsplit
    rw [hsplit] at hfirst
    exact Or.inr ((takes_iff hparser).2 ⟨hexpected, hauthor, hfirst⟩)
  | invalid =>
    rw [Message.split_append_of_invalid hfirst] at hsplit
    cases hsplit

theorem advance_arrive {bs : Bytes} {found : Found}
    (hle : found.message.length ≤ (h.flow d).waiting.length) :
    setup.advance (h.arrive bs d) d found =
      ((setup.advance h d found).1, (setup.advance h d found).2.arrive bs d) := by
  have hdrop : ((h.flow d).waiting ++ bs).drop found.message.length = _ :=
    List.drop_append_of_le_length hle
  cases d <;>
    simp [advance, Handshake.arrive, Handshake.setFlow, Handshake.flow, CryptoFlow.consume]
      at hdrop ⊢ <;>
    exact hdrop

/-- What is taken after the first bytes are the first of the messages that are taken from all. -/
theorem drain_arrive (hparser : setup.parser = .framing) {bs : Bytes} {isFirst : Bool}
    (hok : setup.drain d isFirst (h.arrive bs d) = (.ok directives, h')) :
    ∃ front middle back, setup.drain d true h = (.ok front, middle)
      ∧ setup.drain d true (middle.arrive bs d) = (.ok back, h') ∧ directives = front ++ back := by
  obtain ⟨founds, hdraining, hquiet⟩ := exists_draining hparser hok
  clear hok
  generalize hall : h.arrive bs d = all at hdraining
  induction hdraining generalizing h with
  | stop all memory =>
    have hquiet' : setup.Quiet d (h.arrive bs d) := hall ▸ hquiet
    have hfirst := hquiet'.of_arrive
    refine ⟨[], h, [], drain_of_quiet hparser hfirst true, ?_, rfl⟩
    rw [hall]
    exact drain_of_quiet hparser hquiet true
  | @take all h' found memory more directives htakes hrest ih =>
    subst hall
    rcases htakes.of_arrive hparser with hfirst | hfirst
    · -- the first bytes are the beginning of the message
      exact ⟨[], h, _, drain_of_quiet hparser hfirst true,
        (Draining.take htakes hrest).drain hparser hquiet true, rfl⟩
    · have hadvance : setup.advance (h.arrive bs d) d found = _ :=
        advance_arrive hfirst.length_le
      obtain ⟨front, middle, back, hfront, hback, hsum⟩ :=
        ih (h := (setup.advance h d found).2) hquiet (congrArg Prod.snd hadvance).symm
      obtain ⟨_, hdraining, hmiddle⟩ := exists_draining hparser hfront
      refine ⟨(setup.advance h d found).1 ++ front, middle, back,
        (Draining.take hfirst hdraining).drain hparser hmiddle true, hback, ?_⟩
      change (setup.advance (h.arrive bs d) d found).1 ++ directives = _
      rw [hadvance, hsum, List.append_assoc]

/-! ## Handshakes that have not failed -/

theorem drain_withStream (hparser : setup.parser = .framing) {isFirst : Bool}
    (hok : setup.drain d isFirst h = (.ok directives, h')) (s : CryptoStream) (e : Epoch) :
    setup.drain d isFirst (h.withStream s d e) = (.ok directives, h'.withStream s d e) := by
  obtain ⟨founds, hdraining, hquiet⟩ := exists_draining hparser hok
  refine (hdraining.withStream s e).drain hparser ?_ isFirst
  unfold Quiet
  rwa [Handshake.waiting_withStream, Handshake.progress_withStream]

/-- A handshake that has not failed has nothing to do, and its streams are in order. -/
structure Settled (setup : HandshakeSetup Unit) (h : Handshake Unit) : Prop where
  quiet : ∀ d, setup.Quiet d h
  tidy : ∀ d e, (h.stream d e).Tidy

theorem settled_start (setup : HandshakeSetup Unit) : setup.Settled setup.start where
  quiet := by
    intro d
    cases d <;> exact Or.inl rfl
  tidy := by
    intro d e
    have hstream : setup.start.stream d e = .empty := by
      cases d <;> exact PerEpoch.get_all _ e
    rw [hstream]
    exact CryptoStream.tidy_empty

theorem Settled.call (hparser : setup.parser = .framing) (hsettled : setup.Settled h)
    {c : HandshakeCall} (hok : setup.call h c = (.ok directives, h')) : setup.Settled h' := by
  cases c with
  | crypto d e offset data =>
    obtain ⟨bytes, s, hinsert, hroom⟩ := exists_insert_of_processCrypto hok
    have hdrain : setup.drain d true ((h.arrive bytes d).withStream s d e) = _ :=
      (processCrypto_of_insert hinsert hroom).symm.trans hok
    obtain ⟨founds, hdraining, hquiet⟩ := exists_draining hparser hdrain
    constructor
    · intro d'
      by_cases hd : d' = d
      · rwa [hd]
      -- the other direction has its bytes as before, and its turn as long as it has any
      have hflow : h'.flow d' = h.flow d' := by
        rw [hdraining.flow_of_ne (Ne.symm hd)]
        cases d <;> cases d' <;> first | rfl | exact absurd rfl hd
      rcases hsettled.quiet d' with hnil | ⟨due, hexpected, hauthor, hsplit⟩
      · exact Or.inl (hflow ▸ hnil)
      · have hprogress : h'.progress = h.progress := by
          cases hdraining with
          | stop _ memory => cases d <;> rfl
          | take htakes _ =>
            have hturn := htakes.expected
            rw [Handshake.progress_withStream, Handshake.progress_arrive, hexpected] at hturn
            injection hturn with hturn
            have hother := htakes.author
            rw [← hturn, hauthor] at hother
            cases d <;> cases d' <;> cases hside : setup.side <;> rw [hside] at hother <;>
              first | exact absurd rfl hd | cases hother
        exact Or.inr ⟨due, by rw [hprogress, hexpected], hauthor, by rw [hflow, hsplit]⟩
    · intro d' e'
      have htidy := hsettled.tidy d' e'
      have hs : s.Tidy := by
        have hkept := (hsettled.tidy d e).insert offset data setup.config.maxCryptoBuffer
        rwa [hinsert] at hkept
      unfold Handshake.stream at htidy ⊢
      rw [hdraining.streams]
      cases d <;> cases d' <;>
        simp only [Handshake.withStream, Handshake.arrive, Handshake.setFlow, Handshake.flow,
          PerEpoch.get_set] at htidy ⊢ <;>
        first | exact htidy | (split; exacts [hs, htidy])
  | done =>
    change h.processDone = _ at hok
    unfold Handshake.processDone at hok
    split at hok
    · next hlast =>
      cases hok
      refine ⟨fun d => Or.inl ?_, fun d e => ?_⟩
      · rcases hsettled.quiet d with hnil | ⟨due, hexpected, _, _⟩
        · cases d <;> exact hnil
        · rw [hlast] at hexpected
          cases hexpected
      · have htidy := hsettled.tidy d e
        cases d <;> exact htidy
    · cases hok

theorem Settled.run (hparser : setup.parser = .framing) (hsettled : setup.Settled h)
    {calls : List HandshakeCall} (hok : setup.answers h calls = .ok directives) :
    setup.Settled (setup.run h calls) := by
  induction calls generalizing h directives with
  | nil => exact hsettled
  | cons c calls ih =>
    obtain ⟨front, back, hfront, hback, rfl⟩ := answers_cons_eq_ok.1 hok
    exact ih (hsettled.call hparser (Prod.ext hfront rfl)) hback

/-! ## Pieces -/

/-- Pieces of a text answer together what is taken from the bytes that they release. -/
theorem answers_of_filling (hparser : setup.parser = .framing) {start : Nat} {parts : List Bytes}
    {whole : Handshake Unit} {all : List Directive}
    (hwhole : setup.drain d true (h.arrive parts.flatten d) = (.ok all, whole))
    (hroom : (h.flow d).waiting.length + parts.flatten.length ≤ setup.config.maxCryptoBuffer)
    (e : Epoch) {order : List Chunk} (horder : order ⊆ chunksFrom start parts)
    {arrived : List Chunk} {s : CryptoStream}
    (hfilling : CryptoStream.Filling start parts arrived s) {front : List Directive}
    {middle : Handshake Unit}
    (hfront : setup.drain d true (h.arrive (parts.flatten.take (s.delivered - start)) d) =
      (.ok front, middle)) :
    ∃ back after s', CryptoStream.Filling start parts (arrived ++ order) s'
      ∧ setup.drain d true (h.arrive (parts.flatten.take (s'.delivered - start)) d) =
        (.ok (front ++ back), after)
      ∧ setup.answers (middle.withStream s d e)
        (order.map fun c => .crypto d e c.offset c.data) = .ok back
      ∧ setup.run (middle.withStream s d e) (order.map fun c => .crypto d e c.offset c.data) =
        after.withStream s' d e := by
  induction order generalizing arrived s front middle with
  | nil =>
    refine ⟨[], middle, s, ?_, ?_, rfl, rfl⟩
    · rwa [List.append_nil]
    · rwa [List.append_nil]
  | cons c order ih =>
    obtain ⟨hc, horder⟩ := List.cons_subset.1 horder
    have hlimit : parts.flatten.length ≤ setup.config.maxCryptoBuffer := by omega
    obtain ⟨bytes, s', hinsert, hfilling', hgrown⟩ := hfilling.insert hc hlimit
    -- what has been released so far is a part of the text, and processed without a failure
    have hpart : setup.drain d true ((h.arrive (parts.flatten.take (s'.delivered - start)) d).arrive
        (parts.flatten.drop (s'.delivered - start)) d) = (.ok all, whole) := by
      rwa [Handshake.arrive_arrive, List.take_append_drop]
    obtain ⟨front', middle', _, hfront', _, _⟩ := drain_arrive hparser hpart
    have hboth := hfront'
    rw [hgrown, ← Handshake.arrive_arrive] at hboth
    obtain ⟨_, _, step, hbefore, hstep, hsum⟩ := drain_arrive hparser hboth
    rw [hfront] at hbefore
    cases hbefore
    have hcall : setup.processCrypto (middle.withStream s d e) d e c.offset c.data =
        (.ok step, middle'.withStream s' d e) := by
      obtain ⟨_, hdraining, _⟩ := exists_draining hparser hfront
      have hwaiting := hdraining.length_waiting_le
      have hlength := congrArg List.length hgrown
      simp only [Handshake.waiting_arrive, List.length_append, List.length_take] at hwaiting hlength
      have hroom' : ((middle.withStream s d e).flow d).waiting.length + bytes.length ≤
          setup.config.maxCryptoBuffer := by
        rw [Handshake.waiting_withStream]
        omega
      rw [← Handshake.stream_withStream middle d e s] at hinsert
      rw [processCrypto_of_insert hinsert hroom', Handshake.arrive_withStream,
        Handshake.withStream_withStream]
      exact drain_withStream hparser hstep s' e
    rw [hsum] at hfront'
    obtain ⟨back, after, s'', hfilling'', hafter, hanswers, hrun⟩ := ih horder hfilling' hfront'
    refine ⟨step ++ back, after, s'', ?_, ?_, ?_, ?_⟩
    · rwa [List.append_cons]
    · rwa [← List.append_assoc]
    · refine answers_cons_eq_ok.2 ⟨step, back, congrArg Prod.fst hcall, ?_, rfl⟩
      change setup.answers (setup.processCrypto _ d e c.offset c.data).2 _ = _
      rwa [hcall]
    · change setup.run (setup.processCrypto _ d e c.offset c.data).2 _ = _
      rwa [hcall]

/-- If a text is processed without a failure when it comes in one CRYPTO frame, it can be cut in any
way. Its pieces may come in any order and more than once: no call fails, the answers are together
the answer to the whole text, and the handshake ends in the same state. Before, no call may have
failed, and nothing may be held of the stream. -/
theorem answers_of_pieces (hparser : setup.parser = .framing) {calls : List HandshakeCall}
    {before : List Directive} (hbefore : setup.answers setup.start calls = .ok before)
    (hrun : setup.run setup.start calls = h) {d : Direction} {e : Epoch}
    (hpending : (h.stream d e).pending = []) {parts : List Bytes}
    (hwhole : setup.processCrypto h d e (h.stream d e).delivered parts.flatten =
      (.ok directives, h'))
    {order : List Chunk}
    (horder : ∀ c, c ∈ order ↔ c ∈ chunksFrom (h.stream d e).delivered parts) :
    setup.answers h (order.map fun c => .crypto d e c.offset c.data) = .ok directives
      ∧ setup.run h (order.map fun c => .crypto d e c.offset c.data) = h' := by
  have hsettled : setup.Settled h := hrun ▸ (settled_start setup).run hparser hbefore
  have hstream := (hsettled.tidy d e).eq_of_pending hpending
  generalize (h.stream d e).delivered = start at hstream hwhole horder
  have hinsert : (h.stream d e).insert start parts.flatten setup.config.maxCryptoBuffer =
      (.ok parts.flatten, ⟨start + parts.flatten.length, [], 0⟩) := by
    rw [hstream]
    exact CryptoStream.insert_of_pending_nil _ _ _
  -- the whole text in one frame, without the change of the stream
  obtain ⟨bytes, s, hinsert', hroom⟩ := exists_insert_of_processCrypto hwhole
  rw [hinsert] at hinsert'
  cases hinsert'
  rw [processCrypto_of_insert hinsert hroom] at hwhole
  have hdrain := drain_withStream hparser hwhole (h.stream d e) e
  rw [Handshake.withStream_withStream, ← Handshake.arrive_withStream, Handshake.withStream_stream]
    at hdrain
  have hquiet : setup.drain d true
      (h.arrive (parts.flatten.take ((⟨start, [], 0⟩ : CryptoStream).delivered - start)) d) =
        (.ok [], h) := by
    rw [Nat.sub_self, List.take_zero, Handshake.arrive_nil]
    exact drain_of_quiet hparser (hsettled.quiet d) true
  obtain ⟨back, after, s', hfilling, hafter, hanswers, hend⟩ :=
    answers_of_filling hparser hdrain hroom e (fun c hc => (horder c).1 hc)
      (CryptoStream.filling_start start parts) hquiet
  rw [← hstream, Handshake.withStream_stream] at hanswers hend
  obtain rfl := hfilling.eq_of_all fun c hc => (horder c).2 hc
  rw [Nat.add_sub_cancel_left, List.take_length, hdrain] at hafter
  cases hafter
  have hsame := drain_withStream hparser hdrain ⟨start + parts.flatten.length, [], 0⟩ e
  rw [hwhole] at hsame
  injection hsame with _ hsame
  exact ⟨hanswers, hend.trans hsame.symm⟩

end Framed

/-- The last four messages of a server in four pieces, which break inside of them. The pieces come
in another order, and one of them twice. -/
theorem answers_of_pieces_flight :
    let setup : HandshakeSetup Unit :=
      { side := .server, config := {}, parser := .framing, memory := (), randomness := fun _ => 7 }
    let calls : List HandshakeCall :=
      [.crypto .inbound .initial 0 [1, 0, 0, 0], .crypto .outbound .initial 0 [2, 0, 0, 0]]
    let parts : List Bytes := [[8, 0, 0], [1, 5, 11, 0, 0], [0, 15, 0, 0, 0, 20, 0], [0, 0]]
    let order : List Chunk :=
      [⟨15, [0, 0]⟩, ⟨3, [1, 5, 11, 0, 0]⟩, ⟨0, [8, 0, 0]⟩, ⟨3, [1, 5, 11, 0, 0]⟩,
        ⟨8, [0, 15, 0, 0, 0, 20, 0]⟩]
    let pieces : List HandshakeCall :=
      order.map fun c => .crypto .outbound .handshake c.offset c.data
    let h := setup.run setup.start calls
    setup.answers h pieces =
        (setup.processCrypto h .outbound .handshake (h.stream .outbound .handshake).delivered
          parts.flatten).1
      ∧ (setup.run h pieces).progress = .serverFinished := by
  intro setup calls parts order pieces h
  have hbefore : (setup.answers setup.start calls).isOk = true := by decide +kernel
  have hstream : h.stream .outbound .handshake = ⟨0, [], 0⟩ := by decide +kernel
  have hsame : (∀ c ∈ order, c ∈ chunksFrom 0 parts) ∧ ∀ c ∈ chunksFrom 0 parts, c ∈ order := by
    decide
  have hok : (setup.processCrypto h .outbound .handshake 0 parts.flatten).1.isOk = true
      ∧ (setup.processCrypto h .outbound .handshake 0 parts.flatten).2.progress =
        .serverFinished := by
    decide +kernel
  obtain ⟨before, hbefore⟩ := Result.exists_of_isOk hbefore
  have hstart : (h.stream .outbound .handshake).delivered = 0 := by rw [hstream]
  have hpending : (h.stream .outbound .handshake).pending = [] := by rw [hstream]
  have horder : ∀ c, c ∈ order ↔
      c ∈ chunksFrom (h.stream .outbound .handshake).delivered parts := by
    rw [hstart]
    exact fun c => ⟨hsame.1 c, hsame.2 c⟩
  rw [← hstart] at hok
  rcases hwhole : setup.processCrypto h .outbound .handshake
    (h.stream .outbound .handshake).delivered parts.flatten with ⟨answer, h'⟩
  rw [hwhole] at hok
  obtain ⟨directives, rfl⟩ := Result.exists_of_isOk hok.1
  obtain ⟨hanswers, hrun⟩ := answers_of_pieces rfl hbefore rfl hpending hwhole horder
  exact ⟨hanswers, hrun ▸ hok.2⟩

end HandshakeSetup

end QuicTransport
