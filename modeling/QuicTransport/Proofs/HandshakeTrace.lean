import QuicTransport.Handshake.Machine

set_option autoImplicit false

/-! # The messages of a handshake

A handshake keeps no record of the messages that it has processed. The record is made here beside
it: `HandshakeSetup.taken` are the messages that draining a direction takes, whether it fails in the
end or not. Draining is a sequence of steps, each of which takes one message and moves the handshake
on (`Draining`), so what one step preserves is preserved by a whole operation.

The messages come in a fixed order. `Expectation.script` lists what is expected, and the progress of
a handshake is a position in that list. -/

namespace QuicTransport

/-! ## The order of messages -/

/-- All expectations of a handshake, in order. -/
def Expectation.script : List Expectation :=
  [⟨.clientHello, .client, .clientHello⟩, ⟨.serverHello, .server, .serverHello⟩,
    ⟨.encryptedExtensions, .server, .encryptedExtensions⟩, ⟨.certificate, .server, .certificate⟩,
    ⟨.certificateVerify, .server, .certificateVerify⟩, ⟨.finished, .server, .serverFinished⟩,
    ⟨.finished, .client, .clientFinished⟩]

namespace Expectation

theorem lt_of_script {n : Nat} {e : Expectation} (h : script[n]? = some e) : n < 7 :=
  (List.getElem?_eq_some_iff.1 h).1

/-- Progress is a position in the script. -/
theorem script_rank (p : Progress) : script[p.rank]? = p.expectation? := by
  cases p <;> rfl

/-- No message completes the handshake by itself. -/
theorem next_ne_done {n : Nat} {e : Expectation} (h : script[n]? = some e) : e.next ≠ .done := by
  have hall : ∀ a ∈ script, a.next ≠ .done := by decide
  exact hall e (List.mem_of_getElem? h)

theorem eq_of_next_eq_clientFinished {n : Nat} {e : Expectation} (h : script[n]? = some e)
    (hnext : e.next = .clientFinished) : n = 6 := by
  have hlt := lt_of_script h
  have hall : ∀ i : Fin 7, (script[i.val]?).map Expectation.next = some .clientFinished →
      i = 6 := by decide
  have hsix := hall ⟨n, hlt⟩ (by simp [h, hnext])
  exact congrArg Fin.val hsix

/-- A message makes the next position of the script current, also where the server skips a degree
of progress. -/
theorem expectation?_progressAfter {Memory : Type} (setup : HandshakeSetup Memory) {n : Nat}
    {e : Expectation} (h : script[n]? = some e) :
    (setup.progressAfter e).expectation? = script[n + 1]? := by
  have hlt := lt_of_script h
  have hall : ∀ i : Fin 7, (script[i.val]?).bind (fun a => a.next.expectation?) =
      script[i.val + 1]? := by decide
  have hnext : e.next.expectation? = script[n + 1]? := by
    have hn := hall ⟨n, hlt⟩
    rwa [h] at hn
  unfold HandshakeSetup.progressAfter
  split
  · next hdone =>
    -- the server goes past the last position, where nothing is expected either
    rw [eq_of_next_eq_clientFinished h hdone.2]
    rfl
  · exact hnext

/-- A server does not wait for HANDSHAKE_DONE. -/
theorem progressAfter_ne_clientFinished {Memory : Type} {setup : HandshakeSetup Memory}
    (hserver : setup.side = .server) (e : Expectation) :
    setup.progressAfter e ≠ .clientFinished := by
  unfold HandshakeSetup.progressAfter
  split
  · decide
  · next hnot => exact fun h => hnot ⟨hserver, h⟩

/-- The first message travels in the Initial epoch. -/
theorem epoch_of_next_eq_clientHello {n : Nat} {e : Expectation} (h : script[n]? = some e)
    (hnext : e.next = .clientHello) : e.kind.epoch = .initial := by
  have hall : ∀ a ∈ script, a.next = .clientHello → a.kind.epoch = .initial := by decide
  exact hall e (List.mem_of_getElem? h) hnext

/-- The author and the kind of a message tell its position. -/
theorem eq_of_script {n m : Nat} {a b : Expectation} (ha : script[n]? = some a)
    (hb : script[m]? = some b) (hkind : a.kind = b.kind) (hauthor : a.author = b.author) :
    n = m := by
  have hn := lt_of_script ha
  have hm := lt_of_script hb
  have hunique : ∀ i j : Fin 7, (script[i.val]?).map (fun e => (e.kind, e.author)) =
      (script[j.val]?).map (fun e => (e.kind, e.author)) → i = j := by decide
  have hpair := hunique ⟨n, hn⟩ ⟨m, hm⟩ (by simp [ha, hb, hkind, hauthor])
  exact congrArg Fin.val hpair

end Expectation

namespace HandshakeSetup

variable {Memory : Type}

/-! ## Messages -/

/-- The messages that are taken when a direction is drained. -/
def taken (setup : HandshakeSetup Memory) (d : Direction) (isFirst : Bool) (h : Handshake Memory) :
    List Found :=
  if (h.flow d).waiting = [] then []
  else
    match _h : setup.look h (d.author setup.side) isFirst (h.flow d).waiting with
    | (.ok (some found), memory) =>
      found :: setup.taken d false (setup.advance { h with memory } d found).2
    | _ => []
termination_by (h.flow d).waiting.length
decreasing_by
  have hlength := length_of_look ‹_›
  rw [waiting_advance, List.length_drop]
  cases d <;> simp only [Handshake.flow] at hlength ⊢ <;> omega

/-- The messages that a CRYPTO frame completes. -/
def takenByCrypto (setup : HandshakeSetup Memory) (h : Handshake Memory) (d : Direction)
    (epoch : Epoch) (offset : Nat) (data : Bytes) : List Found :=
  match (h.flow d).receive setup.config.maxCryptoBuffer epoch offset data with
  | (.error _, _) => []
  | (.ok (), f) => setup.taken d true (h.setFlow f d)

/-- A handshake takes a message: it is the expected one, from the right side, and the parser finds
it at the front of the waiting bytes. -/
structure Takes (setup : HandshakeSetup Memory) (d : Direction) (h : Handshake Memory)
    (found : Found) (memory : Memory) : Prop where
  expected : h.progress.expectation? = some found.expectation
  author : found.expectation.author = d.author setup.side
  parsed : setup.parser.parse h.memory found.expectation.kind (h.flow d).waiting =
    (.message found.message, memory)
  length_pos : 0 < found.message.length
  length_le : found.message.length ≤ (h.flow d).waiting.length

theorem takes_of_look {setup : HandshakeSetup Memory} {d : Direction} {h : Handshake Memory}
    {isFirst : Bool} {found : Found} {memory : Memory}
    (hlook : setup.look h (d.author setup.side) isFirst (h.flow d).waiting =
      (.ok (some found), memory)) : setup.Takes d h found memory := by
  obtain ⟨hpos, hle⟩ := length_of_look hlook
  unfold look at hlook
  split at hlook
  · cases hlook
  · next e he =>
    split at hlook
    · cases hlook
    · next hauthor =>
      have hjudge := congrArg Prod.fst hlook
      have hmemory := congrArg Prod.snd hlook
      dsimp only at hjudge hmemory
      unfold judge at hjudge
      split at hjudge
      · cases hjudge
      · cases hjudge
      · next bytes hanswer =>
        split at hjudge
        · cases hjudge
        · injection hjudge with hjudge
          injection hjudge with hjudge
          subst hjudge
          exact ⟨he, Decidable.not_not.1 hauthor, Prod.ext hanswer hmemory, hpos, hle⟩

/-- Messages are taken one after the other, and each moves the handshake on. -/
inductive Draining (setup : HandshakeSetup Memory) (d : Direction) :
    Handshake Memory → List Found → List Directive → Handshake Memory → Prop where
  | stop (h : Handshake Memory) (memory : Memory) : Draining setup d h [] [] { h with memory }
  | take {h h' : Handshake Memory} {found : Found} {memory : Memory} {more : List Found}
    {directives : List Directive} (htakes : setup.Takes d h found memory)
    (hrest : Draining setup d (setup.advance { h with memory } d found).2 more directives h') :
    Draining setup d h (found :: more)
      ((setup.advance { h with memory } d found).1 ++ directives) h'

theorem waiting_ne_nil_of_look {setup : HandshakeSetup Memory} {d : Direction}
    {h : Handshake Memory} {isFirst : Bool} {found : Found} {memory : Memory}
    (hlook : setup.look h (d.author setup.side) isFirst (h.flow d).waiting =
      (.ok (some found), memory)) : (h.flow d).waiting ≠ [] := by
  have hlength := length_of_look hlook
  exact List.length_pos_iff.1 (by omega)

theorem taken_of_look {setup : HandshakeSetup Memory} {d : Direction} {h : Handshake Memory}
    {isFirst : Bool} {found : Found} {memory : Memory}
    (hlook : setup.look h (d.author setup.side) isFirst (h.flow d).waiting =
      (.ok (some found), memory)) :
    setup.taken d isFirst h =
      found :: setup.taken d false (setup.advance { h with memory } d found).2 := by
  rw [taken, if_neg (waiting_ne_nil_of_look hlook)]
  split
  · next found' memory' hlook' =>
    rw [hlook] at hlook'
    cases hlook'
    rfl
  · next hnone => exact absurd hlook (hnone found memory)

theorem drain_of_look {setup : HandshakeSetup Memory} {d : Direction} {h : Handshake Memory}
    {isFirst : Bool} {found : Found} {memory : Memory}
    (hlook : setup.look h (d.author setup.side) isFirst (h.flow d).waiting =
      (.ok (some found), memory)) :
    setup.drain d isFirst h =
      (((setup.drain d false (setup.advance { h with memory } d found).2).1.map
          ((setup.advance { h with memory } d found).1 ++ ·)),
        (setup.drain d false (setup.advance { h with memory } d found).2).2) := by
  rw [drain, if_neg (waiting_ne_nil_of_look hlook)]
  split
  · next e memory' hlook' =>
    rw [hlook] at hlook'
    cases hlook'
  · next memory' hlook' =>
    rw [hlook] at hlook'
    cases hlook'
  · next found' memory' hlook' =>
    rw [hlook] at hlook'
    cases hlook'
    dsimp only
    split
    · next more h' hmore =>
      rw [hmore]
      rfl
    · next e h' herror =>
      rw [herror]
      rfl

/-- Nothing is taken where nothing is found, and only the memory of the parser may change. -/
theorem drain_of_look_ne {setup : HandshakeSetup Memory} {d : Direction} {h : Handshake Memory}
    {isFirst : Bool}
    (hnone : ∀ found memory, setup.look h (d.author setup.side) isFirst (h.flow d).waiting ≠
      (.ok (some found), memory)) :
    setup.taken d isFirst h = []
      ∧ ∃ answer memory, setup.drain d isFirst h = (answer, { h with memory })
        ∧ ∀ directives, answer = .ok directives → directives = [] := by
  constructor
  · rw [taken]
    split
    · rfl
    · split
      · next found memory hlook => exact absurd hlook (hnone found memory)
      · rfl
  · rw [drain]
    split
    · exact ⟨.ok [], h.memory, rfl, fun _ h => by cases h; rfl⟩
    · split
      · next e memory hlook => exact ⟨.error e, memory, rfl, fun _ h => by cases h⟩
      · next memory hlook => exact ⟨.ok [], memory, rfl, fun _ h => by cases h; rfl⟩
      · next found memory hlook => exact absurd hlook (hnone found memory)

/-- Draining takes the messages that are recorded, whether it fails or not, and a success tells the
directives of all of them. -/
theorem draining_drain (setup : HandshakeSetup Memory) (d : Direction) (isFirst : Bool)
    (h : Handshake Memory) :
    ∃ directives, Draining setup d h (setup.taken d isFirst h) directives
        (setup.drain d isFirst h).2
      ∧ ∀ answer, (setup.drain d isFirst h).1 = .ok answer → answer = directives := by
  -- the two ways to stop at once: nothing waits, or nothing is found
  have hstop : ∀ {isFirst : Bool} {h : Handshake Memory},
      (∀ found memory, setup.look h (d.author setup.side) isFirst (h.flow d).waiting ≠
        (.ok (some found), memory)) →
      ∃ directives, Draining setup d h (setup.taken d isFirst h) directives
          (setup.drain d isFirst h).2
        ∧ ∀ answer, (setup.drain d isFirst h).1 = .ok answer → answer = directives := by
    intro isFirst h hnone
    obtain ⟨htaken, answer, memory, hdrain, hanswer⟩ := drain_of_look_ne hnone
    rw [htaken, hdrain]
    exact ⟨[], .stop h memory, hanswer⟩
  induction isFirst, h using taken.induct setup d with
  | case1 isFirst h hwaiting =>
    refine hstop fun found memory hlook => ?_
    exact waiting_ne_nil_of_look hlook hwaiting
  | case2 isFirst h hwaiting found memory hlook ih =>
    obtain ⟨directives, hdraining, hanswer⟩ := ih
    rw [taken_of_look hlook, drain_of_look hlook]
    refine ⟨_, .take (takes_of_look hlook) hdraining, ?_⟩
    -- an error further on is the answer, although this message has been taken
    intro answer hok
    cases hmore : (setup.drain d false (setup.advance { h with memory } d found).2).1 with
    | error e =>
      rw [hmore] at hok
      cases hok
    | ok more =>
      rw [hmore] at hok
      injection hok with hok
      rw [← hok, hanswer more hmore]
  | case3 isFirst h hwaiting hnone => exact hstop hnone

/-- Processing CRYPTO data takes the data in and then drains the direction, unless the data are
refused. -/
theorem draining_processCrypto (setup : HandshakeSetup Memory) (h : Handshake Memory)
    (d : Direction) (epoch : Epoch) (offset : Nat) (data : Bytes) :
    ∃ directives, Draining setup d
        (h.setFlow ((h.flow d).receive setup.config.maxCryptoBuffer epoch offset data).2 d)
        (setup.takenByCrypto h d epoch offset data) directives
        (setup.processCrypto h d epoch offset data).2
      ∧ ∀ answer, (setup.processCrypto h d epoch offset data).1 = .ok answer →
        answer = directives := by
  unfold processCrypto takenByCrypto
  rcases (h.flow d).receive setup.config.maxCryptoBuffer epoch offset data with ⟨answer, f⟩
  cases answer with
  | error e =>
    refine ⟨[], .stop (h.setFlow f d) (h.setFlow f d).memory, ?_⟩
    intro answer hok
    cases hok
  | ok _ => exact setup.draining_drain d true (h.setFlow f d)

end HandshakeSetup

end QuicTransport
