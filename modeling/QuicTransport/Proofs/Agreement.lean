import Mathlib.Logic.Function.Basic
import QuicTransport.Proofs.ConnectionRecord

set_option autoImplicit false

/-! # A client and a server agree

Two parties hold a conversation over a network that may do what it likes with the frames: it
delivers them in any order, again and again or never, alone or with others of the same epoch. It
cannot make up frames. So nothing that has been sent ever leaves the network, and the network is no
more than the frames that each party has sent.

The engine of a party may write any CRYPTO data in any epoch at any time. Operations may fail, and
then what they did before the failure remains, but they send nothing.

Whatever happens, what the parties know about each other stays true
(`Conversation.sound_of_reachable`), and so they never take different messages
(`Conversation.agreement`). -/

namespace QuicTransport

open HandshakeSetup (Found)

/-! ## One party -/

/-- One end of a conversation. -/
structure Party where
  connection : Connection Unit
  log : List Found := []
  sent : List (Epoch × Frame) := []

namespace Party

/-- A party that has done nothing. Its messages are framed. -/
def start (s : Side) (config : Config) (randomness : Nat → UInt8) : Party :=
  { connection :=
      { setup := { side := s, config, parser := .framing, memory := (), randomness } } }

/-- The engine writes CRYPTO data. -/
def write (p : Party) (epoch : Epoch) (offset : Nat) (data : Bytes) : Party :=
  let call := p.connection.processOutbound (.crypto offset data) epoch
  { connection := call.2
    log := p.log ++ p.connection.takenOutbound epoch offset data
    sent := p.sent ++ sentBy .outbound call.1 }

/-- The next packet is processed. -/
def process (p : Party) : Party :=
  let call := p.connection.processInbound
  { connection := call.2
    log := p.log ++ p.connection.takenInbound
    sent := p.sent ++ sentBy .inbound (call.1.map (·.getD [])) }

end Party

/-- What can happen to a party. -/
inductive Action where
  | beginHandshake
  | write (epoch : Epoch) (offset : Nat) (data : Bytes)
  | receive (packet : Packet)
  | process

/-- Whether the network can do this. A packet bears frames that are on their way, all of its epoch;
everything else is free. -/
def Action.isAllowed (arriving : List (Epoch × Frame)) : Action → Bool
  | .receive packet =>
    match packet.epoch? with
    | some epoch => packet.frames.all fun f => decide ((epoch, f) ∈ arriving)
    | none => false
  | _ => true

/-- The party afterwards. -/
def Party.act (p : Party) : Action → Party
  | .beginHandshake => { p with connection := p.connection.beginHandshake.2 }
  | .write epoch offset data => p.write epoch offset data
  | .receive packet => { p with connection := (p.connection.bufferPacket packet).2 }
  | .process => p.process

/-- Whether the handshake has come to its end. -/
def Phase.reachedDone {Memory : Type} : Phase Memory → Bool
  | .handshaking h => h.isDone
  | .active => true
  | _ => false

/-- How many messages the handshake has come past. -/
def Phase.messages {Memory : Type} : Phase Memory → Nat
  | .handshaking h => min h.progress.rank 7
  | .active => 7
  | _ => 0

/-- A party, and what it knows about the messages of the other. -/
structure PartySound (s : Side) (p : Party) (peer : List Found) : Prop where
  connection : ConnectionSound s p.connection p.log peer
  sent : ∀ sent ∈ p.sent, Carried s p.log peer sent

theorem partySound_start (s : Side) (config : Config) (randomness : Nat → UInt8)
    (peer : List Found) : PartySound s (Party.start s config randomness) peer where
  connection :=
    { side := rfl
      parser := rfl
      record := logSound_nil s peer
      phase := rfl
      buffered := fun p hp => by cases hp
      deferred := fun p hp => by cases hp }
  sent := fun sent hsent => by cases hsent

theorem PartySound.mono {s : Side} {p : Party} {peer : List Found} (h : PartySound s p peer)
    (more : List Found) : PartySound s p (peer ++ more) where
  connection := h.connection.mono more
  sent := fun sent hsent => (h.sent sent hsent).mono_peer more

theorem PartySound.of_callSound {s : Side} {p : Party} {peer : List Found} (h : PartySound s p peer)
    {d : Direction} {answer : Result (List Directive)} {c : Connection Unit} {more : List Found}
    (hcall : CallSound s d answer c (p.log ++ more) peer) :
    PartySound s ⟨c, p.log ++ more, p.sent ++ sentBy d answer⟩ peer where
  connection := hcall.state
  sent := by
    intro sent hsent
    rcases List.mem_append.1 hsent with hsent | hsent
    · exact (h.sent sent hsent).mono_log more
    · exact hcall.sent sent hsent

/-- A step of a party, while the other stands still. -/
theorem PartySound.act {s : Side} {p peer : Party} (h : PartySound s p peer.log)
    (hpeer : PartySound s.opposite peer p.log) {a : Action} (ha : a.isAllowed peer.sent = true) :
    ∃ more, (p.act a).log = p.log ++ more ∧ PartySound s (p.act a) peer.log := by
  have hrecord : LogSound s.opposite peer.log p.log := hpeer.connection.record
  cases a with
  | beginHandshake =>
    exact ⟨[], (List.append_nil _).symm, h.connection.beginHandshake, h.sent⟩
  | write epoch offset data =>
    exact ⟨_, rfl, h.of_callSound (h.connection.processOutbound hrecord epoch offset data)⟩
  | receive packet =>
    have hcarried : packet.IsCarried s.opposite peer.log p.log := by
      unfold Action.isAllowed at ha
      dsimp only at ha
      split at ha
      · next epoch hepoch =>
        refine ⟨epoch, hepoch, fun f hf => ?_⟩
        exact hpeer.sent _ (of_decide_eq_true (List.all_eq_true.1 ha f hf))
      · cases ha
    exact ⟨[], (List.append_nil _).symm, h.connection.bufferPacket hcarried, h.sent⟩
  | process => exact ⟨_, rfl, h.of_callSound (h.connection.processInbound hrecord)⟩

/-! ## Conversations -/

/-- A client and a server. -/
abbrev Conversation := Side → Party

namespace Conversation

def start (config : Side → Config) (randomness : Side → Nat → UInt8) : Conversation :=
  fun s => Party.start s (config s) (randomness s)

def act (w : Conversation) (s : Side) (a : Action) : Conversation :=
  Function.update w s ((w s).act a)

/-- The states of a conversation, in any order of steps. What is on its way to a party is what the
other has sent. -/
inductive Reachable (config : Side → Config) (randomness : Side → Nat → UInt8) :
    Conversation → Prop where
  | start : Reachable config randomness (start config randomness)
  | act {w : Conversation} (h : Reachable config randomness w) (s : Side) (a : Action)
      (ha : a.isAllowed (w s.opposite).sent = true) : Reachable config randomness (w.act s a)

/-- Both parties know of each other what is true. -/
def Sound (w : Conversation) : Prop := ∀ s, PartySound s (w s) (w s.opposite).log

theorem sound_start (config : Side → Config) (randomness : Side → Nat → UInt8) :
    Sound (start config randomness) :=
  fun s => partySound_start s (config s) (randomness s) _

theorem Sound.act {w : Conversation} (h : w.Sound) {s : Side} {a : Action}
    (ha : a.isAllowed (w s.opposite).sent = true) : (w.act s a).Sound := by
  have hother : PartySound s.opposite (w s.opposite) (w s).log := by
    have hsound := h s.opposite
    rwa [Side.opposite_opposite] at hsound
  obtain ⟨more, hlog, hparty⟩ := (h s).act hother ha
  -- the party that acts has a new state, and the other sees a longer record
  intro t
  unfold Conversation.act
  by_cases ht : t = s
  · rw [ht, Function.update_self, Function.update_of_ne (opposite_ne s)]
    exact hparty
  · have hopposite : t = s.opposite := by
      cases s <;> cases t <;> first | rfl | exact absurd rfl ht
    rw [hopposite, Side.opposite_opposite, Function.update_self,
      Function.update_of_ne (opposite_ne s), hlog]
    exact hother.mono more

theorem sound_of_reachable {config : Side → Config} {randomness : Side → Nat → UInt8}
    {w : Conversation} (h : Reachable config randomness w) : w.Sound := by
  induction h with
  | start => exact sound_start config randomness
  | act _ s a ha ih => exact ih.act ha

end Conversation

/-! ## Agreement -/

/-- Two records that know of each other have the same message at each place that both have. -/
theorem LogSound.eq_of_getElem? {s : Side} {log peer : List Found} (h : LogSound s log peer)
    (hpeer : LogSound s.opposite peer log) {n : Nat} {a b : Found} (ha : log[n]? = some a)
    (hb : peer[n]? = some b) : a = b := by
  have hscript : a.expectation = b.expectation := by
    have hboth := (h.scripted n a ha).symm.trans (hpeer.scripted n b hb)
    injection hboth
  by_cases hauthor : a.expectation.author = s.opposite
  · have hplace := h.agree n a ha hauthor
    rw [hb] at hplace
    injection hplace with hplace
    exact hplace.symm
  · -- the message is our own, so the other side has it from us
    have hown : b.expectation.author = s.opposite.opposite := by
      rw [hscript] at hauthor
      revert hauthor
      generalize b.expectation.author = t
      cases s <;> cases t <;> decide
    have hplace := hpeer.agree n b hb hown
    rw [ha] at hplace
    injection hplace

theorem LogSound.prefix_of_length_le {s : Side} {log peer : List Found} (h : LogSound s log peer)
    (hpeer : LogSound s.opposite peer log) (hlength : log.length ≤ peer.length) : log <+: peer := by
  rw [List.prefix_iff_getElem?]
  intro n hn
  have hb : peer[n]? = some peer[n] := List.getElem?_eq_getElem (by omega)
  rw [hb, h.eq_of_getElem? hpeer (List.getElem?_eq_getElem hn) hb]

namespace Conversation

/-- The record of a party has the messages that its handshake has come past. -/
theorem Sound.map_expectation {w : Conversation} (h : w.Sound) (s : Side) :
    (w s).log.map Found.expectation =
      Expectation.script.take (w s).connection.phase.messages := by
  have hrecord := (h s).connection.record
  rw [hrecord.map_expectation]
  congr 1
  have hphase := (h s).connection.phase
  cases hcase : (w s).connection.phase with
  | idle =>
    rw [hcase] at hphase
    exact congrArg List.length hphase
  | handshaking handshake =>
    rw [hcase] at hphase
    exact HandshakeSound.length_eq hphase hrecord
  | active =>
    rw [hcase] at hphase
    exact Nat.le_antisymm hrecord.length_le hphase.1
  | _ =>
    rw [hcase] at hphase
    exact hphase.elim

/-- A client is done only after the server. -/
theorem Sound.reachedDone {w : Conversation} (h : w.Sound)
    (hclient : (w .client).connection.phase.reachedDone = true) :
    (w .server).connection.phase.reachedDone = true := by
  have hclientPhase := (h .client).connection.phase
  have hserverPhase := (h .server).connection.phase
  -- a client that is done knows that the server has all messages
  have hlength : 7 ≤ (w .server).log.length := by
    cases hphase : (w .client).connection.phase with
    | handshaking handshake =>
      rw [hphase] at hclient hclientPhase
      have hdone : handshake.progress = .done := eq_of_beq hclient
      exact (HandshakeSound.complete hclientPhase (h .client).connection.record hdone).2
    | active =>
      rw [hphase] at hclientPhase
      exact hclientPhase.2
    | _ =>
      rw [hphase] at hclient
      cases hclient
  cases hphase : (w .server).connection.phase with
  | idle =>
    rw [hphase] at hserverPhase
    have hnone : (w .server).log = [] := hserverPhase
    rw [hnone] at hlength
    cases hlength
  | handshaking handshake =>
    rw [hphase] at hserverPhase
    exact beq_iff_eq.2 (HandshakeSound.done_of_length hserverPhase hlength)
  | active => rfl
  | _ =>
    rw [hphase] at hserverPhase
    exact hserverPhase.elim

/-- The parties agree in every state. The record of a party has the messages that its handshake has
come past. One has taken the messages of the other, with their kinds and bytes, and perhaps more. No
party has taken a message of the other that the other has not taken itself. The client is done only
if the server is. -/
theorem agreement {config : Side → Config} {randomness : Side → Nat → UInt8} {w : Conversation}
    (h : Reachable config randomness w) :
    (∀ s : Side, (w s).log.map Found.expectation =
        Expectation.script.take (w s).connection.phase.messages)
      ∧ ((w .client).log <+: (w .server).log ∨ (w .server).log <+: (w .client).log)
      ∧ (∀ (s : Side) (n : Nat) (m : Found), (w s).log[n]? = some m →
        m.expectation.author = s.opposite → (w s.opposite).log[n]? = some m)
      ∧ ((w .client).connection.phase.reachedDone = true →
        (w .server).connection.phase.reachedDone = true) := by
  have hsound := sound_of_reachable h
  have hclient : LogSound .client (w .client).log (w .server).log :=
    (hsound .client).connection.record
  have hserver : LogSound .server (w .server).log (w .client).log :=
    (hsound .server).connection.record
  refine ⟨hsound.map_expectation, ?_, fun s => (hsound s).connection.record.agree,
    hsound.reachedDone⟩
  rcases Nat.le_total (w .client).log.length (w .server).log.length with hle | hle
  · exact Or.inl (hclient.prefix_of_length_le hserver hle)
  · exact Or.inr (hserver.prefix_of_length_le hclient hle)

/-! ## A whole handshake -/

/-- Several steps, one after the other. -/
def run (w : Conversation) : List (Side × Action) → Conversation
  | [] => w
  | (s, a) :: rest => (w.act s a).run rest

/-- Whether the network can do all of them. -/
def isAllowed (w : Conversation) : List (Side × Action) → Bool
  | [] => true
  | (s, a) :: rest => a.isAllowed (w s.opposite).sent && (w.act s a).isAllowed rest

theorem Reachable.run {config : Side → Config} {randomness : Side → Nat → UInt8}
    {w : Conversation} (h : Reachable config randomness w) {steps : List (Side × Action)}
    (hsteps : w.isAllowed steps = true) : Reachable config randomness (w.run steps) := by
  induction steps generalizing w with
  | nil => exact h
  | cons step rest ih =>
    obtain ⟨s, a⟩ := step
    obtain ⟨ha, hrest⟩ := Bool.and_eq_true_iff.1 hsteps
    exact ih (h.act s a ha) hrest

/-- A frame alone in a packet of its epoch. -/
def bearer (f : Frame) : Epoch → Packet
  | .initial => .initial ⟨⟨.v1, .empty, .empty, 0, .one⟩, [], [f]⟩
  | .handshake => .handshake ⟨⟨.v1, .empty, .empty, 0, .one⟩, [f]⟩
  | .application => .oneRtt ⟨⟨.empty, false, false, 0, .one⟩, [f]⟩

/-- A side writes a message without a body, at its place in the stream, and the other side gets it
at once. -/
def exchange (s : Side) (kind : MessageKind) (offset : Nat) : List (Side × Action) :=
  let message := Message.frame kind []
  [(s, .write kind.epoch offset message),
    (s.opposite, .receive (bearer (.crypto offset message) kind.epoch)), (s.opposite, .process)]

/-- All seven messages and the confirmation. -/
def wholeHandshake : List (Side × Action) :=
  [(.client, .beginHandshake), (.server, .beginHandshake)]
    ++ exchange .client .clientHello 0 ++ exchange .server .serverHello 0
    ++ exchange .server .encryptedExtensions 0 ++ exchange .server .certificate 4
    ++ exchange .server .certificateVerify 8 ++ exchange .server .finished 12
    ++ exchange .client .finished 0
    ++ [(.client, .receive (bearer .handshakeDone .application)), (.client, .process)]

/-- After the whole handshake the client is active and the server is done, and they have the same
seven messages. -/
theorem agreement_of_wholeHandshake :
    ∃ w, Reachable (fun _ => {}) (fun _ _ => 0) w
      ∧ (w .client).log.map Found.expectation = Expectation.script
      ∧ (w .client).log = (w .server).log
      ∧ (w .client).connection.phase.isActive = true
      ∧ (w .server).connection.phase.reachedDone = true := by
  have hreachable : Reachable (fun _ => {}) (fun _ _ => 0)
      ((start (fun _ => {}) (fun _ _ => 0)).run wholeHandshake) :=
    Reachable.start.run (by decide +kernel)
  obtain ⟨hrecord, hlogs, _, hdone⟩ := agreement hreachable
  refine ⟨_, hreachable, (hrecord .client).trans (by decide +kernel), ?_, by decide +kernel,
    hdone (by decide +kernel)⟩
  rcases hlogs with hlogs | hlogs
  · exact List.IsPrefix.eq_of_length hlogs (by decide +kernel)
  · exact (List.IsPrefix.eq_of_length hlogs (by decide +kernel)).symm

end Conversation

end QuicTransport
