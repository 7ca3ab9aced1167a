import QuicTransport.Proofs.Agreement

set_option autoImplicit false

/-! # Which frames are let through

`Frame.isAllowedIn` tells which frames an epoch may carry, and a sender keeps to it. On arrival two
other tables decide, one during the handshake and one for an active connection, and neither knows
the epoch. During the handshake this makes little difference: of what the epoch does not allow, only
HANDSHAKE_DONE at a client and an application's CONNECTION_CLOSE pass
(`Connection.passesHandshake_iff`). An active connection takes every frame from every packet, apart
from those that no peer can send. -/

namespace QuicTransport

/-! ## Frames that are looked at -/

namespace Connection

variable {Memory : Type}

/-- The frames up to the first that closes the connection, with that one. -/
def examined (frames : List Frame) : List Frame :=
  beforeClosing frames ++ (frames.find? isClosing).toList

theorem mem_examined {frames : List Frame} {f : Frame} (h : f ∈ examined frames) :
    f ∈ beforeClosing frames ∨ isClosing f = true := by
  rcases List.mem_append.1 h with h | h
  · exact Or.inl h
  · exact Or.inr (List.find?_some (Option.mem_toList.1 h))

theorem mem_of_mem_beforeClosing {frames : List Frame} {f : Frame} (h : f ∈ beforeClosing frames) :
    f ∈ frames :=
  (List.takeWhile_sublist _).subset h

/-! ## The tables -/

/-- Whether a frame passes during the handshake. -/
def passesHandshake (self : Side) : Frame → Bool
  | .padding _ => true
  | .ping => true
  | .ack _ => true
  | .crypto _ _ => true
  | .connectionClose _ => true
  | .handshakeDone => self == .client
  | _ => false

/-- Whether a frame passes once the connection is active. -/
def passesActive (self : Side) : Frame → Bool
  | .handshakeDone => self == .client
  | .raw _ _ => false
  | _ => true

/-- The frames that pass during the handshake although their epoch does not allow them. -/
def isException (self : Side) : Frame → Bool
  | .handshakeDone => self == .client
  | .connectionClose closing => closing.frameType.isNone
  | _ => false

/-- Whether a frame belongs to the layer above. -/
def isForwarded : Frame → Bool
  | .stream _ => true
  | .crypto _ _ => true
  | .newToken _ => true
  | _ => false

/-- The table of the handshake is that of the first two epochs, with two exceptions. -/
theorem passesHandshake_iff {self : Side} {e : Epoch} (he : e ≠ .application) (f : Frame) :
    passesHandshake self f = true ↔ f.isAllowedIn e = true ∨ isException self f = true := by
  have hepoch : (e == Epoch.application) = false := beq_eq_false_iff_ne.2 he
  cases f with
  | connectionClose closing =>
    cases htype : closing.frameType <;>
      simp [passesHandshake, isException, Frame.isAllowedIn, hepoch, htype]
  | _ => simp [passesHandshake, isException, Frame.isAllowedIn, hepoch]

theorem passesHandshake_of_isClosing (self : Side) {f : Frame} (h : isClosing f = true) :
    passesHandshake self f = true := by
  cases f <;> first | rfl | cases h

theorem passesActive_of_isClosing (self : Side) {f : Frame} (h : isClosing f = true) :
    passesActive self f = true := by
  cases f <;> first | rfl | cases h

theorem isAllowedIn_application (f : Frame) : f.isAllowedIn .application = true := by
  cases f <;> rfl

/-! ## Forwarding -/

/-- The frames that are passed on to the layer above. -/
def forwarded (directives : List Directive) : List Frame :=
  directives.filterMap fun
    | .forwardFrame f => some f
    | _ => none

@[simp] theorem forwarded_nil : forwarded [] = [] := rfl

@[simp] theorem forwarded_append (front back : List Directive) :
    forwarded (front ++ back) = forwarded front ++ forwarded back :=
  List.filterMap_append

@[simp] theorem forwarded_disconnect : forwarded [.disconnect] = [] := rfl

@[simp] theorem forwarded_emit (e : Epoch) (frames : List Frame) :
    forwarded [.emit e frames] = [] := rfl

@[simp] theorem forwarded_installStreamMuxer : forwarded [.installStreamMuxer] = [] := rfl

@[simp] theorem forwarded_map_forwardFrame (frames : List Frame) :
    forwarded (frames.map .forwardFrame) = frames := by
  induction frames with
  | nil => rfl
  | cons f fs ih => exact congrArg (f :: ·) ih

/-- The messages of the peer go no further. -/
theorem forwarded_draining {setup : HandshakeSetup Memory} {h h' : Handshake Memory}
    {founds : List HandshakeSetup.Found} {directives : List Directive}
    (hdraining : setup.Draining .inbound h founds directives h') : forwarded directives = [] := by
  have hsendings : ∀ e crypto, forwarded (setup.sendings .inbound e crypto) = [] := by
    intro e crypto
    unfold HandshakeSetup.sendings
    dsimp only
    split <;> rfl
  have hkeys : ∀ p, forwarded (HandshakeSetup.keyChanges p) = [] := by
    intro p
    cases p <;> rfl
  induction hdraining with
  | stop h memory => rfl
  | take _ _ ih => simp [HandshakeSetup.advance, hsendings, hkeys, ih]

/-! ## During the handshake -/

/-- What is known once frames have been processed without a failure. -/
structure Passed (s : Side) (h : Handshake Memory) (frames : List Frame)
    (directives : List Directive) (h' : Handshake Memory) : Prop where
  passes : ∀ f ∈ frames, passesHandshake s f = true
  forwards : forwarded directives = []
  /-- After the last message only HANDSHAKE_DONE goes further. -/
  waits : h.progress = .clientFinished → .handshakeDone ∉ frames → h'.progress = .clientFinished

theorem progress_draining {setup : HandshakeSetup Memory} {d : Direction} {h h' : Handshake Memory}
    {founds : List HandshakeSetup.Found} {directives : List Directive}
    (hdraining : setup.Draining d h founds directives h') (hlast : h.progress = .clientFinished) :
    h'.progress = .clientFinished := by
  cases hdraining with
  | stop h memory => exact hlast
  | take htakes _ =>
    have hexpected := htakes.expected
    rw [hlast] at hexpected
    cases hexpected

theorem passed_crypto {setup : HandshakeSetup Memory} {epoch : Epoch} {h h' : Handshake Memory}
    {offset : Nat} {data : Bytes} {directives : List Directive}
    (hok : setup.processCrypto h .inbound epoch offset data = (.ok directives, h')) :
    Passed setup.side h [.crypto offset data] directives h' := by
  obtain ⟨sent, hdraining, hanswer⟩ := setup.draining_processCrypto h .inbound epoch offset data
  rw [hok] at hdraining hanswer
  refine ⟨?_, ?_, ?_⟩
  · intro f hf
    rw [List.mem_singleton.1 hf]
    rfl
  · rw [hanswer directives rfl]
    exact forwarded_draining hdraining
  · intro hlast _
    exact progress_draining hdraining hlast

/-- A frame that is processed without a failure passes. -/
theorem passed_handshakeFrame {setup : HandshakeSetup Memory} {epoch : Epoch}
    {h h' : Handshake Memory} {f : Frame} {directives : List Directive}
    (hok : handshakeFrame setup epoch h f = (.ok directives, h')) :
    Passed setup.side h [f] directives h' := by
  cases f with
  | crypto offset data => exact passed_crypto hok
  | handshakeDone =>
    unfold handshakeFrame Handshake.processDone at hok
    dsimp only at hok
    split at hok
    · cases hok
    · next hclient =>
      split at hok
      · cases hok
        exact ⟨by simp [passesHandshake, hclient], rfl, by simp⟩
      · cases hok
  | padding _ | ping | ack _ =>
    cases hok
    exact ⟨by simp [passesHandshake], rfl, fun hlast _ => hlast⟩
  | _ => cases hok

theorem passed_handshakeFrames {setup : HandshakeSetup Memory} {epoch : Epoch} {frames : List Frame}
    {h h' : Handshake Memory} {directives : List Directive}
    (hok : handshakeFrames setup epoch frames h = (.ok directives, h')) :
    Passed setup.side h frames directives h' := by
  induction frames generalizing h directives with
  | nil =>
    cases hok
    exact ⟨by simp, rfl, fun hlast _ => hlast⟩
  | cons f fs ih =>
    obtain ⟨front, mid, back, hfirst, hmore, rfl⟩ := Outcome.andThen_eq_ok.1 hok
    have hhead := passed_handshakeFrame hfirst
    have htail := ih hmore
    refine ⟨?_, ?_, ?_⟩
    · intro g hg
      rcases List.mem_cons.1 hg with rfl | hg
      · exact hhead.passes g List.mem_cons_self
      · exact htail.passes g hg
    · rw [forwarded_append, hhead.forwards, htail.forwards]
      rfl
    · intro hlast hnone
      simp only [List.mem_cons, not_or] at hnone
      exact htail.waits (hhead.waits hlast (by simpa using hnone.1)) hnone.2

/-! ## Packets -/

/-- What a packet may do during the handshake if it does not fail. -/
structure HandshakeLets (s : Side) (h : Handshake Memory) (e : Epoch) (p : Packet)
    (directives : List Directive) (c' : Connection Memory) : Prop where
  /-- What the epoch does not allow is HANDSHAKE_DONE or an application's CONNECTION_CLOSE. -/
  frames : ∀ f ∈ examined p.frames, f.isAllowedIn e = true ∨ isException s f = true
  forwards : forwarded directives = []
  /-- Only HANDSHAKE_DONE or a CONNECTION_CLOSE ends the wait for HANDSHAKE_DONE. -/
  waits : h.progress = .clientFinished → c'.phase.progress? = some .clientFinished
    ∨ .handshakeDone ∈ p.frames ∨ p.frames.any isClosing = true

theorem handshakeLets_long {c c' : Connection Memory} {h : Handshake Memory} {e : Epoch}
    {p : Packet} {directives : List Directive} (he : e ≠ .application)
    (hok : c.handshakeLong h e p.frames = (.ok directives, c')) :
    HandshakeLets c.side h e p directives c' := by
  have hlegal : ∀ sent h',
      handshakeFrames c.setup e (beforeClosing p.frames) h = (.ok sent, h') →
        ∀ f ∈ examined p.frames, f.isAllowedIn e = true ∨ isException c.side f = true := by
    intro sent h' hframes f hf
    refine (passesHandshake_iff he f).1 ?_
    rcases mem_examined hf with hf | hf
    · exact (passed_handshakeFrames hframes).passes f hf
    · exact passesHandshake_of_isClosing _ hf
  cases c.longStep h e p.frames with
  | closed hclosing hframes hstep =>
    cases hstep.symm.trans hok
    refine ⟨hlegal _ _ hframes, ?_, fun _ => Or.inr (Or.inr hclosing)⟩
    simp [(passed_handshakeFrames hframes).forwards]
  | settled _ hstep =>
    cases c.settleStep (handshakeFrames c.setup e (beforeClosing p.frames) h) with
    | failed _ hsettle => cases (hstep.trans hsettle).symm.trans hok
    | stayed hframes _ hsettle =>
      cases (hstep.trans hsettle).symm.trans hok
      have hpassed := passed_handshakeFrames hframes
      refine ⟨hlegal _ _ hframes, hpassed.forwards, fun hlast => ?_⟩
      by_cases hdone : .handshakeDone ∈ p.frames
      · exact Or.inr (Or.inl hdone)
      · have hnone := fun hmem => hdone (mem_of_mem_beforeClosing hmem)
        exact Or.inl (congrArg some (hpassed.waits hlast hnone))
    | completed hframes hprogress hsettle =>
      cases (hstep.trans hsettle).symm.trans hok
      have hpassed := passed_handshakeFrames hframes
      refine ⟨hlegal _ _ hframes, by simp [hpassed.forwards], fun hlast => Or.inr (Or.inl ?_)⟩
      by_contra hdone
      have hnone := fun hmem => hdone (mem_of_mem_beforeClosing hmem)
      cases (hpassed.waits hlast hnone).symm.trans hprogress

theorem handshakeLets_short {c c' : Connection Memory} {h : Handshake Memory} {p : Packet}
    {directives : List Directive} (hphase : c.phase = .handshaking h)
    (hok : c.handshakeShort h p = (.ok directives, c')) :
    HandshakeLets c.side h .application p directives c' := by
  have hallowed : ∀ f ∈ examined p.frames,
      f.isAllowedIn .application = true ∨ isException c.side f = true :=
    fun f _ => Or.inl (isAllowedIn_application f)
  cases c.shortStep h p with
  | setAside _ hstep =>
    -- the connection is where it was
    cases hstep.symm.trans hok
    refine ⟨hallowed, rfl, fun hlast => Or.inl ?_⟩
    simp [hphase, Phase.progress?, hlast]
  | confirmed _ hany _ hstep =>
    cases hstep.symm.trans hok
    obtain ⟨f, hf, hdone⟩ := List.any_eq_true.1 hany
    have hmem : .handshakeDone ∈ p.frames := by
      cases f with
      | handshakeDone => exact hf
      | _ => cases hdone
    exact ⟨hallowed, rfl, fun _ => Or.inr (Or.inl hmem)⟩
  | undue _ _ _ hstep | missing _ _ hstep => cases hstep.symm.trans hok

theorem handshakeLets {c c' : Connection Memory} {h : Handshake Memory} {p : Packet} {e : Epoch}
    {directives : List Directive} (hphase : c.phase = .handshaking h) (he : p.epoch? = some e)
    (hok : c.handshakePacket h p = (.ok directives, c')) :
    HandshakeLets c.side h e p directives c' := by
  cases p with
  | oneRtt q =>
    cases he
    exact handshakeLets_short hphase hok
  | versionNegotiation q => cases he
  | initial q | handshake q =>
    cases he
    exact handshakeLets_long (by decide) hok

/-- What a packet may do to an active connection if it does not fail. -/
structure ActiveLets (s : Side) (p : Packet) (directives : List Directive) : Prop where
  /-- The epoch does not matter. -/
  frames : ∀ f ∈ examined p.frames, passesActive s f = true
  /-- The layer above gets all that is meant for it before a CONNECTION_CLOSE. -/
  forwards : forwarded directives = (beforeClosing p.frames).filter isForwarded

theorem activeFrame_ok {s : Side} {f : Frame} {directives : List Directive}
    (hok : activeFrame s f = .ok directives) :
    passesActive s f = true ∧ directives = ([f].filter isForwarded).map .forwardFrame := by
  cases f with
  | handshakeDone =>
    cases s with
    | client =>
      cases hok
      exact ⟨rfl, rfl⟩
    | server => cases hok
  | raw _ _ => cases hok
  | _ =>
    cases hok
    exact ⟨rfl, rfl⟩

/-- An active connection passes frames on and says nothing else about them. -/
theorem activeFrames_ok {s : Side} {frames : List Frame} {directives : List Directive}
    (hok : activeFrames s frames = .ok directives) :
    (∀ f ∈ frames, passesActive s f = true)
      ∧ directives = (frames.filter isForwarded).map .forwardFrame := by
  induction frames generalizing directives with
  | nil =>
    cases hok
    exact ⟨by simp, rfl⟩
  | cons f fs ih =>
    obtain ⟨front, hfront, hok⟩ := Result.bind_eq_ok.1 hok
    obtain ⟨back, hback, hok⟩ := Result.bind_eq_ok.1 hok
    cases hok
    obtain ⟨hpasses, rfl⟩ := activeFrame_ok hfront
    obtain ⟨hrest, rfl⟩ := ih hback
    refine ⟨List.forall_mem_cons.2 ⟨hpasses, hrest⟩, ?_⟩
    rw [← List.map_append, ← List.filter_append, List.singleton_append]

theorem activeLets {c c' : Connection Memory} {p : Packet} {directives : List Directive}
    (hok : c.activePacket p = (.ok directives, c')) : ActiveLets c.side p directives := by
  have hlegal : ∀ sent, activeFrames c.side (beforeClosing p.frames) = .ok sent →
      ∀ f ∈ examined p.frames, passesActive c.side f = true := by
    intro sent hframes f hf
    rcases mem_examined hf with hf | hf
    · exact (activeFrames_ok hframes).1 f hf
    · exact passesActive_of_isClosing _ hf
  cases c.activeStep p with
  | failed _ hstep => cases hstep.symm.trans hok
  | closed hframes _ hstep | answered hframes _ hstep =>
    cases hstep.symm.trans hok
    obtain ⟨_, rfl⟩ := activeFrames_ok hframes
    exact ⟨hlegal _ hframes, by simp⟩

theorem exists_activeFrame {s : Side} {f : Frame} (hpasses : passesActive s f = true) :
    ∃ directives, activeFrame s f = .ok directives := by
  cases f with
  | handshakeDone =>
    cases s with
    | client => exact ⟨_, rfl⟩
    | server => cases hpasses
  | raw _ _ => cases hpasses
  | _ => exact ⟨_, rfl⟩

theorem exists_activeFrames {s : Side} {frames : List Frame}
    (hpasses : ∀ f ∈ frames, passesActive s f = true) :
    ∃ directives, activeFrames s frames = .ok directives := by
  induction frames with
  | nil => exact ⟨[], rfl⟩
  | cons f fs ih =>
    obtain ⟨front, hfront⟩ := exists_activeFrame (hpasses f List.mem_cons_self)
    obtain ⟨back, hback⟩ := ih fun g hg => hpasses g (List.mem_cons_of_mem f hg)
    refine ⟨front ++ back, ?_⟩
    rw [activeFrames, hfront, hback]
    rfl

theorem exists_activePacket {c : Connection Memory} {p : Packet}
    (hpasses : ∀ f ∈ examined p.frames, passesActive c.side f = true) :
    ∃ directives c', c.activePacket p = (.ok directives, c') := by
  obtain ⟨directives, hframes⟩ :=
    exists_activeFrames fun f hf => hpasses f (List.mem_append_left _ hf)
  cases c.activeStep p with
  | failed herror _ => cases hframes.symm.trans herror
  | closed _ _ hstep | answered _ _ hstep => exact ⟨_, _, hstep⟩

/-! ## Processing -/

theorem eq_ok_of_map_some {o : Outcome (Connection Memory) (List Directive)}
    {directives : List Directive} {c : Connection Memory}
    (h : (o.1.map some, o.2) = (.ok (some directives), c)) : o = (.ok directives, c) := by
  obtain ⟨answer, c'⟩ := o
  cases answer with
  | error e => cases h
  | ok sent =>
    cases h
    rfl

/-- What gets through when the packet at the front of the queue is processed. An active connection
processes it without a failure whatever its epoch, unless it has a raw frame in it or, at a server,
HANDSHAKE_DONE. -/
theorem processInbound_lets {c : Connection Memory} {p : Packet} {rest : List Packet} {e : Epoch}
    (hqueue : c.buffered = p :: rest) (he : p.epoch? = some e) :
    (∀ h directives c', c.phase = .handshaking h →
        c.processInbound = (.ok (some directives), c') → HandshakeLets c.side h e p directives c')
      ∧ (c.phase = .active →
        (∀ directives c', c.processInbound = (.ok (some directives), c') →
          ActiveLets c.side p directives)
        ∧ ((∀ f ∈ examined p.frames, passesActive c.side f = true) →
          ∃ directives c', c.processInbound = (.ok (some directives), c'))) := by
  refine ⟨?_, ?_⟩
  · intro h directives c' hphase hok
    rw [processInbound_of_handshaking hphase hqueue] at hok
    exact handshakeLets (c := { c with buffered := rest }) hphase he (eq_ok_of_map_some hok)
  · intro hphase
    rw [processInbound_of_active hphase hqueue]
    refine ⟨?_, ?_⟩
    · intro directives c' hok
      exact activeLets (c := { c with buffered := rest }) (eq_ok_of_map_some hok)
    · intro hpasses
      obtain ⟨directives, c', hpacket⟩ :=
        exists_activePacket (c := { c with buffered := rest }) hpasses
      exact ⟨directives, c', by rw [hpacket]; rfl⟩

/-- A client that has all messages gets HANDSHAKE_DONE as it should, and then data. -/
theorem processInbound_lets_oneRtt :
    let confirmation := Conversation.bearer .handshakeDone .application
    let data : Frame := .stream ⟨0, 0, false, true, false, [1]⟩
    let setup := (Party.start .client {} fun _ => 0).connection.setup
    let h : Handshake Unit := { progress := .clientFinished, memory := () }
    let waiting : Connection Unit := { setup, phase := .handshaking h, buffered := [confirmation] }
    let active : Connection Unit :=
      { setup, phase := .active, buffered := [Conversation.bearer data .application] }
    waiting.processInbound.1 = .ok (some [.installStreamMuxer])
      ∧ HandshakeLets .client h .application confirmation [.installStreamMuxer]
        waiting.processInbound.2
      ∧ active.processInbound.1 = .ok (some [.forwardFrame data, .emit .application []])
      ∧ ActiveLets .client (Conversation.bearer data .application)
        [.forwardFrame data, .emit .application []] := by
  intro confirmation data setup h waiting active
  have hwaiting : waiting.processInbound =
      (.ok (some [.installStreamMuxer]), waiting.processInbound.2) := rfl
  have hactive : active.processInbound =
      (.ok (some [.forwardFrame data, .emit .application []]), active.processInbound.2) := rfl
  exact ⟨rfl, (processInbound_lets rfl rfl).1 h _ _ rfl hwaiting, rfl,
    ((processInbound_lets rfl rfl).2 rfl).1 _ _ hactive⟩

/-! ## Frames in the wrong epoch -/

/-- Whether the next packet belongs to an epoch, has this frame among those that are looked at, and
is processed without a failure. -/
def letsThrough (c : Connection Memory) (e : Epoch) (f : Frame) : Bool :=
  match c.buffered with
  | [] => false
  | p :: _ => p.epoch? == some e && (examined p.frames).contains f && c.processInbound.1.isOk

end Connection

/-- Several steps of a party. -/
def Party.run (p : Party) (actions : List Action) : Party := actions.foldl Party.act p

/-- A client gets and writes all messages. -/
def Party.clientFlight : List Action :=
  let flight := Message.frame .encryptedExtensions [] ++ Message.frame .certificate []
    ++ Message.frame .certificateVerify [] ++ Message.frame .finished []
  [.beginHandshake, .write .initial 0 (Message.frame .clientHello []),
    .receive (Conversation.bearer (.crypto 0 (Message.frame .serverHello [])) .initial), .process,
    .receive (Conversation.bearer (.crypto 0 flight) .handshake), .process,
    .write .handshake 0 (Message.frame .finished [])]

/-- Three frames get through that their epochs do not allow: an application's CONNECTION_CLOSE in an
Initial packet, HANDSHAKE_DONE in a Handshake packet, and data in an Initial packet. -/
theorem Connection.misplaced_frames_pass :
    let client : List Action → Connection Unit := fun actions =>
      ((Party.start .client {} fun _ => 0).run actions).connection
    let closing : Frame := .connectionClose ⟨0, none, []⟩
    let data : Frame := .stream ⟨0, 0, false, true, false, [1]⟩
    ((client [.beginHandshake, .receive (Conversation.bearer closing .initial)]).letsThrough
          .initial closing = true
        ∧ closing.isAllowedIn .initial = false)
      ∧ ((client (Party.clientFlight
            ++ [.receive (Conversation.bearer .handshakeDone .handshake)])).letsThrough
          .handshake .handshakeDone = true
        ∧ Frame.handshakeDone.isAllowedIn .handshake = false)
      ∧ (client (Party.clientFlight
            ++ [.receive (Conversation.bearer .handshakeDone .application), .process, .process,
              .receive (Conversation.bearer data .initial)])).letsThrough
          .initial data = true
        ∧ data.isAllowedIn .initial = false := by
  decide +kernel

end QuicTransport
