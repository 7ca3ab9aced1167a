import Mathlib.Data.List.TakeWhile
import QuicTransport.Connection

set_option autoImplicit false

/-! # What an operation can do to a connection

An operation of a connection ends in one of a few ways. They are listed here, each with what leads
to it and with what it leaves behind. What is known about connections is proved from these lists,
and not by going through the operations again. -/

namespace QuicTransport

theorem Phase.isClosed_of_isOpen {Memory : Type} {phase : Phase Memory}
    (h : phase.isOpen = true) : phase.isClosed = false := by
  cases phase <;> first | rfl | cases h

theorem Phase.handshaking_or_active_of_isOpen {Memory : Type} {phase : Phase Memory}
    (h : phase.isOpen = true) : (∃ h, phase = .handshaking h) ∨ phase = .active := by
  cases phase with
  | handshaking handshake => exact Or.inl ⟨handshake, rfl⟩
  | active => exact Or.inr rfl
  | idle | sentDisconnect | receivedDisconnect => cases h

/-- What can be asked of a connection. -/
inductive ConnectionCall where
  | begin
  | buffer (p : Packet)
  | process
  | outbound (f : Frame) (epoch : Epoch)
  | disconnect

namespace Connection

variable {Memory : Type}

/-- Do what a call asks. -/
def call (c : Connection Memory) : ConnectionCall → Outcome (Connection Memory) (List Directive)
  | .begin => (c.beginHandshake.1.map fun _ => [], c.beginHandshake.2)
  | .buffer p => ((c.bufferPacket p).1.map fun _ => [], (c.bufferPacket p).2)
  | .process => (c.processInbound.1.map (·.getD []), c.processInbound.2)
  | .outbound f epoch => c.processOutbound f epoch
  | .disconnect => c.disconnect

/-- A connection after several calls. A call that fails does not stop the ones after it. -/
def run (c : Connection Memory) : List ConnectionCall → Connection Memory
  | [] => c
  | x :: calls => (c.call x).2.run calls

/-! ## Operations of the handshake -/

/-- Active, with what was set aside in front. -/
def activated (c : Connection Memory) : Connection Memory :=
  { c with phase := .active, buffered := c.deferred ++ c.buffered, deferred := [] }

/-- After an operation of its handshake a connection is active if that is done. -/
inductive SettleStep (c : Connection Memory) (o : Outcome (Handshake Memory) (List Directive)) :
    Prop
  | failed {e : Error} {h : Handshake Memory} (ho : o = (.error e, h))
    (hstep : c.settle o = (.error e, c.withHandshake h)) : SettleStep c o
  | stayed {directives : List Directive} {h : Handshake Memory} (ho : o = (.ok directives, h))
    (hdone : h.isDone = false) (hstep : c.settle o = (.ok directives, c.withHandshake h)) :
    SettleStep c o
  | completed {directives : List Directive} {h : Handshake Memory} (ho : o = (.ok directives, h))
    (hdone : h.progress = .done)
    (hstep : c.settle o = (.ok (directives ++ [.installStreamMuxer]), c.activated)) :
    SettleStep c o

theorem settleStep (c : Connection Memory) (o : Outcome (Handshake Memory) (List Directive)) :
    SettleStep c o := by
  obtain ⟨answer, h⟩ := o
  cases answer with
  | error e => exact .failed rfl rfl
  | ok directives =>
    cases hdone : h.isDone with
    | true => exact .completed rfl (eq_of_beq hdone) (by simp [settle, promote, hdone, activated])
    | false => exact .stayed rfl hdone (by simp [settle, promote, hdone])

theorem beforeClosing_of_any_eq_false {frames : List Frame} (h : frames.any isClosing = false) :
    beforeClosing frames = frames := by
  refine List.takeWhile_eq_self_iff.2 fun f hf => ?_
  simpa using List.any_eq_false.1 h f hf

/-- The frames of a packet with a long header close the connection, or go to its handshake. -/
inductive LongStep (c : Connection Memory) (h : Handshake Memory) (epoch : Epoch)
    (frames : List Frame) : Prop
  | closed {directives : List Directive} {h' : Handshake Memory}
    (hclosing : frames.any isClosing = true)
    (hframes : handshakeFrames c.setup epoch (beforeClosing frames) h = (.ok directives, h'))
    (hstep : c.handshakeLong h epoch frames =
      (.ok (directives ++ [.disconnect]), c.close .receivedDisconnect)) : LongStep c h epoch frames
  | settled (hopen : frames.any isClosing = true →
      ∃ e h', handshakeFrames c.setup epoch (beforeClosing frames) h = (.error e, h'))
    (hstep : c.handshakeLong h epoch frames =
      c.settle (handshakeFrames c.setup epoch (beforeClosing frames) h)) : LongStep c h epoch frames

theorem longStep (c : Connection Memory) (h : Handshake Memory) (epoch : Epoch)
    (frames : List Frame) : LongStep c h epoch frames := by
  rcases hframes : handshakeFrames c.setup epoch (beforeClosing frames) h with ⟨answer, h'⟩
  cases hany : frames.any isClosing with
  | false => exact .settled (by simp [hany]) (by simp [handshakeLong, hany])
  | true =>
    cases answer with
    | error e =>
      exact .settled (fun _ => ⟨e, h', hframes⟩) (by simp [handshakeLong, hany, hframes, settle])
    | ok directives => exact .closed hany hframes (by simp [handshakeLong, hany, hframes])

/-- A server sets a 1-RTT packet aside. A client that finds HANDSHAKE_DONE in it when that is due
puts it back and is active. -/
inductive ShortStep (c : Connection Memory) (h : Handshake Memory) (p : Packet) : Prop
  | setAside (hside : c.setup.side = .server)
    (hstep : c.handshakeShort h p = (.ok [], { c with deferred := c.deferred ++ [p] })) :
    ShortStep c h p
  | confirmed (hside : c.setup.side = .client) (hdone : p.frames.any Frame.isHandshakeDone = true)
    (hdue : h.progress = .clientFinished)
    (hstep : c.handshakeShort h p =
      (.ok [.installStreamMuxer], activated { c with buffered := p :: c.buffered })) :
    ShortStep c h p
  | undue (hside : c.setup.side = .client) (hdone : p.frames.any Frame.isHandshakeDone = true)
    (hdue : h.progress ≠ .clientFinished)
    (hstep : c.handshakeShort h p =
      (.error (.invalidStateTransition h.progress.text Progress.done.text), c.withHandshake h)) :
    ShortStep c h p
  | missing (hside : c.setup.side = .client)
    (hnone : p.frames.any Frame.isHandshakeDone = false)
    (hstep : c.handshakeShort h p =
      (.error (.protocolViolation "1-RTT packet before HANDSHAKE_DONE"), c)) : ShortStep c h p

theorem shortStep (c : Connection Memory) (h : Handshake Memory) (p : Packet) :
    ShortStep c h p := by
  cases hside : c.setup.side with
  | server => exact .setAside hside (by simp [handshakeShort, hside])
  | client =>
    cases hdone : p.frames.any Frame.isHandshakeDone with
    | false => exact .missing hside hdone (by simp [handshakeShort, hside, hdone])
    | true =>
      by_cases hdue : h.progress = .clientFinished
      · refine .confirmed hside hdone hdue ?_
        simp [handshakeShort, hside, hdone, Handshake.processDone, hdue, settle, promote,
          Handshake.isDone, activated]
      · refine .undue hside hdone hdue ?_
        simp [handshakeShort, hside, hdone, Handshake.processDone, hdue]

/-! ## Packets -/

/-- An active connection passes frames on until one closes it. -/
inductive ActiveStep (c : Connection Memory) (p : Packet) : Prop
  | failed {e : Error} (hframes : activeFrames c.side (beforeClosing p.frames) = .error e)
    (hstep : c.activePacket p = (.error e, c)) : ActiveStep c p
  | closed {directives : List Directive}
    (hframes : activeFrames c.side (beforeClosing p.frames) = .ok directives)
    (hclosing : p.frames.any isClosing = true)
    (hstep : c.activePacket p =
      (.ok (directives ++ [.disconnect]), c.close .receivedDisconnect)) : ActiveStep c p
  | answered {directives : List Directive}
    (hframes : activeFrames c.side (beforeClosing p.frames) = .ok directives)
    (hopen : p.frames.any isClosing = false)
    (hstep : c.activePacket p = (.ok (directives ++ [.emit .application []]), c)) : ActiveStep c p

theorem activeStep (c : Connection Memory) (p : Packet) : ActiveStep c p := by
  cases hframes : activeFrames c.side (beforeClosing p.frames) with
  | error e => exact .failed hframes (by simp [activePacket, hframes])
  | ok directives =>
    cases hany : p.frames.any isClosing with
    | true => exact .closed hframes hany (by simp [activePacket, hframes, hany])
    | false => exact .answered hframes hany (by simp [activePacket, hframes, hany])

/-- The packet in front of the queue is taken from it, whatever becomes of it. -/
inductive ProcessStep (c : Connection Memory) : Prop
  | refused (hclosed : c.phase.isOpen = false)
    (hstep : c.call .process = (.error (.contractViolation "process_inbound_frame"), c)) :
    ProcessStep c
  | nothing (hopen : c.phase.isOpen = true) (hqueue : c.buffered = [])
    (hstep : c.call .process = (.ok [], c)) : ProcessStep c
  | handshake {h : Handshake Memory} {p : Packet} {rest : List Packet}
    (hphase : c.phase = .handshaking h) (hqueue : c.buffered = p :: rest)
    (hstep : c.call .process = handshakePacket { c with buffered := rest } h p) : ProcessStep c
  | active {p : Packet} {rest : List Packet} (hphase : c.phase = .active)
    (hqueue : c.buffered = p :: rest)
    (hstep : c.call .process = activePacket { c with buffered := rest } p) : ProcessStep c

theorem map_getD_map_some (answer : Result (List Directive)) :
    (answer.map some).map (·.getD []) = answer := by
  cases answer <;> rfl

theorem processInbound_of_handshaking {c : Connection Memory} {p : Packet} {rest : List Packet}
    {h : Handshake Memory} (hphase : c.phase = .handshaking h) (hqueue : c.buffered = p :: rest) :
    c.processInbound = ((handshakePacket { c with buffered := rest } h p).1.map some,
      (handshakePacket { c with buffered := rest } h p).2) := by
  simp [processInbound, hphase, hqueue, Phase.isOpen]

theorem processInbound_of_active {c : Connection Memory} {p : Packet} {rest : List Packet}
    (hphase : c.phase = .active) (hqueue : c.buffered = p :: rest) :
    c.processInbound = ((activePacket { c with buffered := rest } p).1.map some,
      (activePacket { c with buffered := rest } p).2) := by
  simp [processInbound, hphase, hqueue, Phase.isOpen]

theorem processStep (c : Connection Memory) : ProcessStep c := by
  cases hopen : c.phase.isOpen with
  | false =>
    refine .refused hopen ?_
    simp [call, processInbound, hopen, Except.map]
  | true =>
    cases hqueue : c.buffered with
    | nil =>
      refine .nothing hopen hqueue ?_
      simp [call, processInbound, hopen, hqueue, Except.map]
    | cons p rest =>
      cases hphase : c.phase with
      | handshaking h =>
        refine .handshake hphase hqueue ?_
        rw [call, processInbound_of_handshaking hphase hqueue, map_getD_map_some]
      | active =>
        refine .active hphase hqueue ?_
        rw [call, processInbound_of_active hphase hqueue, map_getD_map_some]
      | idle | sentDisconnect | receivedDisconnect =>
        rw [hphase] at hopen
        cases hopen

/-- An open connection takes packets as long as there is room. -/
inductive BufferStep (c : Connection Memory) (p : Packet) : Prop
  | accepted (hopen : c.phase.isOpen = true)
    (hroom : c.waiting < c.setup.config.maxBufferedPackets)
    (hstep : c.bufferPacket p = (.ok true, { c with buffered := c.buffered ++ [p] })) :
    BufferStep c p
  | full (hopen : c.phase.isOpen = true) (hfull : c.setup.config.maxBufferedPackets ≤ c.waiting)
    (hstep : c.bufferPacket p = (.ok false, c)) : BufferStep c p
  | refused (hclosed : c.phase.isOpen = false)
    (hstep : c.bufferPacket p = (.error (.contractViolation "buffer_inbound_packet"), c)) :
    BufferStep c p

theorem bufferStep (c : Connection Memory) (p : Packet) : BufferStep c p := by
  cases hopen : c.phase.isOpen with
  | false => exact .refused hopen (by simp [bufferPacket, hopen])
  | true =>
    by_cases hroom : c.waiting < c.setup.config.maxBufferedPackets
    · exact .accepted hopen hroom (by simp [bufferPacket, hopen, Nat.not_le_of_lt hroom])
    · have hfull : c.setup.config.maxBufferedPackets ≤ c.waiting := Nat.le_of_not_lt hroom
      exact .full hopen hfull (by simp [bufferPacket, hopen, hfull])

theorem bufferPacket_full_iff {c c' : Connection Memory} {p : Packet} :
    c.bufferPacket p = (.ok false, c') ↔ c.phase.isOpen = true
      ∧ c.setup.config.maxBufferedPackets ≤ c.waiting ∧ c' = c := by
  constructor
  · intro h
    cases c.bufferStep p with
    | accepted _ _ hstep | refused _ hstep => cases hstep.symm.trans h
    | full hopen hfull hstep =>
      cases hstep.symm.trans h
      exact ⟨hopen, hfull, rfl⟩
  · rintro ⟨hopen, hfull, rfl⟩
    simp [bufferPacket, hopen, hfull]

/-! ## Calls of the owner -/

theorem beginHandshake_cases (c : Connection Memory) :
    c.phase = .idle ∧ c.beginHandshake =
        (.ok (), { c with phase := .handshaking c.setup.start, holdsParser := false })
      ∨ ∃ e, c.beginHandshake = (.error e, c) := by
  unfold beginHandshake
  split
  · next hidle =>
    split
    · exact Or.inl ⟨hidle, rfl⟩
    · exact Or.inr ⟨_, rfl⟩
  · exact Or.inr ⟨_, rfl⟩

theorem disconnect_cases (c : Connection Memory) :
    c.phase.isClosed = false ∧ c.disconnect = (.ok [.disconnect], c.close .sentDisconnect)
      ∨ c.phase.isClosed = true
        ∧ c.disconnect = (.error (.contractViolation "disconnect"), c) := by
  cases hclosed : c.phase.isClosed with
  | false => exact Or.inl ⟨rfl, by simp [disconnect, hclosed]⟩
  | true => exact Or.inr ⟨rfl, by simp [disconnect, hclosed]⟩

/-- A frame of our own closes the connection, or goes to the handshake, or just goes out. An open
connection refuses none that an Initial packet may carry. -/
inductive OutboundStep (c : Connection Memory) (f : Frame) (epoch : Epoch) : Prop
  | refused {e : Error} (hwhy : c.phase.isOpen = true → f.isAllowedIn .initial = false)
    (hstep : c.call (.outbound f epoch) = (.error e, c)) : OutboundStep c f epoch
  | closed (hopen : c.phase.isClosed = false) (hclosing : isClosing f = true)
    (hstep : c.call (.outbound f epoch) =
      (.ok [.emit epoch [f], .disconnect], c.close .sentDisconnect)) : OutboundStep c f epoch
  | crypto {h : Handshake Memory} {offset : Nat} {data : Bytes} (hphase : c.phase = .handshaking h)
    (hcrypto : f = .crypto offset data)
    (hstep : c.call (.outbound f epoch) =
      c.settle (c.setup.processCrypto h .outbound epoch offset data)) : OutboundStep c f epoch
  | plain {h : Handshake Memory} (hphase : c.phase = .handshaking h)
    (hplain : ∀ offset data, f ≠ .crypto offset data) (hallowed : f.isAllowedIn .initial = true)
    (hstep : c.call (.outbound f epoch) = c.settle (.ok [.emit epoch [f]], h)) :
    OutboundStep c f epoch
  | sent (hphase : c.phase = .active)
    (hstep : c.call (.outbound f epoch) = (.ok [.emit epoch [f]], c)) : OutboundStep c f epoch

theorem outboundStep (c : Connection Memory) (f : Frame) (epoch : Epoch) :
    OutboundStep c f epoch := by
  have hcall : c.call (.outbound f epoch) = c.processOutbound f epoch := rfl
  unfold processOutbound at hcall
  split at hcall
  · next hopen =>
    have hclosed : c.phase.isClosed = false := Phase.isClosed_of_isOpen hopen
    have hclose : ∀ closing, f = .connectionClose closing → OutboundStep c f epoch := by
      rintro closing rfl
      refine .closed hclosed rfl ?_
      simp [hcall, Outcome.andThen, disconnect, hclosed]
    rcases Phase.handshaking_or_active_of_isOpen hopen with ⟨h, hphase⟩ | hphase
    · simp only [hphase] at hcall
      cases f with
      | connectionClose closing => exact hclose closing rfl
      | crypto offset data => exact .crypto hphase rfl hcall
      | padding _ | ping | ack _ => exact .plain hphase (by simp) rfl hcall
      | handshakeDone =>
        dsimp only at hcall
        split at hcall <;> exact .refused (fun _ => rfl) hcall
      | _ => exact .refused (fun _ => rfl) hcall
    · simp only [hphase] at hcall
      cases f with
      | connectionClose closing => exact hclose closing rfl
      | raw _ _ => exact .refused (fun _ => rfl) hcall
      | handshakeDone =>
        dsimp only at hcall
        split at hcall
        · exact .refused (fun _ => rfl) hcall
        · exact .sent hphase hcall
      | _ => exact .sent hphase hcall
  · next hopen => exact .refused (fun h => absurd h hopen) hcall

end Connection

end QuicTransport
