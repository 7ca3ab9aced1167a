import QuicTransport.Proofs.DirectiveSources
import QuicTransport.Proofs.FrameWriting
import QuicTransport.Proofs.LostSteps

set_option autoImplicit false

/-! # Packets that are ordered

A connection orders packets; whoever owns it builds and seals them. Only then are the frames looked
at again, and one that the epoch does not allow keeps the packet from being sent.

What a connection orders of its own accord is always allowed. The frames that its owner wants to
send are looked at during the handshake only, and even there not those that close the connection. So
a packet that cannot be sealed is ordered exactly where the owner asks for a frame in an epoch that
does not allow it, and is not refused (`Connection.ordered_of_call`). -/

namespace QuicTransport

/-! ## Sealing what was ordered -/

/-- What an Initial packet may carry, every packet may. -/
theorem Frame.isAllowedIn_of_initial {f : Frame} (h : f.isAllowedIn .initial = true)
    (epoch : Epoch) : f.isAllowedIn epoch = true := by
  cases f with
  | padding _ | ping | ack _ | crypto _ _ => rfl
  | connectionClose closing =>
    have htype : closing.frameType.isSome = true := h
    simp [isAllowedIn, htype]
  | _ => cases h

/-- Writing a frame breaks no rule of the protocol. -/
theorem Frame.encode_ne_protocolViolation (f : Frame) (text : String) :
    f.encode ≠ .error (.protocolViolation text) := by
  intro h
  rcases encode_eq_error_iff.1 h with ⟨detail, _, herror⟩ | ⟨_, n, _, herror⟩
  · cases herror
  · cases herror

namespace OutboundPacket

/-- Whether the epoch allows all frames. -/
def isAllowed (o : OutboundPacket) : Bool := o.frames.all (Frame.isAllowedIn o.epoch)

/-- The packet is one that was ordered. -/
def IsBuiltAs (o : OutboundPacket) (p : Packet) : Prop :=
  p.epoch? = some o.epoch ∧ p.frames = o.frames

end OutboundPacket

namespace Packet

theorem framesPayload_ne_protocolViolation {epoch : Epoch} {fs : List Frame}
    (h : ∀ f ∈ fs, f.isAllowedIn epoch = true) (text : String) :
    framesPayload epoch fs ≠ .error (.protocolViolation text) := by
  induction fs with
  | nil => nofun
  | cons f fs ih =>
    obtain ⟨hf, hfs⟩ := List.forall_mem_cons.1 h
    rw [framesPayload, if_pos hf]
    cases hfront : f.encode with
    | error e =>
      intro herror
      exact f.encode_ne_protocolViolation text (hfront.trans herror)
    | ok front =>
      cases hback : framesPayload epoch fs with
      | error e =>
        intro herror
        exact ih hfs (hback.trans herror)
      | ok back => nofun

/-- A packet with an epoch is written as its frames and padding. -/
theorem payloadBytes_eq {p : Packet} {epoch : Epoch} (h : p.epoch? = some epoch) :
    ∃ w, p.payloadBytes = (framesPayload epoch p.frames).map (padTo (leastPayload w)) := by
  cases p with
  | versionNegotiation q => cases h
  | initial q | handshake q | oneRtt q =>
    cases h
    exact ⟨_, rfl⟩

/-- A packet whose frames are allowed is not refused for one of them. -/
theorem payloadBytes_ne_protocolViolation {o : OutboundPacket} {p : Packet} (hp : o.IsBuiltAs p)
    (h : o.isAllowed = true) (text : String) :
    p.payloadBytes ≠ .error (.protocolViolation text) := by
  obtain ⟨w, hpayload⟩ := payloadBytes_eq hp.1
  have hne : framesPayload o.epoch o.frames ≠ .error (.protocolViolation text) :=
    framesPayload_ne_protocolViolation (List.all_eq_true.1 h) text
  rw [hpayload, hp.2]
  cases hframes : framesPayload o.epoch o.frames with
  | error e =>
    intro herror
    cases herror
    exact hne hframes
  | ok payload => nofun

/-- A frame that is not allowed keeps the packet from being built. -/
theorem payloadBytes_of_isAllowedIn_eq_false {f : Frame} {epoch : Epoch} {p : Packet}
    (hp : OutboundPacket.IsBuiltAs ⟨epoch, [f]⟩ p) (h : f.isAllowedIn epoch = false) :
    p.payloadBytes = .error (.protocolViolation "frame not allowed in packet epoch") := by
  obtain ⟨w, hpayload⟩ := payloadBytes_eq hp.1
  rw [hpayload, hp.2, framesPayload, if_neg (by simp [h])]
  rfl

end Packet

/-! ## What is ordered -/

/-- The packets that a directive orders. -/
def Directive.packets : Directive → List OutboundPacket
  | .emitPackets packets => packets
  | _ => []

/-- Whether the call asks for nothing that its epoch does not allow. -/
def ConnectionCall.isAllowed : ConnectionCall → Bool
  | .outbound f epoch => f.isAllowedIn epoch
  | _ => true

namespace Connection

variable {Memory : Type}

/-- The packets that directives order. -/
def ordered (directives : List Directive) : List OutboundPacket :=
  directives.flatMap Directive.packets

/-- What is ordered without being asked for is allowed. -/
theorem Source.isAllowed {phase : Phase Memory} {x : ConnectionCall} {d : Directive}
    (h : Source phase x d) (hx : x.isAllowed = true) : ∀ o ∈ d.packets, o.isAllowed = true := by
  cases h with
  | handshake _ hd =>
    cases hd with
    | message | confirmation => simp [Directive.packets, Directive.emit, OutboundPacket.isAllowed,
        Frame.isAllowedIn]
    | _ => exact List.forall_mem_nil _
  | @own f epoch hown =>
    subst hown
    have hf : f.isAllowedIn epoch = true := hx
    simpa [Directive.packets, Directive.emit, OutboundPacket.isAllowed] using hf
  | reply => simp [Directive.packets, Directive.emit, OutboundPacket.isAllowed]
  | _ => exact List.forall_mem_nil _

/-- A frame that its epoch does not allow goes out where it is not looked at. -/
theorem ordered_of_outbound {c c' : Connection Memory} {f : Frame} {epoch : Epoch}
    {directives : List Directive} (hok : c.call (.outbound f epoch) = (.ok directives, c'))
    (h : f.isAllowedIn epoch = false) :
    ordered directives = [⟨epoch, [f]⟩] ∧ (c.phase.isActive = true ∨ isClosing f = true) := by
  cases c.outboundStep f epoch with
  | refused _ hstep => cases hstep.symm.trans hok
  | closed _ hclosing hstep =>
    cases hstep.symm.trans hok
    exact ⟨rfl, Or.inr hclosing⟩
  | crypto _ hcrypto _ =>
    subst hcrypto
    cases h
  | plain _ _ hallowed _ => cases h.symm.trans (Frame.isAllowedIn_of_initial hallowed epoch)
  | sent hphase hstep =>
    cases hstep.symm.trans hok
    rw [hphase]
    exact ⟨rfl, Or.inl rfl⟩

/-- All packets that a call orders are allowed exactly if the call asks for nothing that is not.
Otherwise the frame that it is about is ordered, alone in a packet: the connection is active, or the
frame closes it. A packet that is built as ordered is refused for its frames exactly if it is not
allowed. -/
theorem ordered_of_call {c c' : Connection Memory} {x : ConnectionCall}
    {directives : List Directive} (hok : c.call x = (.ok directives, c')) :
    ((∀ o ∈ ordered directives, o.isAllowed = true) ↔ x.isAllowed = true)
      ∧ (x.isAllowed = false → ∃ f epoch, x = .outbound f epoch
        ∧ ordered directives = [⟨epoch, [f]⟩]
        ∧ (c.phase.isActive = true ∨ isClosing f = true))
      ∧ ∀ o ∈ ordered directives, ∀ p, o.IsBuiltAs p →
        (p.payloadBytes = .error (.protocolViolation "frame not allowed in packet epoch")
          ↔ o.isAllowed = false) := by
  have hallowed : x.isAllowed = true → ∀ o ∈ ordered directives, o.isAllowed = true := by
    intro hx o ho
    obtain ⟨d, hd, ho⟩ := List.mem_flatMap.1 ho
    exact (tells_call c x directives (congrArg Prod.fst hok) d hd).isAllowed hx o ho
  have hasked : x.isAllowed = false → ∃ f epoch, x = .outbound f epoch
      ∧ ordered directives = [⟨epoch, [f]⟩]
      ∧ (c.phase.isActive = true ∨ isClosing f = true) := by
    intro hx
    cases x with
    | outbound f epoch => exact ⟨f, epoch, rfl, ordered_of_outbound hok hx⟩
    | _ => cases hx
  refine ⟨⟨fun hall => ?_, hallowed⟩, hasked, fun o ho p hp => ⟨fun hrefused => ?_, fun hnot => ?_⟩⟩
  · by_contra hx
    rw [Bool.not_eq_true] at hx
    obtain ⟨f, epoch, rfl, hordered, _⟩ := hasked hx
    have hf := hall ⟨epoch, [f]⟩ (by simp [hordered])
    rw [OutboundPacket.isAllowed, List.all_cons, List.all_nil, Bool.and_true] at hf
    cases hf.symm.trans hx
  · by_contra ho'
    rw [Bool.not_eq_false] at ho'
    exact Packet.payloadBytes_ne_protocolViolation hp ho' _ hrefused
  · cases hx : x.isAllowed with
    | true => cases (hallowed hx o ho).symm.trans hnot
    | false =>
      obtain ⟨f, epoch, rfl, hordered, _⟩ := hasked hx
      rw [hordered, List.mem_singleton] at ho
      subst ho
      exact Packet.payloadBytes_of_isAllowedIn_eq_false hp hx

/-- A server closes its connection during the handshake because of a transport error. -/
theorem ordered_of_call_transport :
    let close := Frame.connectionClose ⟨0x0a, some 0, []⟩
    let c := plainServer.run [.begin]
    (c.call (.outbound close .initial)).1 = .ok [.emit .initial [close], .disconnect]
      ∧ (Conversation.bearer close .initial).payloadBytes
        ≠ .error (.protocolViolation "frame not allowed in packet epoch") := by
  intro close c
  have hok : (c.call (.outbound close .initial)).1 =
      .ok [.emit .initial [close], .disconnect] := by decide +kernel
  obtain ⟨hall, _, hsealed⟩ := ordered_of_call (Prod.ext hok rfl)
  refine ⟨hok, fun hrefused => ?_⟩
  have hallowed := hall.2 rfl ⟨.initial, [close]⟩ List.mem_cons_self
  have hnot := (hsealed _ List.mem_cons_self (Conversation.bearer close .initial) ⟨rfl, rfl⟩).1
    hrefused
  cases hallowed.symm.trans hnot

/-- A closing of the application cannot be sent during the handshake, but the server orders it and
closes the connection. Once it is active, it orders data of a stream in an Initial packet. -/
theorem ordered_and_refused :
    let refused : Result Bytes :=
      .error (.protocolViolation "frame not allowed in packet epoch")
    let close := Frame.connectionClose ⟨0, none, []⟩
    let data := Frame.stream ⟨0, 0, false, true, true, [1, 2, 3]⟩
    let early := plainServer.run [.begin]
    let late := plainServer.run (serverFlight
      ++ [.buffer (Conversation.bearer (.crypto 0 (Message.frame .finished [])) .handshake),
        .process])
    (early.call (.outbound close .initial)).1 = .ok [.emit .initial [close], .disconnect]
      ∧ (Conversation.bearer close .initial).payloadBytes = refused
      ∧ (late.call (.outbound data .initial)).1 = .ok [.emit .initial [data]]
      ∧ (Conversation.bearer data .initial).payloadBytes = refused := by
  decide +kernel

end Connection

end QuicTransport
