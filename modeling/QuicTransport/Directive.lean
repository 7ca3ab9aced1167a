import QuicTransport.Frame.Basic
import QuicTransport.Error

set_option autoImplicit false

/-! # Directives

The state machines of this library send nothing and keep no keys. They tell their owner what to do,
as a list of directives to be carried out in order.

An operation of a state machine has two results: what it answers and the state it leaves behind. It
leaves a state behind even when it fails. -/

namespace QuicTransport

/-- Frames to be sent together in one packet. -/
structure OutboundPacket where
  epoch : Epoch
  frames : List Frame
deriving DecidableEq

/-- Something for the owner to do. -/
inductive Directive where
  /-- Address the peer by the identifier that it has chosen. -/
  | updateDcid
  | emitPackets (packets : List OutboundPacket)
  /-- Pass a frame on to the layer above. -/
  | forwardFrame (frame : Frame)
  | dropKeys (epoch : Epoch)
  /-- Send what is waiting for the keys of an epoch. -/
  | allowBufferedFlush (epoch : Epoch)
  /-- Attach the layer of streams; the handshake is complete. -/
  | installStreamMuxer
  | disconnect
  | doNothing
deriving DecidableEq

namespace Directive

/-- Send one packet. -/
def emit (epoch : Epoch) (frames : List Frame) : Directive := .emitPackets [⟨epoch, frames⟩]

/-- Whether packets are to be sent. -/
def isEmit : Directive → Bool
  | .emitPackets _ => true
  | _ => false

/-- The name of a directive. -/
def text : Directive → String
  | .updateDcid => "update_dcid"
  | .emitPackets _ => "emit_packets"
  | .forwardFrame _ => "forward_frame"
  | .dropKeys _ => "drop_keys"
  | .allowBufferedFlush _ => "allow_buffered_flush"
  | .installStreamMuxer => "install_stream_muxer"
  | .disconnect => "disconnect"
  | .doNothing => "do_nothing"

end Directive

/-- The answer of an operation, and the state it leaves behind. -/
abbrev Outcome (State Answer : Type) : Type := Result Answer × State

namespace Outcome

variable {State : Type}

/-- Go on from the state that an operation left, unless it failed, and append the directives. -/
def andThen (o : Outcome State (List Directive)) (next : State → Outcome State (List Directive)) :
    Outcome State (List Directive) :=
  match o with
  | (.error e, s) => (.error e, s)
  | (.ok directives, s) =>
    match next s with
    | (.error e, s') => (.error e, s')
    | (.ok more, s') => (.ok (directives ++ more), s')

theorem andThen_eq_ok {o : Outcome State (List Directive)}
    {next : State → Outcome State (List Directive)} {directives : List Directive} {s : State} :
    o.andThen next = (.ok directives, s) ↔
      ∃ front middle back, o = (.ok front, middle) ∧ next middle = (.ok back, s)
        ∧ directives = front ++ back := by
  obtain ⟨answer, middle⟩ := o
  constructor
  · intro h
    cases answer with
    | error e => cases h
    | ok front =>
      unfold andThen at h
      dsimp only at h
      split at h
      · cases h
      · next back s' hback =>
        cases h
        exact ⟨front, middle, back, rfl, hback, rfl⟩
  · rintro ⟨front, middle', back, hfront, hback, rfl⟩
    cases hfront
    simp only [andThen, hback]

end Outcome

end QuicTransport
