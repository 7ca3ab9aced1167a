import QuicTransport.Endpoint
import QuicTransport.Version

set_option autoImplicit false

/-! # Packet types

Six kinds of packet. Four of them have a number in the long header: version 1 counts Initial, 0-RTT,
Handshake, Retry from zero, and version 2 counts from one and wraps around at four. A Version
Negotiation packet is told by its version word, and a 1-RTT packet by its short header. -/

namespace QuicTransport

/-- The kind of a packet. -/
inductive PacketType where
  | initial
  | zeroRtt
  | handshake
  | retry
  | oneRtt
  | versionNegotiation
deriving DecidableEq, Repr

namespace PacketType

/-- All kinds. -/
def all : List PacketType :=
  [.initial, .zeroRtt, .handshake, .retry, .oneRtt, .versionNegotiation]

/-- Whether the packet has a long header: all but 1-RTT packets do. -/
def isLong : PacketType → Bool
  | .oneRtt => false
  | _ => true

/-- The epoch whose keys protect the packet, if this library has keys for it. -/
def epoch? : PacketType → Option Epoch
  | .initial => some .initial
  | .handshake => some .handshake
  | .oneRtt => some .application
  | .zeroRtt => none
  | .retry => none
  | .versionNegotiation => none

/-- The version 1 number of a kind. -/
def number? : PacketType → Option Nat
  | .initial => some 0
  | .zeroRtt => some 1
  | .handshake => some 2
  | .retry => some 3
  | .oneRtt => none
  | .versionNegotiation => none

/-- The name of a kind. -/
def text : PacketType → String
  | .initial => "initial"
  | .zeroRtt => "zero_rtt"
  | .handshake => "handshake"
  | .retry => "retry"
  | .oneRtt => "one_rtt"
  | .versionNegotiation => "version_negotiation"

end PacketType

namespace Version

/-- The two type bits that a version gives to a kind of packet. -/
def typeBits (v : Version) (t : PacketType) : Result Nat := do
  let rules ← v.rules
  match t.number? with
  | some n => .ok ((n + rules.typeShift) % 4)
  | none => .error (.malformedPacket "packet type has no long-header encoding")

/-- The kind of packet that two type bits mean in a version. Higher bits do not count. -/
def packetType (v : Version) (bits : Nat) : Result PacketType := do
  let rules ← v.rules
  match (bits + 4 - rules.typeShift) % 4 with
  | 0 => .ok .initial
  | 1 => .ok .zeroRtt
  | 2 => .ok .handshake
  | _ => .ok .retry

end Version

end QuicTransport
