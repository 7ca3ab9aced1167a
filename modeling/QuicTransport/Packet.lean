import QuicTransport.Cipher.EncryptThenMac
import QuicTransport.Frame.Encoding
import QuicTransport.VersionNegotiation

set_option autoImplicit false

/-! # Packets

The packets that this library builds and opens. Each kind has exactly the fields that are valid for
it, so a 1-RTT packet has no version and a Version Negotiation packet no number.

A packet is written in two parts. The payload comes first, because a long header holds the length of
what follows it: packet number, payload and tag. Frames that the epoch does not allow are refused. A
short payload is padded with zero bytes until the header protection sample is certain to
be there. -/

namespace QuicTransport

/-- The first packets of a connection. -/
structure InitialPacket where
  header : LongHeader
  /-- A token that proves the sender's address, or nothing. -/
  token : Bytes
  frames : List Frame
deriving DecidableEq

/-- The packets that complete the handshake. -/
structure HandshakePacket where
  header : LongHeader
  frames : List Frame
deriving DecidableEq

/-- The packets after the handshake. -/
structure OneRttPacket where
  header : ShortHeader
  frames : List Frame
deriving DecidableEq

/-- One packet. -/
inductive Packet where
  | initial (packet : InitialPacket)
  | handshake (packet : HandshakePacket)
  | oneRtt (packet : OneRttPacket)
  | versionNegotiation (packet : VersionNegotiation)
deriving DecidableEq

namespace Packet

/-! ## Fields -/

/-- The kind. -/
def type : Packet → PacketType
  | .initial _ => .initial
  | .handshake _ => .handshake
  | .oneRtt _ => .oneRtt
  | .versionNegotiation _ => .versionNegotiation

/-- The epoch whose keys protect the packet. -/
def epoch? (p : Packet) : Option Epoch := p.type.epoch?

/-- Whether the header is long. -/
def isLong (p : Packet) : Bool := p.type.isLong

/-- The identifier of the receiver. -/
def dcid : Packet → ConnectionId
  | .initial p => p.header.dcid
  | .handshake p => p.header.dcid
  | .oneRtt p => p.header.dcid
  | .versionNegotiation p => p.dcid

/-- The identifier of the sender, if the header has one. -/
def scid? : Packet → Option ConnectionId
  | .initial p => some p.header.scid
  | .handshake p => some p.header.scid
  | .oneRtt _ => none
  | .versionNegotiation p => some p.scid

/-- The packet number and the width at which it is written. -/
def number? : Packet → Option (Nat × PacketNumber.Width)
  | .initial p => some (p.header.packetNumber, p.header.width)
  | .handshake p => some (p.header.packetNumber, p.header.width)
  | .oneRtt p => some (p.header.packetNumber, p.header.width)
  | .versionNegotiation _ => none

/-- The payload as frames; a Version Negotiation packet has none. -/
def frames : Packet → List Frame
  | .initial p => p.frames
  | .handshake p => p.frames
  | .oneRtt p => p.frames
  | .versionNegotiation _ => []

/-! ## The header -/

/-- The number of bytes from the packet number to the end of the packet, for a payload of the given
length. -/
def lengthField (p : Packet) (payloadLength : Nat) : Nat :=
  (p.number?.map fun n => n.2.bytes).getD 0 + payloadLength + tagLength

/-- Where the packet number starts, for a payload of the given length. A long header is one byte
longer where the length field needs a wider code. -/
def numberOffset (p : Packet) (payloadLength : Nat) : Result Nat :=
  let length := VarInt.lengthOf (p.lengthField payloadLength)
  match p with
  | .initial i =>
    .ok (i.header.invariantLength + VarInt.lengthOf i.token.length + i.token.length + length)
  | .handshake h => .ok (h.header.invariantLength + length)
  | .oneRtt s => .ok s.header.numberOffset
  | .versionNegotiation _ =>
    .error (.contractViolation "version negotiation packets carry no packet number")

/-- A long header: what all versions share, then the fields that are the packet's own, then the
packet number. -/
def longHeaderBytes (h : LongHeader) (type : PacketType) (own : Result Bytes) : Result Bytes := do
  let first ← h.firstByte type
  let middle ← own
  return invariantBytes first h.version h.dcid h.scid
    ++ middle ++ PacketNumber.truncate h.width h.packetNumber

/-- The header without protection, for a payload of the given length. -/
def headerBytes (p : Packet) (payloadLength : Nat) : Result Bytes :=
  let length := VarInt.put (p.lengthField payloadLength)
  match p with
  | .initial i =>
    longHeaderBytes i.header .initial do
      let tokenLength ← VarInt.put i.token.length
      let length ← length
      return tokenLength ++ i.token ++ length
  | .handshake h => longHeaderBytes h.header .handshake length
  | .oneRtt s =>
    .ok (s.header.firstByte :: s.header.dcid.bytes
      ++ PacketNumber.truncate s.header.width s.header.packetNumber)
  | .versionNegotiation v => .ok v.headerBytes

/-! ## The payload -/

/-- The bytes of frames that an epoch allows, one after the other. The first frame that is not
allowed or cannot be written decides the error. -/
def framesPayload (epoch : Epoch) : List Frame → Result Bytes
  | [] => .ok []
  | f :: fs =>
    if f.isAllowedIn epoch then do
      let front ← f.encode
      let back ← framesPayload epoch fs
      return front ++ back
    else .error (.protocolViolation "frame not allowed in packet epoch")

/-- The shortest payload that leaves room for the header protection sample. It is never empty. -/
def leastPayload (w : PacketNumber.Width) : Nat := max (sampleOffset - w.bytes) 1

/-- A payload padded to a least length with zero bytes, each of them a PADDING frame. -/
def padTo (least : Nat) (payload : Bytes) : Bytes :=
  payload ++ List.replicate (least - payload.length) 0

/-- The payload of a numbered packet. -/
def numberedPayload (epoch : Epoch) (w : PacketNumber.Width) (frames : List Frame) : Result Bytes :=
  (framesPayload epoch frames).map (padTo (leastPayload w))

/-- The payload without protection. -/
def payloadBytes : Packet → Result Bytes
  | .initial p => numberedPayload .initial p.header.width p.frames
  | .handshake p => numberedPayload .handshake p.header.width p.frames
  | .oneRtt p => numberedPayload .application p.header.width p.frames
  | .versionNegotiation p => .ok p.payloadBytes

end Packet

/-- A packet under protection, ready to be sent. -/
structure SealedPacket where
  /-- The header with its protection. -/
  header : Bytes
  /-- The ciphertext and its tag. -/
  payload : Bytes
deriving DecidableEq, Repr

namespace SealedPacket

/-- The bytes to send. -/
def bytes (p : SealedPacket) : Bytes := p.header ++ p.payload

/-- The number of bytes to send. -/
def length (p : SealedPacket) : Nat := p.header.length + p.payload.length

end SealedPacket

end QuicTransport
