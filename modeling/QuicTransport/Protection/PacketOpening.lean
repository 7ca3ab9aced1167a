import QuicTransport.Datagram
import QuicTransport.Frame.Decoding
import QuicTransport.Protection.Protector

set_option autoImplicit false

/-! # Sealing and opening packets

Sealing writes a packet without protection and then protects it; opening goes the other way and
reads what comes out. A packet that opens is not yet a good packet: its reserved bits must be zero,
all of its frames must be readable, and there must be at least one. -/

namespace QuicTransport

/-- Write a packet and protect it. Version Negotiation packets have no protection. -/
def Packet.sealWith (p : Packet) (keys : PacketKeys) : Result SealedPacket :=
  match p.number? with
  | none => .error (.contractViolation "version negotiation packets are not protected")
  | some (number, _) => do
    let payload ← p.payloadBytes
    let header ← p.headerBytes payload.length
    let offset ← p.numberOffset payload.length
    keys.sealBytes header offset number payload

namespace ProtectedPacket

/-- The packet that an opened one turns out to be. -/
def rebuild (p : ProtectedPacket) (opened : OpenedPacket) (first : UInt8) (frames : List Frame) :
    Result Packet :=
  let long (version : Version) : LongHeader := {
    version
    dcid := p.dcid
    scid := p.scid.getD .empty
    packetNumber := opened.packetNumber
    width := opened.width }
  match p.type, p.version with
  | .initial, some version => .ok (.initial ⟨long version, p.token, frames⟩)
  | .handshake, some version => .ok (.handshake ⟨long version, frames⟩)
  | .oneRtt, none =>
    let header : ShortHeader := {
      dcid := p.dcid
      spin := FirstByte.spin first
      keyPhase := FirstByte.keyPhase first
      packetNumber := opened.packetNumber
      width := opened.width }
    .ok (.oneRtt ⟨header, frames⟩)
  | _, _ => .error (.malformedPacket "packet type cannot be opened")

/-- Open a packet with the keys of its epoch. -/
def openWith (p : ProtectedPacket) (protector : Protector) (seen : Option Nat) : Result Packet := do
  if p.type.epoch? ≠ some protector.epoch then
    throw (.contractViolation "protector epoch does not match packet")
  let opened ← protector.openBytes p.bytes p.numberOffset seen
  let first := opened.header.headD 0
  FirstByte.checkReserved first
  let frames ← Frame.decodeAll opened.payload
  if frames.isEmpty then
    throw (.protocolViolation "packet carries no frames")
  p.rebuild opened first frames

end ProtectedPacket

end QuicTransport
