import QuicTransport.Packet
import QuicTransport.Protection.HeaderProtection
import QuicTransport.Protection.KeySchedule

set_option autoImplicit false

/-! # Keys for one direction

`PacketKeys` are what one side of one epoch needs: the authenticated cipher, the initialisation
vector and the header protection cipher. The sender seals with them and the receiver opens.

The nonce of a packet is its whole number added to the initialisation vector. The header without its
protection is authenticated with the payload. The sample for header protection is taken from the
ciphertext at a place that depends only on where the packet number starts, so that the receiver
finds it although it cannot read the width of the number yet. -/

namespace QuicTransport

/-- The keys for one direction of one epoch. -/
structure PacketKeys where
  aead : Aead
  iv : FixedBytes nonceLength
  headerMask : HeaderMask

/-- A packet without its protection. -/
structure OpenedPacket where
  /-- The header, up to and including the packet number. -/
  header : Bytes
  payload : Bytes
  packetNumber : Nat
  /-- How much of the packet number was on the wire. -/
  width : PacketNumber.Width
deriving DecidableEq, Repr

/-- The nonce for a packet number: the number, filled up to the length of the initialisation vector
and added to it without carry. -/
def packetNonce (iv : FixedBytes nonceLength) (number : Nat) : FixedBytes nonceLength :=
  ⟨Bytes.xor iv.val (Bytes.bigEndian nonceLength number), by
    rw [Bytes.length_xor, iv.property, Bytes.length_bigEndian, Nat.min_self]⟩

namespace PacketKeys

/-- The keys in a secret. -/
def derive (suite : CipherSuite) (secret : Bytes) (version : Version) : Result PacketKeys := do
  let packetKey ← suite.packetKey secret version
  let aead ← Aead.ofKey suite.aead packetKey.key
  let headerKey ← suite.headerKey secret version
  let headerMask ← HeaderMask.ofKey suite.aead.headerMask headerKey
  return ⟨aead, packetKey.iv, headerMask⟩

/-! ## Payloads -/

/-- Encrypt a payload. -/
def encryptPayload (k : PacketKeys) (number : Nat) (header payload : Bytes) : Result Bytes :=
  k.aead.encrypt (packetNonce k.iv number) header payload

/-- Decrypt a payload. What is shorter than a tag does not authenticate. -/
def decryptPayload (k : PacketKeys) (number : Nat) (header received : Bytes) : Result Bytes :=
  if received.length < tagLength then .error (.crypto .authenticationFailed)
  else k.aead.decrypt (packetNonce k.iv number) header received

/-! ## Packets -/

/-- The header protection sample that starts at a place in a byte string. -/
def sampleAt (bs : Bytes) (start : Nat) : Result Bytes :=
  match Bytes.split? sampleLength (bs.drop start) with
  | some (sample, _) => .ok sample
  | none => .error (.crypto (.sampleTooShort (start + sampleLength) bs.length))

/-- Encrypt a payload and protect its header, in which the packet number starts at an offset. The
header ends with the packet number, and the sample is taken from the ciphertext. -/
def sealBytes (k : PacketKeys) (header : Bytes) (offset number : Nat) (payload : Bytes) :
    Result SealedPacket := do
  let ciphertext ← k.encryptPayload number header payload
  if offset + sampleOffset < header.length then
    throw (.malformedPacket "header extends past the sample")
  let sample ← sampleAt ciphertext (offset + sampleOffset - header.length)
  let covered ← k.headerMask.apply header offset sample
  return ⟨covered, ciphertext⟩

/-- Take the protection off a packet in which the packet number starts at an offset. The largest
number seen so far completes the number. -/
def openBytes (k : PacketKeys) (packet : Bytes) (offset : Nat) (seen : Option Nat) :
    Result OpenedPacket := do
  let sample ← sampleAt packet (offset + sampleOffset)
  let (width, bare) ← k.headerMask.remove (packet.take (offset + sampleOffset)) offset sample
  let header := bare.take (offset + width.bytes)
  match PacketNumber.readTruncated? width (header.drop offset) with
  | none => throw (.malformedPacket "truncated packet number")
  | some truncated =>
    let number := PacketNumber.recover seen truncated width
    let payload ← k.decryptPayload number header (packet.drop header.length)
    return ⟨header, payload, number, width⟩

end PacketKeys

end QuicTransport
