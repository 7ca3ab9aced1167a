import QuicTransport.Cipher.Aead
import QuicTransport.Header

set_option autoImplicit false

/-! # Header protection

A mask is made from a sample of ciphertext and laid over the protected bits of the first byte and
over the packet number. Whoever puts it on reads the width of the number from the first byte before,
and whoever takes it off reads it after, so both cover the same bytes.

A header that cannot be masked is refused and is not changed. -/

namespace QuicTransport.HeaderMask

/-- The mask for the front of a longer sample. -/
def maskFor (m : HeaderMask) (sample : Bytes) : Result Mask :=
  if h : (sample.take sampleLength).length = sampleLength then
    .ok (m.mask ⟨sample.take sampleLength, h⟩)
  else .error (.crypto (.sampleTooShort sampleLength sample.length))

/-- Lay a mask over a packet number. -/
def coverNumber (header : Bytes) (offset : Nat) (width : PacketNumber.Width) (mask : Mask) :
    Result Bytes :=
  if offset + width.bytes ≤ header.length then
    .ok (header.take offset
      ++ Bytes.xor ((header.drop offset).take width.bytes) mask.number.val
      ++ header.drop (offset + width.bytes))
  else .error (.malformedPacket "header shorter than packet number")

/-- What a mask does to a first byte. -/
def coverFirst (first : UInt8) (mask : Mask) : UInt8 :=
  first ^^^ (mask.first &&& (HeaderForm.ofFirstByte first).protectedBits)

/-- Protect a header whose packet number starts at an offset. -/
def apply (m : HeaderMask) (header : Bytes) (offset : Nat) (sample : Bytes) : Result Bytes :=
  match header with
  | [] => .error (.malformedPacket "empty header")
  | first :: _ => do
    let mask ← m.maskFor sample
    let covered ← coverNumber header offset (.ofFirstByte first) mask
    return covered.modifyHead fun b =>
      b ^^^ (mask.first &&& (HeaderForm.ofFirstByte first).protectedBits)

/-- Take the protection off a header, and tell the width of its packet number. The header may go on
after the number. -/
def remove (m : HeaderMask) (header : Bytes) (offset : Nat) (sample : Bytes) :
    Result (PacketNumber.Width × Bytes) :=
  match header with
  | [] => .error (.malformedPacket "empty header")
  | first :: _ => do
    let mask ← m.maskFor sample
    let bare := coverFirst first mask
    let width := PacketNumber.Width.ofFirstByte bare
    let covered ← coverNumber header offset width mask
    return (width, covered.modifyHead fun _ => bare)

/-- A header protection cipher for logs. -/
def describe (m : HeaderMask) : String :=
  s!"HeaderProtector \x7b algorithm: {m.algorithm.text} \x7d"

end QuicTransport.HeaderMask
