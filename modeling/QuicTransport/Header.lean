import QuicTransport.ConnectionId
import QuicTransport.PacketNumber
import QuicTransport.PacketType

set_option autoImplicit false

/-! # Headers

A header starts with a byte of flags. Its two high bits are the form and a bit that is always one.
Below them

* a long header has the packet type, two reserved bits and the packet number width;
* a short header has the spin bit, two reserved bits, the key phase and the packet number width.

A long header goes on with the version and both connection identifiers, each after its length; a
short header goes on with the destination alone. What comes next depends on the packet type, and the
packet number is always last.

Header protection hides the reserved bits, the key phase, the width and the number. The reserved
bits are zero underneath. -/

namespace QuicTransport

/-! ## The first byte -/

/-- The form of a header. -/
inductive HeaderForm where
  | long
  | short
deriving DecidableEq, Repr

namespace HeaderForm

/-- The form that a first byte tells, protected or not. -/
def ofFirstByte (first : UInt8) : HeaderForm := if first &&& 0x80 = 0 then .short else .long

/-- The bits of the first byte that header protection hides. -/
def protectedBits : HeaderForm → UInt8
  | .long => 0x0f
  | .short => 0x1f

/-- The bits of the first byte that are zero without header protection. -/
def reservedBits : HeaderForm → UInt8
  | .long => 0x0c
  | .short => 0x18

/-- The name of a form. -/
def text : HeaderForm → String
  | .long => "long"
  | .short => "short"

end HeaderForm

namespace FirstByte

/-- The bit that is one in every packet but a Version Negotiation packet. -/
def isFixed (first : UInt8) : Bool := first &&& 0x40 != 0

/-- The two bits that tell the type of a long header. -/
def typeBits (first : UInt8) : Nat := ((first &&& 0x30) >>> 4).toNat

/-- The spin bit of a short header. -/
def spin (first : UInt8) : Bool := first &&& 0x20 != 0

/-- The key phase of a short header. -/
def keyPhase (first : UInt8) : Bool := first &&& 0x04 != 0

/-- Refuse a first byte with a reserved bit set. It is to be free of header protection. -/
def checkReserved (first : UInt8) : Result Unit :=
  if first &&& (HeaderForm.ofFirstByte first).reservedBits = 0 then .ok ()
  else .error (.protocolViolation "reserved header bits set")

end FirstByte

/-! ## Long headers -/

/-- The part of a long header that is the same in every version: the first byte, the version and
both connection identifiers with their lengths. -/
def invariantBytes (first : UInt8) (version : Version) (dcid scid : ConnectionId) : Bytes :=
  first :: (version.bytes
    ++ UInt8.ofNat dcid.length :: dcid.bytes
    ++ UInt8.ofNat scid.length :: scid.bytes)

theorem length_invariantBytes (first : UInt8) (version : Version) (dcid scid : ConnectionId) :
    (invariantBytes first version dcid scid).length = 7 + dcid.length + scid.length := by
  simp [invariantBytes, Version.bytes, ConnectionId.length]
  omega

/-- The fields of a long header. The length that it also carries follows from the payload. -/
structure LongHeader where
  version : Version
  dcid : ConnectionId
  scid : ConnectionId
  packetNumber : Nat
  /-- How much of the packet number is written. -/
  width : PacketNumber.Width
deriving DecidableEq, Repr

namespace LongHeader

/-- The first byte for a packet of the given type. -/
def firstByte (h : LongHeader) (type : PacketType) : Result UInt8 := do
  let bits ← h.version.typeBits type
  return UInt8.ofNat (0xc0 + 16 * bits + h.width.headerBits)

/-- The number of bytes up to and including the sender's identifier. -/
def invariantLength (h : LongHeader) : Nat := 7 + h.dcid.length + h.scid.length

end LongHeader

/-! ## Short headers -/

/-- The fields of a short header. -/
structure ShortHeader where
  dcid : ConnectionId
  /-- A bit for measuring delay. -/
  spin : Bool
  /-- A bit that changes with the keys. -/
  keyPhase : Bool
  packetNumber : Nat
  /-- How much of the packet number is written. -/
  width : PacketNumber.Width
deriving DecidableEq, Repr

namespace ShortHeader

/-- The first byte. -/
def firstByte (h : ShortHeader) : UInt8 :=
  UInt8.ofNat (0x40 + 0x20 * h.spin.toNat + 0x04 * h.keyPhase.toNat + h.width.headerBits)

/-- Where the packet number starts. -/
def numberOffset (h : ShortHeader) : Nat := 1 + h.dcid.length

end ShortHeader

/-! ## Where protection reaches -/

/-- The length of the sample of the ciphertext that keys header protection. -/
def sampleLength : Nat := 16

/-- Where the sample starts, counted from the start of the packet number. The longest packet number
ends there, so the reader finds the sample before it knows the width. -/
def sampleOffset : Nat := 4

end QuicTransport
