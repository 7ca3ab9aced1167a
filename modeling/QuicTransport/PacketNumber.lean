import QuicTransport.Error

set_option autoImplicit false

/-! # Packet numbers

Every packet of an epoch has a number below 2^62, and numbers only grow. A packet carries the low
one to four bytes of its number. The writer chooses how many: enough that twice the numbers still on
their way fit in the window that the bytes span. The reader knows the largest number it has seen and
takes, among all numbers with the same low bytes, the one nearest to the next it expects
(`PacketNumber.recover`). -/

namespace QuicTransport

namespace PacketNumber

/-- The largest packet number. -/
def largest : Nat := 0x3fffffffffffffff

/-! ## Widths -/

/-- How many bytes of a packet number are on the wire. -/
inductive Width where
  | one
  | two
  | three
  | four
deriving DecidableEq, Repr

namespace Width

/-- All widths, narrowest first. -/
def all : List Width := [.one, .two, .three, .four]

/-- The number of bytes. -/
def bytes : Width → Nat
  | .one => 1
  | .two => 2
  | .three => 3
  | .four => 4

/-- The number of bits. -/
def bits (w : Width) : Nat := 8 * w.bytes

/-- How many numbers the bytes tell apart. -/
def window (w : Width) : Nat := Bytes.span w.bytes

/-- The two bits of the first byte of a header that tell the width. -/
def headerBits (w : Width) : Nat := w.bytes - 1

/-- The width with a given number of bytes. -/
def ofBytes? (n : Nat) : Option Width := all.find? fun w => w.bytes == n

/-- The width with a given number of bits. -/
def ofBits? (n : Nat) : Option Width := all.find? fun w => w.bits == n

/-- The width that the first byte of a header tells. -/
def ofFirstByte (first : UInt8) : Width :=
  match first.toNat % 4 with
  | 0 => .one
  | 1 => .two
  | 2 => .three
  | _ => .four

/-- The width with a given number of bytes, or the nearest to it if there is none. -/
def nearest : Nat → Width
  | 0 | 1 => .one
  | 2 => .two
  | 3 => .three
  | _ => .four

theorem bytes_pos (w : Width) : 0 < w.bytes := by
  cases w <;> decide

theorem bytes_le (w : Width) : w.bytes ≤ 4 := by
  cases w <;> decide

theorem window_pos (w : Width) : 0 < w.window := Bytes.span_pos w.bytes

theorem ofBytes?_bytes (w : Width) : ofBytes? w.bytes = some w := by
  cases w <;> rfl

end Width

/-! ## Writing -/

/-- How many numbers may still be on their way: those after the largest acknowledged, or all of them
if nothing has been acknowledged. -/
def outstanding (number : Nat) : (acknowledged : Option Nat) → Nat
  | some a => number - a
  | none => number + 1

/-- The number of bits up to the highest one that is set. -/
def bitLength (n : Nat) : Nat := if n = 0 then 0 else n.log2 + 1

/-- The number of bits of a window that is twice as large as `n`. It is one more than `n` takes,
unless the highest bit of `n` is its only one. -/
def windowBits (n : Nat) : Nat := if n.isPowerOfTwo then bitLength n else bitLength n + 1

/-- The width that is written: the bits of a window for what is outstanding in whole bytes, of which
there are one to four. -/
def widthFor (number : Nat) (acknowledged : Option Nat) : Width :=
  .nearest ((windowBits (outstanding number acknowledged) + 7) / 8)

/-- The low bytes of a number. -/
def truncate (w : Width) (number : Nat) : Bytes := Bytes.bigEndian w.bytes number

/-- The low bytes of a number, as many as are needed. -/
def encode (number : Nat) (acknowledged : Option Nat) : Bytes :=
  truncate (widthFor number acknowledged) number

@[simp] theorem length_truncate (w : Width) (number : Nat) : (truncate w number).length = w.bytes :=
  Bytes.length_bigEndian ..

/-! ## Reading -/

/-- The low bytes at the front of a byte string, as a number; `none` if there are not enough. -/
def readTruncated? (w : Width) (bs : Bytes) : Option Nat :=
  (Bytes.split? w.bytes bs).map fun (front, _) => Bytes.ofBigEndian front

/-- The number that a reader expects next. -/
def expected : (seen : Option Nat) → Nat
  | some n => n + 1
  | none => 0

/-- The number nearest to the expected one among those with the given low bytes. Three numbers come
into question: the one in the same window as the expected number, and its neighbours one window
above and below. A neighbour is taken if it is nearer and a packet number at all; of two at the same
distance the upper is taken. -/
def recover (seen : Option Nat) (truncated : Nat) (w : Width) : Nat :=
  let next := expected seen
  let half := w.window / 2
  let candidate := next / w.window * w.window + truncated % w.window
  if candidate + half ≤ next ∧ candidate + w.window ≤ largest then candidate + w.window
  else if next + half < candidate ∧ w.window ≤ candidate then candidate - w.window
  else candidate

/-- `recover` for a width given in bits, refused if there is no such width. -/
def decode (seen : Option Nat) (truncated bits : Nat) : Result Nat :=
  match Width.ofBits? bits with
  | some w => .ok (recover seen truncated w)
  | none => .error (.malformedPacket "invalid packet number length")

end PacketNumber

end QuicTransport
