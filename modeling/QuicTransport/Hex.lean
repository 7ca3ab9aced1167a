import QuicTransport.Bytes

set_option autoImplicit false

/-! # Hexadecimal text

Identifiers, error codes and versions are shown in lower-case hexadecimal: byte strings with two
digits for each byte, numbers with the fewest digits or padded with zeros to a given width. Byte
strings are read in the same form. -/

namespace QuicTransport.Hex

/-- The lower-case digits of a number, with no leading zeros. -/
def digits (n : Nat) : List Char := Nat.toDigits 16 n

/-- A number in lower-case hexadecimal, padded with zeros to at least `width` digits. -/
def padded (width n : Nat) : String :=
  let ds := digits n
  String.ofList (List.replicate (width - ds.length) '0' ++ ds)

/-- A number in lower-case hexadecimal, with no padding. -/
def ofNat (n : Nat) : String := String.ofList (digits n)

/-- A byte string, two digits for each byte. -/
def ofBytes (bs : Bytes) : String :=
  String.ofList (bs.flatMap fun b => [Nat.digitChar (b.toNat / 16), Nat.digitChar (b.toNat % 16)])

/-- The value of a lower-case digit. -/
def digitValue? (c : Char) : Option Nat :=
  if '0' ≤ c ∧ c ≤ '9' then some (c.toNat - '0'.toNat)
  else if 'a' ≤ c ∧ c ≤ 'f' then some (c.toNat - 'a'.toNat + 10)
  else none

/-- The bytes that pairs of digits stand for, in front of those in reverse that came before. -/
def pairs? : (digits : List Char) → (before : Bytes) → Option Bytes
  | [], before => some before.reverse
  | [_], _ => none
  | high :: low :: rest, before =>
    match digitValue? high, digitValue? low with
    | some h, some l => pairs? rest (UInt8.ofNat (16 * h + l) :: before)
    | _, _ => none

/-- The byte string that a text stands for, if it is made of pairs of lower-case digits. -/
def toBytes? (text : String) : Option Bytes := pairs? text.toList []

end QuicTransport.Hex
