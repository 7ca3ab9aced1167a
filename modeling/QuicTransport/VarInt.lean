import QuicTransport.Error

set_option autoImplicit false

/-! # Variable-length integers

An integer below 2^62 is written in one, two, four or eight bytes. The two high bits of the first
byte tell which; the bits that remain hold the value in network byte order. A width therefore has a
`tag` and a `capacity`, four times the capacity is the number of byte strings of that width, and
the code of a value is the number `tag * capacity + value`.

Writing uses the narrowest width with room for the value, or a wider one on request. Reading accepts
every width, so a value has up to four codes; the value and the width together
determine the bytes. -/

namespace QuicTransport

/-- An integer that the wire can hold. -/
structure VarInt where
  value : Nat
  /-- It has room in the widest code. -/
  value_lt : value < 0x4000000000000000
deriving DecidableEq, Repr

namespace VarInt

/-! ## Widths -/

/-- The four lengths that a code can have. -/
inductive Width where
  | one
  | two
  | four
  | eight
deriving DecidableEq, Repr

namespace Width

/-- The number of bytes. -/
def bytes : Width → Nat
  | .one => 1
  | .two => 2
  | .four => 4
  | .eight => 8

/-- What the two high bits of the first byte say. -/
def tag : Width → Nat
  | .one => 0
  | .two => 1
  | .four => 2
  | .eight => 3

/-- The number of values that a width has room for. -/
def capacity : Width → Nat
  | .one => 0x40
  | .two => 0x4000
  | .four => 0x40000000
  | .eight => 0x4000000000000000

/-- Four widths of a kind, told apart by their tags, fill all bytes. -/
theorem four_mul_capacity (w : Width) : 4 * w.capacity = Bytes.span w.bytes := by
  cases w <;> rfl

/-- The width announced by a first byte. -/
def announced (first : UInt8) : Width :=
  if first < 0x40 then .one
  else if first < 0x80 then .two
  else if first < 0xc0 then .four
  else .eight

/-- The narrowest width of at least `n` bytes; `none` if `n` is more than eight. -/
def covering? : (n : Nat) → Option Width
  | 0 | 1 => some .one
  | 2 => some .two
  | 3 | 4 => some .four
  | 5 | 6 | 7 | 8 => some .eight
  | _ => none

theorem bytes_pos (w : Width) : 0 < w.bytes := by
  cases w <;> decide

theorem capacity_pos (w : Width) : 0 < w.capacity := by
  cases w <;> decide

theorem capacity_le (w : Width) : w.capacity ≤ 0x4000000000000000 := by
  cases w <;> decide

end Width

/-! ## Values -/

/-- The largest value. -/
def max : VarInt := ⟨0x3fffffffffffffff, by decide⟩

/-- The value `n`, refused if no code has room for it. -/
def ofNat? (n : Nat) : Result VarInt :=
  if h : n < 0x4000000000000000 then .ok ⟨n, h⟩ else .error (.varIntOutOfRange n)

/-- Every 32-bit word is a value. -/
def ofUInt32 (w : UInt32) : VarInt :=
  ⟨w.toNat, Nat.lt_trans w.toNat_lt (by decide)⟩

/-- The number of bytes in the shortest code of `n`. A number too large for every code counts as one
of the widest. -/
def lengthOf (n : Nat) : Nat :=
  if n < 0x40 then 1 else if n < 0x4000 then 2 else if n < 0x40000000 then 4 else 8

/-! ## Writing -/

/-- The code of a value at a given width. -/
def code (w : Width) (v : VarInt) : Bytes :=
  Bytes.bigEndian w.bytes (w.tag * w.capacity + v.value)

/-- The width that is written if at least `least` bytes are asked for: one for that many bytes, or
for the shortest code if that is longer. -/
def width? (least : Nat) (v : VarInt) : Option Width :=
  Width.covering? (Max.max least (lengthOf v.value))

/-- The shortest code of a value. -/
def encode (v : VarInt) : Bytes :=
  code ((v.width? 0).getD .eight) v

/-- The shortest code of at least `least` bytes. -/
def encodeAtLeast (least : Nat) (v : VarInt) : Result Bytes :=
  match v.width? least with
  | some w => .ok (code w v)
  | none => .error (.varIntOutOfRange least)

/-- The shortest code of a number, refused if the number is too large. -/
def put (n : Nat) : Result Bytes := (ofNat? n).map encode

/-! ## Reading -/

/-- Read the code at the front of a byte string, returning the value and what follows. `none` asks
for more bytes: it is the answer exactly if the announced code is not all there. -/
def decode? : Bytes → Option (VarInt × Bytes)
  | [] => none
  | first :: rest =>
    let w := Width.announced first
    (Bytes.split? w.bytes (first :: rest)).map fun (front, after) =>
      (⟨Bytes.ofBigEndian front % w.capacity,
        Nat.lt_of_lt_of_le (Nat.mod_lt _ w.capacity_pos) w.capacity_le⟩, after)

@[simp] theorem length_code (w : Width) (v : VarInt) : (code w v).length = w.bytes := by
  simp [code]

/-- Reading splits off one code of the announced width. -/
theorem eq_append_of_decode? {bs after : Bytes} {v : VarInt} (h : decode? bs = some (v, after)) :
    ∃ front : Bytes, bs = front ++ after ∧ 0 < front.length := by
  cases bs with
  | nil => simp [decode?] at h
  | cons first rest =>
    simp only [decode?, Option.map_eq_some_iff] at h
    obtain ⟨⟨front, tail⟩, hsplit, hpair⟩ := h
    obtain ⟨hbs, hlen⟩ := Bytes.split?_eq_some_iff.1 hsplit
    have htail : tail = after := congrArg Prod.snd hpair
    exact ⟨front, htail ▸ hbs, hlen ▸ (Width.announced first).bytes_pos⟩

theorem suffix_of_decode? {bs after : Bytes} {v : VarInt} (h : decode? bs = some (v, after)) :
    after <:+ bs :=
  let ⟨front, hbs, _⟩ := eq_append_of_decode? h
  ⟨front, hbs.symm⟩

/-- A code takes at least one byte. -/
theorem length_lt_of_decode? {bs after : Bytes} {v : VarInt} (h : decode? bs = some (v, after)) :
    after.length < bs.length := by
  obtain ⟨front, rfl, hpos⟩ := eq_append_of_decode? h
  rw [List.length_append]
  omega

end VarInt

end QuicTransport
