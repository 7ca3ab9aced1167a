import Mathlib.Order.Bounds.Basic
import QuicTransport.Proofs.VarIntCodec

set_option autoImplicit false

/-! # Padded codes of variable-length integers

A writer may ask for more bytes than the value needs. It gets the narrowest of the four widths that
satisfies it, and the reader finds the same value there whatever follows. The four widths are also
all that a reader knows: what it accepts is the code of the value at the width that it has used up,
so asking for that many bytes gives these bytes back.

The first byte tells how long a code is. That is the only thing that can be missing, so the reader
asks for more exactly if the code that is announced is not all there, and no front of a code is a
code.

A buffer is written through a word of eight bytes that holds the value with the tag above it. The
tag has bits of its own, so the low bytes of the word are the code (`VarInt.write_eq`), and the
buffer grows only by what is written (`VarInt.writeAtLeast_eq`, `VarInt.writeNumber_eq`). -/

namespace QuicTransport.VarInt

/-! ## Widths -/

namespace Width

theorem mem_bytes_iff {n : Nat} : n ∈ [1, 2, 4, 8] ↔ ∃ w : Width, w.bytes = n := by
  simp only [List.mem_cons, List.not_mem_nil, or_false]
  constructor
  · rintro (rfl | rfl | rfl | rfl)
    · exact ⟨.one, rfl⟩
    · exact ⟨.two, rfl⟩
    · exact ⟨.four, rfl⟩
    · exact ⟨.eight, rfl⟩
  · rintro ⟨w, rfl⟩
    cases w <;> decide

theorem bytes_le (w : Width) : w.bytes ≤ 8 := by
  cases w <;> decide

theorem bytes_eq_shiftLeft (w : Width) : w.bytes = 1 <<< w.tag := by
  cases w <;> rfl

/-- The two high bits of a first byte count how often the length of one byte is doubled. -/
theorem bytes_announced (first : UInt8) :
    (announced first).bytes = 1 <<< (first.toNat >>> 6) := by
  rw [bytes_eq_shiftLeft, tag_announced, Nat.shiftRight_eq_div_pow]

end Width

/-! ## The width of a padded code -/

/-- No width that would do is narrower than the one that is found. -/
theorem bytes_le_of_width? {least : Nat} {v : VarInt} {w w' : Width} (h : v.width? least = some w)
    (hleast : least ≤ w'.bytes) (hroom : v.value < w'.capacity) : w.bytes ≤ w'.bytes :=
  (Width.covering?_eq_some h).2 w' (Nat.max_le.2 ⟨hleast, (lengthOf_le_bytes_iff v w').2 hroom⟩)

/-- The width of a code with at least so many bytes is the least of the four lengths that is long
enough for the value and for what was asked. -/
theorem isLeast_of_width? {least : Nat} {v : VarInt} {w : Width} (h : v.width? least = some w) :
    IsLeast {n | n ∈ [1, 2, 4, 8] ∧ least ≤ n ∧ lengthOf v.value ≤ n} w.bytes := by
  obtain ⟨hleast, hroom⟩ := width?_eq_some h
  constructor
  · exact ⟨Width.mem_bytes_iff.2 ⟨w, rfl⟩, hleast, (lengthOf_le_bytes_iff v w).2 hroom⟩
  · rintro n ⟨hn, hleast', hlength⟩
    obtain ⟨w', rfl⟩ := Width.mem_bytes_iff.1 hn
    exact bytes_le_of_width? h hleast' ((lengthOf_le_bytes_iff v w').1 hlength)

/-- A width that has room for a value is the one that is found if as many bytes are asked for. -/
theorem width?_bytes {v : VarInt} {w : Width} (hroom : v.value < w.capacity) :
    v.width? w.bytes = some w := by
  cases hfound : v.width? w.bytes with
  | none =>
    have hbytes := w.bytes_le
    have hlt := width?_eq_none_iff.1 hfound
    omega
  | some w' =>
    have hle := bytes_le_of_width? hfound (Nat.le_refl _) hroom
    have hge := (width?_eq_some hfound).1
    rw [Width.eq_of_bytes_eq (Nat.le_antisymm hle hge)]

/-! ## Writing -/

theorem encodeAtLeast_zero (v : VarInt) : v.encodeAtLeast 0 = .ok v.encode := by
  obtain ⟨w, hw, _⟩ := exists_width?_zero v
  simp [encodeAtLeast, encode, hw]

theorem encodeAtLeast_of_width? {least : Nat} {v : VarInt} {w : Width}
    (h : v.width? least = some w) : v.encodeAtLeast least = .ok (code w v) := by
  rw [encodeAtLeast, h]

theorem encodeAtLeast_of_lt {least : Nat} (v : VarInt) (h : 8 < least) :
    v.encodeAtLeast least = .error (.varIntOutOfRange least) := by
  rw [encodeAtLeast, width?_eq_none_iff.2 h]

theorem put_of_le {n : Nat} (h : 0x4000000000000000 ≤ n) : put n = .error (.varIntOutOfRange n) := by
  rw [put, ofNat?, dif_neg (Nat.not_lt.2 h)]
  rfl

/-- A code can be had again by asking for its length. -/
theorem encodeAtLeast_length {v : VarInt} {bs : Bytes} (h : IsCode v.value bs) :
    v.encodeAtLeast bs.length = .ok bs := by
  obtain ⟨w, hroom, rfl⟩ := h
  rw [length_code]
  exact encodeAtLeast_of_width? (width?_bytes hroom)

/-! ## Writing into a buffer -/

/-- Append the code of a value to a buffer. The tag goes into a word of eight bytes above the bits
that the width has for the value, and the low bytes of this word are what is written. -/
def write (buffer : Bytes) (w : Width) (v : VarInt) : Bytes :=
  buffer ++ (Bytes.bigEndian 8 (v.value ||| w.tag <<< (8 * w.bytes - 2))).drop (8 - w.bytes)

/-- Append a code of at least `least` bytes to a buffer, and tell how many bytes it has. -/
def writeAtLeast (buffer : Bytes) (least : Nat) (v : VarInt) : Result Nat × Bytes :=
  match v.width? least with
  | some w => (.ok w.bytes, v.write buffer w)
  | none => (.error (.varIntOutOfRange least), buffer)

/-- Append the shortest code of a number to a buffer. -/
def writeNumber (buffer : Bytes) (n : Nat) : Result Unit × Bytes :=
  match ofNat? n with
  | .ok v => (.ok (), v.write buffer ((v.width? 0).getD .eight))
  | .error e => (.error e, buffer)

/-- The low bytes of a number in a word of eight. -/
theorem drop_bigEndian (w : Width) (n : Nat) :
    (Bytes.bigEndian 8 n).drop (8 - w.bytes) = Bytes.bigEndian w.bytes n := by
  cases w <;> rfl

theorem Width.capacity_eq_shiftLeft (w : Width) : w.capacity = 1 <<< (8 * w.bytes - 2) := by
  cases w <;> rfl

/-- The tag does not reach into the value, so setting its bits is adding it. -/
theorem write_eq {v : VarInt} {w : Width} (h : v.value < w.capacity) (buffer : Bytes) :
    v.write buffer w = buffer ++ code w v := by
  rw [Width.capacity_eq_shiftLeft, Nat.one_shiftLeft] at h
  rw [write, drop_bigEndian, code, Nat.or_comm, ← Nat.shiftLeft_add_eq_or_of_lt h,
    Nat.shiftLeft_eq, Width.capacity_eq_shiftLeft, Nat.one_shiftLeft]

theorem writeAtLeast_eq (buffer : Bytes) (least : Nat) (v : VarInt) :
    v.writeAtLeast buffer least =
      match v.encodeAtLeast least with
      | .ok bs => (.ok bs.length, buffer ++ bs)
      | .error e => (.error e, buffer) := by
  rw [writeAtLeast, encodeAtLeast]
  cases h : v.width? least with
  | some w => simp [write_eq (width?_eq_some h).2]
  | none => rfl

theorem writeNumber_eq (buffer : Bytes) (n : Nat) :
    writeNumber buffer n =
      match put n with
      | .ok bs => (.ok (), buffer ++ bs)
      | .error e => (.error e, buffer) := by
  rw [writeNumber, put]
  cases ofNat? n with
  | ok v =>
    obtain ⟨w, hw, _⟩ := exists_width?_zero v
    simp [encode, hw, write_eq (width?_eq_some hw).2, Except.map]
  | error e => rfl

/-! ## Reading -/

/-- The reader asks for more exactly if the code that the first byte announces is not all there. -/
theorem decode?_eq_none_iff {bs : Bytes} :
    decode? bs = none ↔ ∀ first ∈ bs.head?, bs.length < 1 <<< (first.toNat >>> 6) := by
  cases bs with
  | nil => simp [decode?]
  | cons first rest =>
    simp [decode?, Bytes.split?_eq_none_iff, ← Width.bytes_announced]

/-- No front of a code is a code. -/
theorem decode?_of_front {n : Nat} {bs front : Bytes} (h : IsCode n bs) (hfront : front <+: bs)
    (hne : front ≠ bs) : decode? front = none := by
  obtain ⟨rest, rfl⟩ := hfront
  have hrest : 0 < rest.length := by
    rw [List.length_pos_iff]
    rintro rfl
    exact hne (List.append_nil front).symm
  obtain ⟨first, tail, hbs, hlength⟩ := h.exists_cons
  rw [decode?_eq_none_iff]
  intro b hb
  cases front with
  | nil => cases hb
  | cons c front =>
    obtain ⟨rfl⟩ := hb
    obtain ⟨rfl, _⟩ := List.cons.inj hbs
    rw [← Width.bytes_announced, hlength, List.length_append]
    omega

/-! ## Both ways -/

/-- A byte string is the code of a value with at least `least` bytes: of the four lengths it has the
least that will do, and a reader finds it, but no front of it, whatever follows. -/
structure IsPadded (v : VarInt) (least : Nat) (bs : Bytes) : Prop where
  isLeast : IsLeast {n | n ∈ [1, 2, 4, 8] ∧ least ≤ n ∧ lengthOf v.value ≤ n} bs.length
  decode?_append : ∀ rest, decode? (bs ++ rest) = some (v, rest)
  decode?_front : ∀ front, front <+: bs → front ≠ bs → decode? front = none

theorem isPadded_code {v : VarInt} {least : Nat} {w : Width} (h : v.width? least = some w) :
    IsPadded v least (code w v) := by
  have hroom := (width?_eq_some h).2
  have hcode : IsCode v.value (code w v) := ⟨w, hroom, rfl⟩
  refine ⟨?_, decode?_code hroom, fun front => decode?_of_front hcode⟩
  rw [length_code]
  exact isLeast_of_width? h

/-- Writing at a width and reading are inverse to each other. Every value is written with as many
bytes as are asked for, up to eight, and is read again. Whatever is read is what is written for the
value with as many bytes as were used up, and nothing is refused but what is cut short. What cannot
be written leaves the buffer as it was. -/
theorem padded_codes_bijective (buffer : Bytes) :
    (∀ (v : VarInt) (least : Nat), least ≤ 8 → ∃ bs, v.encodeAtLeast least = .ok bs
        ∧ v.writeAtLeast buffer least = (.ok bs.length, buffer ++ bs) ∧ IsPadded v least bs)
      ∧ (∀ v : VarInt, v.encodeAtLeast 0 = .ok v.encode ∧ put v.value = .ok v.encode
        ∧ writeNumber buffer v.value = (.ok (), buffer ++ v.encode))
      ∧ (∀ (bs after : Bytes) (v : VarInt), decode? bs = some (v, after) →
        v.value < 0x4000000000000000
          ∧ ∃ front, bs = front ++ after ∧ v.encodeAtLeast front.length = .ok front)
      ∧ (∀ bs : Bytes, decode? bs = none ↔
        ∀ first ∈ bs.head?, bs.length < 1 <<< (first.toNat >>> 6))
      ∧ (∀ (v : VarInt) (least : Nat), 8 < least →
        v.encodeAtLeast least = .error (.varIntOutOfRange least)
          ∧ v.writeAtLeast buffer least = (.error (.varIntOutOfRange least), buffer))
      ∧ ∀ n : Nat, 0x4000000000000000 ≤ n →
        put n = .error (.varIntOutOfRange n)
          ∧ writeNumber buffer n = (.error (.varIntOutOfRange n), buffer) := by
  refine ⟨?_, ?_, ?_, fun bs => decode?_eq_none_iff, ?_, ?_⟩
  · intro v least hle
    obtain ⟨w, hw⟩ : ∃ w, v.width? least = some w := by
      rw [← Option.ne_none_iff_exists', Ne, width?_eq_none_iff]
      omega
    have hcode := encodeAtLeast_of_width? hw
    exact ⟨code w v, hcode, by rw [writeAtLeast_eq, hcode], isPadded_code hw⟩
  · intro v
    have hput := put_of_lt v.value_lt
    exact ⟨encodeAtLeast_zero v, hput, by rw [writeNumber_eq, hput]⟩
  · intro bs after v h
    obtain ⟨front, hcode, hbs⟩ := decode?_eq_some_iff.1 h
    exact ⟨v.value_lt, front, hbs, encodeAtLeast_length hcode⟩
  · intro v least h
    have hrefused := encodeAtLeast_of_lt v h
    exact ⟨hrefused, by rw [writeAtLeast_eq, hrefused]⟩
  · intro n h
    have hrefused := put_of_le h
    exact ⟨hrefused, by rw [writeNumber_eq, hrefused]⟩

/-- Five is written with three bytes at least: it gets four, which are found in front of a fifth
byte. The same value in eight bytes is written as it was read. Nine bytes are refused, and so is the
least number that is no value. -/
theorem padded_codes_bijective_five :
    (∃ bs, (⟨5, by decide⟩ : VarInt).encodeAtLeast 3 = .ok bs ∧ bs.length = 4
        ∧ decode? (bs ++ [9]) = some (⟨5, by decide⟩, [9]))
      ∧ (∃ front, [0xc0, 0, 0, 0, 0, 0, 0, 5, 9] = front ++ [9]
        ∧ (⟨5, by decide⟩ : VarInt).encodeAtLeast front.length = .ok front)
      ∧ (⟨5, by decide⟩ : VarInt).writeAtLeast [1] 9 = (.error (.varIntOutOfRange 9), [1])
      ∧ writeNumber [1] 0x4000000000000000 =
        (.error (.varIntOutOfRange 0x4000000000000000), [1]) := by
  obtain ⟨hwrite, _, hread, _, hwide, hlarge⟩ := padded_codes_bijective [1]
  obtain ⟨bs, hbs, _, hpadded⟩ := hwrite ⟨5, by decide⟩ 3 (by decide)
  have hlength : IsLeast {n | n ∈ [1, 2, 4, 8] ∧ 3 ≤ n ∧ lengthOf 5 ≤ n} 4 := by
    refine ⟨by simp [lengthOf], ?_⟩
    rintro n ⟨hn, hthree, _⟩
    simp at hn
    omega
  exact ⟨⟨bs, hbs, hpadded.isLeast.unique hlength, hpadded.decode?_append [9]⟩,
    (hread [0xc0, 0, 0, 0, 0, 0, 0, 5, 9] [9] ⟨5, by decide⟩ (by decide)).2,
    (hwide ⟨5, by decide⟩ 9 (by decide)).2, (hlarge 0x4000000000000000 (by decide)).2⟩

end QuicTransport.VarInt
