import QuicTransport.Reader

set_option autoImplicit false

/-! # Codes of variable-length integers

A code is a tag and a value side by side in one number: the tag decides the two high bits of the
first byte, and the value is what remains modulo the capacity. Both are read off the number by
division, so what was written is read back whatever follows it. -/

namespace QuicTransport.VarInt

/-- The capacity of a width is what its first byte has room for beside the tag, and all of the
other bytes. -/
theorem Width.capacity_eq (w : Width) : w.capacity = 0x40 * Bytes.span (w.bytes - 1) := by
  cases w <;> rfl

theorem code_eq_cons (w : Width) (v : VarInt) :
    code w v = UInt8.ofNat ((w.tag * w.capacity + v.value) / Bytes.span (w.bytes - 1))
      :: Bytes.bigEndian (w.bytes - 1) (w.tag * w.capacity + v.value) := by
  cases w <;> rfl

/-- The high bits of a first byte decide the width. -/
theorem announced_ofNat {n : Nat} (h : n < 256) :
    Width.announced (UInt8.ofNat n) =
      if n < 0x40 then .one else if n < 0x80 then .two else if n < 0xc0 then .four else .eight := by
  have hlt : ∀ m : UInt8, UInt8.ofNat n < m ↔ n < m.toNat := by
    intro m
    rw [UInt8.lt_iff_toNat_lt, UInt8.toNat_ofNat', Nat.mod_eq_of_lt h]
  simp only [Width.announced, hlt, UInt8.reduceToNat]

theorem announced_code {w : Width} {v : VarInt} (h : v.value < w.capacity) :
    Width.announced
      (UInt8.ofNat ((w.tag * w.capacity + v.value) / Bytes.span (w.bytes - 1))) = w := by
  have hdigit : (w.tag * w.capacity + v.value) / Bytes.span (w.bytes - 1)
      = 0x40 * w.tag + v.value / Bytes.span (w.bytes - 1) := by
    rw [w.capacity_eq, ← Nat.mul_assoc, Nat.mul_comm, Nat.mul_comm w.tag,
      Nat.mul_add_div (Bytes.span_pos _)]
  -- what the value leaves in the first byte stays below the tag
  have hlow : v.value / Bytes.span (w.bytes - 1) < 0x40 := by
    rw [Nat.div_lt_iff_lt_mul (Bytes.span_pos _), ← w.capacity_eq]
    exact h
  have htag : w.tag ≤ 3 := by cases w <;> decide
  rw [hdigit]
  generalize v.value / Bytes.span (w.bytes - 1) = low at hlow
  rw [announced_ofNat (by omega)]
  cases w with
  | one => rw [Width.tag, if_pos (by omega)]
  | two => rw [Width.tag, if_neg (by omega), if_pos (by omega)]
  | four => rw [Width.tag, if_neg (by omega), if_neg (by omega), if_pos (by omega)]
  | eight => rw [Width.tag, if_neg (by omega), if_neg (by omega), if_neg (by omega)]

/-- A code has room for its tag and its value. -/
theorem tag_add_value_lt {w : Width} {v : VarInt} (h : v.value < w.capacity) :
    w.tag * w.capacity + v.value < Bytes.span w.bytes := by
  rw [← w.four_mul_capacity]
  have htag : w.tag ≤ 3 := by cases w <;> decide
  have hmul := Nat.mul_le_mul_right w.capacity htag
  omega

/-- A code is read at the width that its first byte announces. -/
theorem decode?_cons {first : UInt8} {w : Width} (h : Width.announced first = w) (rest : Bytes) :
    decode? (first :: rest) =
      (Bytes.split? w.bytes (first :: rest)).map fun (front, after) =>
        (⟨Bytes.ofBigEndian front % w.capacity,
          Nat.lt_of_lt_of_le (Nat.mod_lt _ w.capacity_pos) w.capacity_le⟩, after) := by
  subst h
  rfl

/-- Reading takes one code and leaves what follows. -/
theorem decode?_code {w : Width} {v : VarInt} (h : v.value < w.capacity) (rest : Bytes) :
    decode? (code w v ++ rest) = some (v, rest) := by
  have hsplit : Bytes.split? w.bytes (code w v ++ rest) = some (code w v, rest) := by
    rw [← length_code w v]
    exact Bytes.split?_append _ _
  -- the tag is a multiple of the capacity, so it goes away
  have hnumber : Bytes.ofBigEndian (code w v) % w.capacity = v.value := by
    rw [code, Bytes.ofBigEndian_bigEndian (tag_add_value_lt h), Nat.mul_comm, Nat.mul_add_mod,
      Nat.mod_eq_of_lt h]
  have hfirst := announced_code h
  rw [code_eq_cons w v, List.cons_append] at hsplit ⊢
  rw [decode?_cons hfirst, hsplit, ← code_eq_cons]
  simp only [Option.map_some, hnumber]

/-- The tag is in the two high bits of the first byte. -/
theorem tag_announced (first : UInt8) : (Width.announced first).tag = first.toNat / 0x40 := by
  have hlt := first.toNat_lt
  simp only [Width.announced, UInt8.lt_iff_toNat_lt, UInt8.reduceToNat]
  split
  · rw [Width.tag]; omega
  · split
    · rw [Width.tag]; omega
    · split <;> (rw [Width.tag]; omega)

/-- A code is the tag of its width above the value. -/
theorem code_announced {first : UInt8} {rest : Bytes} {v : VarInt}
    (hlength : (first :: rest).length = (Width.announced first).bytes)
    (hvalue : v.value = Bytes.ofBigEndian (first :: rest) % (Width.announced first).capacity) :
    code (Width.announced first) v = first :: rest := by
  have hrest : (Width.announced first).bytes - 1 = rest.length := by
    rw [← hlength, List.length_cons, Nat.add_sub_cancel]
  have htag : Bytes.ofBigEndian (first :: rest) / (Width.announced first).capacity =
      (Width.announced first).tag := by
    rw [tag_announced, Width.capacity_eq, hrest, Nat.mul_comm 0x40, ← Nat.div_div_eq_div_mul,
      Bytes.ofBigEndian_cons, Nat.mul_comm, Nat.mul_add_div (Bytes.span_pos _),
      Nat.div_eq_of_lt (Bytes.ofBigEndian_lt rest), Nat.add_zero]
  rw [code, hvalue, ← htag, Nat.mul_comm, Nat.div_add_mod, ← hlength, Bytes.bigEndian_ofBigEndian]

/-- What is read is a code at the announced width. -/
theorem eq_code_of_decode? {bs after : Bytes} {v : VarInt} (h : decode? bs = some (v, after)) :
    ∃ w : Width, v.value < w.capacity ∧ bs = code w v ++ after := by
  cases bs with
  | nil => cases h
  | cons first rest =>
    simp only [decode?, Option.map_eq_some_iff] at h
    obtain ⟨⟨front, tail⟩, hsplit, hpair⟩ := h
    injection hpair with hv htail
    subst htail
    obtain ⟨hbs, hlength⟩ := Bytes.split?_eq_some_iff.1 hsplit
    refine ⟨Width.announced first, ?_, ?_⟩
    · rw [← hv]
      exact Nat.mod_lt _ (Width.capacity_pos _)
    · cases front with
      | nil =>
        have hpos := (Width.announced first).bytes_pos
        rw [← hlength] at hpos
        cases hpos
      | cons b front =>
        injection hbs with hb hrest
        subst hb
        rw [code_announced hlength (congrArg value hv).symm, hrest]
        rfl

/-- A byte string is a code of a number, at any width that has room for it. -/
def IsCode (n : Nat) (bs : Bytes) : Prop :=
  ∃ (w : Width) (h : n < w.capacity), bs = code w ⟨n, Nat.lt_of_lt_of_le h w.capacity_le⟩

/-- Reading accepts the codes, and nothing else. -/
theorem decode?_eq_some_iff {bs after : Bytes} {v : VarInt} :
    decode? bs = some (v, after) ↔ ∃ front, IsCode v.value front ∧ bs = front ++ after := by
  constructor
  · intro h
    obtain ⟨w, hroom, hbs⟩ := eq_code_of_decode? h
    exact ⟨code w v, ⟨w, hroom, rfl⟩, hbs⟩
  · rintro ⟨_, ⟨w, hroom, rfl⟩, rfl⟩
    exact decode?_code hroom after

theorem Width.eq_of_bytes_eq {w w' : Width} (h : w.bytes = w'.bytes) : w = w' := by
  cases w <;> cases w' <;> simp [bytes] at h ⊢

/-- No code is shorter than the length that is counted for the number. -/
theorem IsCode.lengthOf_le {n : Nat} {bs : Bytes} (h : IsCode n bs) : lengthOf n ≤ bs.length := by
  obtain ⟨w, hroom, rfl⟩ := h
  rw [length_code]
  unfold lengthOf
  cases w <;> simp only [Width.capacity, Width.bytes] at hroom ⊢ <;> grind

/-- The number and the length determine the code. -/
theorem IsCode.eq_of_length_eq {n : Nat} {as bs : Bytes} (has : IsCode n as) (hbs : IsCode n bs)
    (h : as.length = bs.length) : as = bs := by
  obtain ⟨w, hw, rfl⟩ := has
  obtain ⟨w', hw', rfl⟩ := hbs
  rw [length_code, length_code] at h
  obtain rfl := Width.eq_of_bytes_eq h
  rfl

/-- The first byte of a code announces its length. -/
theorem IsCode.exists_cons {n : Nat} {bs : Bytes} (h : IsCode n bs) :
    ∃ first tail, bs = first :: tail ∧ (Width.announced first).bytes = bs.length := by
  obtain ⟨w, hroom, rfl⟩ := h
  refine ⟨_, _, code_eq_cons w _, ?_⟩
  rw [announced_code hroom, length_code]

theorem Width.covering?_eq_ite (n : Nat) :
    covering? n = if n ≤ 1 then some .one else if n ≤ 2 then some .two
      else if n ≤ 4 then some .four else if n ≤ 8 then some .eight else none := by
  match n with
  | 0 | 1 | 2 | 3 | 4 | 5 | 6 | 7 | 8 => rfl
  | n + 9 => simp [covering?]

/-- The width for a number of bytes has them, and no narrower one has. -/
theorem Width.covering?_eq_some {n : Nat} {w : Width} (h : covering? n = some w) :
    n ≤ w.bytes ∧ ∀ w' : Width, n ≤ w'.bytes → w.bytes ≤ w'.bytes := by
  rw [covering?_eq_ite] at h
  refine ⟨by grind [bytes], fun w' hw' => ?_⟩
  cases w' <;> grind [bytes]

/-- Nothing is wider than eight bytes. -/
theorem Width.covering?_eq_none_iff {n : Nat} : covering? n = none ↔ 8 < n := by
  rw [covering?_eq_ite]
  grind

theorem lengthOf_le (n : Nat) : lengthOf n ≤ 8 := by
  unfold lengthOf
  grind

/-- A width has room for a value exactly if it is not narrower than the shortest code. -/
theorem lengthOf_le_bytes_iff (v : VarInt) (w : Width) :
    lengthOf v.value ≤ w.bytes ↔ v.value < w.capacity := by
  have hlt := v.value_lt
  unfold lengthOf
  cases w <;> simp only [Width.bytes, Width.capacity] <;> grind

/-- The width that is written is no narrower than asked for, and has room for the value. -/
theorem width?_eq_some {least : Nat} {v : VarInt} {w : Width} (h : v.width? least = some w) :
    least ≤ w.bytes ∧ v.value < w.capacity := by
  have hle := (Width.covering?_eq_some h).1
  rw [Nat.max_le, lengthOf_le_bytes_iff] at hle
  exact hle

/-- A width is found unless more than eight bytes are asked for. -/
theorem width?_eq_none_iff {least : Nat} {v : VarInt} : v.width? least = none ↔ 8 < least := by
  have hlength := lengthOf_le v.value
  rw [width?, Width.covering?_eq_none_iff]
  omega

/-- The shortest code has the width of its length. -/
theorem exists_width?_zero (v : VarInt) :
    ∃ w, v.width? 0 = some w ∧ w.bytes = lengthOf v.value := by
  unfold width?
  rw [Nat.zero_max]
  unfold lengthOf
  split
  · exact ⟨.one, rfl, rfl⟩
  split
  · exact ⟨.two, rfl, rfl⟩
  split
  · exact ⟨.four, rfl, rfl⟩
  · exact ⟨.eight, rfl, rfl⟩

theorem exists_encode_eq_code (v : VarInt) : ∃ w, v.encode = code w v ∧ v.value < w.capacity := by
  obtain ⟨w, hw, _⟩ := exists_width?_zero v
  exact ⟨w, by rw [encode, hw, Option.getD_some], (width?_eq_some hw).2⟩

theorem decode?_encode (v : VarInt) (rest : Bytes) :
    decode? (v.encode ++ rest) = some (v, rest) := by
  obtain ⟨w, hcode, hroom⟩ := exists_encode_eq_code v
  rw [hcode]
  exact decode?_code hroom rest

/-- The shortest code has the length that is counted for it. -/
theorem length_encode (v : VarInt) : v.encode.length = lengthOf v.value := by
  obtain ⟨w, hw, hlength⟩ := exists_width?_zero v
  rw [encode, hw, Option.getD_some, length_code, hlength]

theorem encode_of_lt {v : VarInt} (h : v.value < 0x40) : v.encode = [UInt8.ofNat v.value] := by
  have hwidth : v.width? 0 = some .one := by simp [width?, lengthOf, h, Width.covering?]
  rw [encode, hwidth, Option.getD_some, code_eq_cons]
  simp [Width.tag, Width.bytes, Bytes.span, Bytes.bigEndian]

theorem put_of_lt {n : Nat} (h : n < 0x4000000000000000) : put n = .ok (encode ⟨n, h⟩) := by
  rw [put, ofNat?, dif_pos h]
  rfl

theorem put_eq_ok {n : Nat} {bs : Bytes} (h : put n = .ok bs) :
    ∃ hroom : n < 0x4000000000000000, bs = encode ⟨n, hroom⟩ := by
  unfold put ofNat? at h
  split at h
  · next hroom =>
    injection h with h
    exact ⟨hroom, h.symm⟩
  · cases h

theorem isCode_of_put {n : Nat} {bs : Bytes} (h : put n = .ok bs) : IsCode n bs := by
  obtain ⟨hroom, rfl⟩ := put_eq_ok h
  obtain ⟨w, hcode, hlt⟩ := exists_encode_eq_code ⟨n, hroom⟩
  exact ⟨w, hlt, hcode⟩

theorem length_of_put {n : Nat} {bs : Bytes} (h : put n = .ok bs) : bs.length = lengthOf n := by
  obtain ⟨hroom, rfl⟩ := put_eq_ok h
  exact length_encode ⟨n, hroom⟩

end QuicTransport.VarInt
