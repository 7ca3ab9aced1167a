set_option autoImplicit false

/-! # Byte strings

Everything on the wire is a list of bytes. A list is enough: writers append to it, readers take
from its front, and what a function does is read off its list equations.

Numbers travel in network byte order. `bigEndian k n` writes the `k` low bytes of `n`, most
significant first, and `ofBigEndian` reads any byte string back as a number; the two are inverse
as long as the number fits (`ofBigEndian_bigEndian`, `bigEndian_ofBigEndian`). -/

namespace QuicTransport

/-- A byte string. -/
abbrev Bytes := List UInt8

/-- A byte string whose length is known. -/
abbrev FixedBytes (n : Nat) := { bs : Bytes // bs.length = n }

namespace Bytes

/-! ## Taking from the front -/

/-- Split off the first `n` bytes; `none` if there are fewer. -/
def split? (n : Nat) (bs : Bytes) : Option (Bytes × Bytes) :=
  let front := bs.take n
  if front.length = n then some (front, bs.drop n) else none

theorem split?_append (front rest : Bytes) :
    split? front.length (front ++ rest) = some (front, rest) := by
  simp [split?]

theorem split?_eq_some_iff {n : Nat} {bs front rest : Bytes} :
    split? n bs = some (front, rest) ↔ bs = front ++ rest ∧ front.length = n := by
  constructor
  · intro h
    simp only [split?] at h
    split at h
    · next hlen =>
      simp only [Option.some.injEq, Prod.mk.injEq] at h
      obtain ⟨rfl, rfl⟩ := h
      exact ⟨(List.take_append_drop n bs).symm, hlen⟩
    · simp at h
  · rintro ⟨rfl, rfl⟩
    exact split?_append front rest

theorem split?_eq_none_iff {n : Nat} {bs : Bytes} : split? n bs = none ↔ bs.length < n := by
  simp only [split?, List.length_take]
  split <;> simp <;> omega

/-! ## Blocks -/

/-- Cut into blocks of `n` bytes; what is left at the end makes a shorter block. -/
def chunks (n : Nat) (bs : Bytes) : List Bytes :=
  if n = 0 ∨ bs = [] then [] else bs.take n :: chunks n (bs.drop n)
termination_by bs.length
decreasing_by
  rename_i h
  have hn : 0 < n := Nat.pos_of_ne_zero fun hzero => h (Or.inl hzero)
  have hbs : 0 < bs.length := List.length_pos_iff.2 fun hnil => h (Or.inr hnil)
  rw [List.length_drop]
  omega

/-- Fill up with zero bytes at the end to a length of at least `n`. -/
def padRight (n : Nat) (bs : Bytes) : Bytes := bs ++ List.replicate (n - bs.length) 0

/-! ## Exclusive or -/

/-- Bytewise exclusive or; the shorter string decides the length. -/
def xor (a b : Bytes) : Bytes := List.zipWith (· ^^^ ·) a b

theorem length_xor (a b : Bytes) : (xor a b).length = min a.length b.length := by
  simp [xor]

/-- Masking twice with the same mask changes nothing. -/
theorem xor_xor_cancel (a mask : Bytes) (h : a.length ≤ mask.length) :
    xor (xor a mask) mask = a := by
  induction a generalizing mask with
  | nil => simp [xor]
  | cons x a ih =>
    cases mask with
    | nil => simp at h
    | cons m mask =>
      have := ih mask (by simpa using h)
      simp only [xor] at this
      simp only [xor, List.zipWith_cons_cons]
      rw [this, UInt8.xor_assoc, UInt8.xor_self, UInt8.xor_zero]

/-! ## Numbers in network byte order -/

private theorem toNat_ofNat (n : Nat) : (UInt8.ofNat n).toNat = n % 256 := UInt8.toNat_ofNat'

/-- How many numbers `k` bytes tell apart. -/
def span : (k : Nat) → Nat
  | 0 => 1
  | k + 1 => 256 * span k

theorem span_pos (k : Nat) : 0 < span k := by
  induction k with
  | zero => decide
  | succ k ih => rw [span]; omega

theorem span_add (j k : Nat) : span (j + k) = span j * span k := by
  induction j with
  | zero => rw [Nat.zero_add, span, Nat.one_mul]
  | succ j ih => rw [Nat.add_right_comm, span, span, ih, Nat.mul_assoc]

/-- The `k` low bytes of `n`, most significant first. -/
def bigEndian : (k n : Nat) → Bytes
  | 0, _ => []
  | k + 1, n => UInt8.ofNat (n / span k) :: bigEndian k n

/-- The number that a byte string denotes, most significant byte first. -/
def ofBigEndian (bs : Bytes) : Nat := bs.foldl (fun n b => n * 256 + b.toNat) 0

/-- The `k` low bytes of `n`, least significant first. -/
def littleEndian (k n : Nat) : Bytes := (bigEndian k n).reverse

/-- The number that a byte string denotes, least significant byte first. -/
def ofLittleEndian (bs : Bytes) : Nat := ofBigEndian bs.reverse

@[simp] theorem length_bigEndian (k n : Nat) : (bigEndian k n).length = k := by
  induction k with
  | zero => rfl
  | succ k ih => simp [bigEndian, ih]

@[simp] theorem length_littleEndian (k n : Nat) : (littleEndian k n).length = k := by
  simp [littleEndian]

private theorem foldl_digits (bs : Bytes) (start : Nat) :
    bs.foldl (fun n b => n * 256 + b.toNat) start = start * span bs.length + ofBigEndian bs := by
  induction bs generalizing start with
  | nil => simp [ofBigEndian, span]
  | cons b bs ih =>
    simp only [ofBigEndian, List.foldl_cons, List.length_cons, span]
    rw [ih, ih (0 * 256 + b.toNat)]
    simp only [Nat.zero_mul, Nat.zero_add, Nat.add_mul]
    rw [Nat.mul_assoc start 256, Nat.add_assoc]

@[simp] theorem ofBigEndian_nil : ofBigEndian [] = 0 := rfl

theorem ofBigEndian_cons (b : UInt8) (bs : Bytes) :
    ofBigEndian (b :: bs) = b.toNat * span bs.length + ofBigEndian bs := by
  rw [ofBigEndian, List.foldl_cons, foldl_digits]
  simp

theorem ofBigEndian_lt (bs : Bytes) : ofBigEndian bs < span bs.length := by
  induction bs with
  | nil => decide
  | cons b bs ih =>
    rw [ofBigEndian_cons, List.length_cons, span]
    have hb : b.toNat < 256 := b.toNat_lt
    calc b.toNat * span bs.length + ofBigEndian bs
        < b.toNat * span bs.length + span bs.length := Nat.add_lt_add_left ih _
      _ = (b.toNat + 1) * span bs.length := by rw [Nat.add_mul, Nat.one_mul]
      _ ≤ 256 * span bs.length := Nat.mul_le_mul_right _ hb

/-- Reading back what was written gives the number modulo the room it was given. -/
theorem ofBigEndian_bigEndian_mod (k n : Nat) : ofBigEndian (bigEndian k n) = n % span k := by
  induction k with
  | zero => rw [bigEndian, ofBigEndian_nil, span, Nat.mod_one]
  | succ k ih =>
    have hsplit : n % span (k + 1) = n % span k + span k * (n / span k % 256) := by
      rw [span, Nat.mul_comm 256, Nat.mod_mul]
    rw [bigEndian, ofBigEndian_cons, length_bigEndian, ih, toNat_ofNat, hsplit, Nat.add_comm,
      Nat.mul_comm]

theorem ofBigEndian_bigEndian {k n : Nat} (h : n < span k) : ofBigEndian (bigEndian k n) = n := by
  rw [ofBigEndian_bigEndian_mod, Nat.mod_eq_of_lt h]

/-- Only the low bytes of a number are written. -/
theorem bigEndian_mod (k n m : Nat) (h : k ≤ m) : bigEndian k (n % span m) = bigEndian k n := by
  induction k with
  | zero => rfl
  | succ k ih =>
    rw [bigEndian, bigEndian, ih (by omega)]
    congr 1
    apply UInt8.toNat_inj.1
    obtain ⟨d, rfl⟩ : ∃ d, m = k + (d + 1) := ⟨m - (k + 1), by omega⟩
    rw [toNat_ofNat, toNat_ofNat, span_add, span, Nat.mod_mul_right_div_self,
      Nat.mod_mul_right_mod]

/-- Writing what was read gives the byte string back. -/
theorem bigEndian_ofBigEndian (bs : Bytes) : bigEndian bs.length (ofBigEndian bs) = bs := by
  induction bs with
  | nil => rfl
  | cons b bs ih =>
    have hlt := ofBigEndian_lt bs
    have hpos := span_pos bs.length
    rw [List.length_cons, bigEndian, ofBigEndian_cons]
    congr 1
    · rw [Nat.mul_comm, Nat.mul_add_div hpos, Nat.div_eq_of_lt hlt, Nat.add_zero]
      simp
    · rw [← bigEndian_mod bs.length _ bs.length (Nat.le_refl _), Nat.mul_comm, Nat.mul_add_mod,
        Nat.mod_eq_of_lt hlt, ih]

end Bytes

/-! ## ASCII -/

/-- The bytes of a text whose characters are all ASCII. -/
def asciiBytes (text : String) : Bytes := text.toList.map fun c => UInt8.ofNat c.toNat

end QuicTransport
