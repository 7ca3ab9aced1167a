import Mathlib.Data.Nat.Bitwise
import QuicTransport.Header

set_option autoImplicit false

/-! # The bits of a first byte

The first byte of a header is a number below 256, and its bits are counted from the low end. Bit 7
is the form, bit 6 the fixed bit, bits 5 and 4 the type of a long header, and bits 1 and 0 the width
of the packet number. A reader takes a part out by a mask. Here each part is given back as a digit
of the number, so that what is said about a header does not depend on how it is read. -/

namespace QuicTransport

/-! ## Masks of one bit -/

namespace FirstByte

section Masks

variable {b m : UInt8} {i : Nat}

theorem toNat_and_bit (h : m.toNat = 2 ^ i) :
    (b &&& m).toNat = (b.toNat.testBit i).toNat * 2 ^ i := by
  rw [UInt8.toNat_and, h, Nat.and_two_pow]

theorem and_eq_zero_iff (h : m.toNat = 2 ^ i) : b &&& m = 0 ↔ b.toNat.testBit i = false := by
  rw [← UInt8.toNat_inj, toNat_and_bit h]
  cases b.toNat.testBit i <;> simp

theorem and_eq_mask_iff (h : m.toNat = 2 ^ i) : b &&& m = m ↔ b.toNat.testBit i = true := by
  have hpos := Nat.two_pow_pos i
  rw [← UInt8.toNat_inj, toNat_and_bit h, h]
  cases b.toNat.testBit i
  · simpa using hpos.ne
  · simp

end Masks

end FirstByte

/-! ## Parts of a first byte -/

namespace HeaderForm

theorem ofFirstByte_eq_short_iff {first : UInt8} :
    ofFirstByte first = .short ↔ first.toNat.testBit 7 = false := by
  rw [← FirstByte.and_eq_zero_iff (m := 0x80) rfl, ofFirstByte]
  split
  · next h => simp [h]
  · next h => simp [h]

theorem ofFirstByte_eq_long_iff {first : UInt8} :
    ofFirstByte first = .long ↔ first.toNat.testBit 7 = true := by
  rw [← Bool.not_eq_false, ← ofFirstByte_eq_short_iff]
  cases ofFirstByte first <;> simp

end HeaderForm

/-- The two low bits tell the width. -/
theorem PacketNumber.Width.bytes_ofFirstByte (first : UInt8) :
    (ofFirstByte first).bytes = first.toNat % 4 + 1 := by
  have hlt := Nat.mod_lt first.toNat (show 0 < 4 by decide)
  unfold ofFirstByte
  generalize first.toNat % 4 = low at hlt ⊢
  have hcases : low = 0 ∨ low = 1 ∨ low = 2 ∨ low = 3 := by omega
  rcases hcases with rfl | rfl | rfl | rfl <;> rfl

namespace FirstByte

theorem isFixed_eq_testBit (first : UInt8) : isFixed first = first.toNat.testBit 6 := by
  rw [Bool.eq_iff_iff, isFixed, bne_iff_ne, Ne, and_eq_zero_iff (m := 0x40) (i := 6) rfl,
    Bool.not_eq_false]

theorem typeBits_eq_mod (first : UInt8) : typeBits first = first.toNat / 0x10 % 4 := by
  change (first &&& 0x30).toNat >>> 4 = _
  rw [UInt8.toNat_and, Nat.shiftRight_and_distrib, Nat.shiftRight_eq_div_pow]
  exact Nat.and_two_pow_sub_one_eq_mod _ 2

/-- What a first byte of a long header says. -/
structure IsLong (first : UInt8) (bits : Nat) (w : PacketNumber.Width) : Prop where
  form : HeaderForm.ofFirstByte first = .long
  isFixed : isFixed first = true
  typeBits : typeBits first = bits
  width : PacketNumber.Width.ofFirstByte first = w
  reserved : first &&& HeaderForm.long.reservedBits = 0

theorem isLong_ofNat {bits : Nat} (h : bits < 4) (w : PacketNumber.Width) :
    IsLong (UInt8.ofNat (0xc0 + 16 * bits + w.headerBits)) bits w := by
  have hbits : bits = 0 ∨ bits = 1 ∨ bits = 2 ∨ bits = 3 := by omega
  rcases hbits with rfl | rfl | rfl | rfl <;> cases w <;>
    exact ⟨by decide, by decide, by decide, by decide, by decide⟩

structure IsShort (first : UInt8) (spins phase : Bool) (w : PacketNumber.Width) : Prop where
  form : HeaderForm.ofFirstByte first = .short
  isFixed : isFixed first = true
  spin : spin first = spins
  keyPhase : keyPhase first = phase
  width : PacketNumber.Width.ofFirstByte first = w
  reserved : first &&& HeaderForm.short.reservedBits = 0

theorem isShort_ofNat (spins phase : Bool) (w : PacketNumber.Width) :
    IsShort (UInt8.ofNat (0x40 + 0x20 * spins.toNat + 0x04 * phase.toNat + w.headerBits)) spins
      phase w := by
  cases spins <;> cases phase <;> cases w <;>
    exact ⟨by decide, by decide, by decide, by decide, by decide, by decide⟩

theorem IsLong.checkReserved {first : UInt8} {bits : Nat} {w : PacketNumber.Width}
    (h : IsLong first bits w) : checkReserved first = .ok () := by
  rw [FirstByte.checkReserved, h.form, if_pos h.reserved]

theorem IsShort.checkReserved {first : UInt8} {spins phase : Bool} {w : PacketNumber.Width}
    (h : IsShort first spins phase w) : checkReserved first = .ok () := by
  rw [FirstByte.checkReserved, h.form, if_pos h.reserved]

end FirstByte

end QuicTransport
