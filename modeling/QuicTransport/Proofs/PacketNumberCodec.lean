import Mathlib.Data.Nat.Dist
import Mathlib.Data.Int.ModEq
import Mathlib.Order.Bounds.Basic
import QuicTransport.Proofs.PacketNumberRecovery

set_option autoImplicit false

/-! # Packet numbers in few bytes

The writer of a packet number takes the narrowest width whose window is twice as large as what is
outstanding, and finds it by counting bits (`windowBits_le_iff`, `widthFor_eq`). Whatever the
receiver has seen in the meantime, the number is then in the window around the one that the receiver
expects, and is recovered (`recovered_of_encode`).

The reader does not rely on the writer. Whatever the low bits are, it looks for the nearest of the
packet numbers that have them, and of two at the same distance it takes the upper (`IsNearest`). Two
such numbers are at least a window apart, so a number has no rival if it is within half a window, or
if it is the first or the last of all and the expected one lies outside (`Unrivalled`). That is what
is found as long as another packet can come. Once the largest number has been seen there is no next
number, and low bits just above it are read as a number that no packet has (`decode_nearest`). -/

namespace QuicTransport.PacketNumber

/-! ## Windows -/

namespace Width

theorem window_eq_two_pow (w : Width) : w.window = 2 ^ w.bits := by
  cases w <;> rfl

theorem half_window (w : Width) : w.window / 2 = 2 ^ (w.bits - 1) := by
  cases w <;> rfl

theorem ofBits?_bits (w : Width) : ofBits? w.bits = some w := by
  cases w <;> rfl

theorem two_mul_half_window (w : Width) : 2 * (w.window / 2) = w.window := by
  cases w <;> rfl

theorem exists_of_bits {bits : Nat} (h : bits ∈ [8, 16, 24, 32]) : ∃ w : Width, w.bits = bits := by
  simp only [List.mem_cons, List.not_mem_nil, or_false] at h
  rcases h with rfl | rfl | rfl | rfl
  · exact ⟨.one, rfl⟩
  · exact ⟨.two, rfl⟩
  · exact ⟨.three, rfl⟩
  · exact ⟨.four, rfl⟩

theorem exists_of_bytes {n : Nat} (hpos : 1 ≤ n) (hle : n ≤ 4) : ∃ w : Width, w.bytes = n := by
  obtain rfl | rfl | rfl | rfl : n = 1 ∨ n = 2 ∨ n = 3 ∨ n = 4 := by omega
  · exact ⟨.one, rfl⟩
  · exact ⟨.two, rfl⟩
  · exact ⟨.three, rfl⟩
  · exact ⟨.four, rfl⟩

theorem nearest_eq_ite (n : Nat) :
    nearest n = if n ≤ 1 then .one else if n ≤ 2 then .two else if n ≤ 3 then .three else .four := by
  match n with
  | 0 | 1 | 2 | 3 => rfl
  | n + 4 => simp [nearest]

variable {w : Width} {m n : Nat}

/-- Two numbers in the same window are less than a window apart. -/
theorem lt_add_window_of_div_eq (h : m / w.window = n / w.window) : m < n + w.window := by
  cases w <;> simp only [window, bytes, Bytes.span] at h ⊢ <;> omega

/-- The packet numbers are made up of whole windows. -/
theorem le_largest_of_div_eq (h : m / w.window = n / w.window) (hn : n ≤ largest) :
    m ≤ largest := by
  unfold largest at hn ⊢
  cases w <;> simp only [window, bytes, Bytes.span] at h <;> omega

theorem eq_of_div_eq_above (h : m / w.window = (largest + 1) / w.window) :
    m = largest + 1 + m % w.window := by
  unfold largest at h ⊢
  cases w <;> simp only [window, bytes, Bytes.span] at h ⊢ <;> omega

/-- Two numbers with the same low bits are the same or a window apart. -/
theorem eq_or_apart_of_mod_eq (h : m % w.window = n % w.window) :
    m = n ∨ n + w.window ≤ m ∨ m + w.window ≤ n := by
  cases w <;> simp only [window, bytes, Bytes.span] at h ⊢ <;> omega

end Width

theorem decode_bits (seen : Option Nat) (truncated : Nat) (w : Width) :
    decode seen truncated w.bits = .ok (recover seen truncated w) := by
  rw [decode, w.ofBits?_bits]

/-! ## The width that is written -/

section Writing

variable {number : Nat} {acknowledged seen : Option Nat} {w : Width}

/-- Twice as large a window has room for `n` in its half. -/
theorem windowBits_le_iff (n k : Nat) : windowBits n ≤ k + 1 ↔ n ≤ 2 ^ k := by
  unfold windowBits bitLength
  split
  · next hpower =>
    obtain ⟨j, rfl⟩ := hpower
    rw [if_neg (Nat.two_pow_pos j).ne', Nat.log2_two_pow, Nat.pow_le_pow_iff_right (by decide)]
    omega
  next hpower =>
  split
  · next hzero => simp [hzero]
  next hpos =>
  -- the highest bit is below `k`, and all powers of two are excluded
  have hne : n ≠ 2 ^ k := fun h => hpower ⟨k, h⟩
  have hlt := Nat.log2_lt (k := k) hpos
  omega

/-- The widths by what is outstanding. -/
theorem widthFor_eq (number : Nat) (acknowledged : Option Nat) :
    widthFor number acknowledged =
      if outstanding number acknowledged ≤ 0x80 then .one
      else if outstanding number acknowledged ≤ 0x8000 then .two
      else if outstanding number acknowledged ≤ 0x800000 then .three
      else .four := by
  unfold widthFor
  generalize outstanding number acknowledged = n
  have hone : (windowBits n + 7) / 8 ≤ 1 ↔ n ≤ 0x80 := by
    have := windowBits_le_iff n 7
    omega
  have htwo : (windowBits n + 7) / 8 ≤ 2 ↔ n ≤ 0x8000 := by
    have := windowBits_le_iff n 15
    omega
  have hthree : (windowBits n + 7) / 8 ≤ 3 ↔ n ≤ 0x800000 := by
    have := windowBits_le_iff n 23
    omega
  simp only [Width.nearest_eq_ite, hone, htwo, hthree]

/-- As long as there is a width for what is outstanding, it is found. -/
theorem outstanding_le_half_window (h : outstanding number acknowledged ≤ 2 ^ 31) :
    outstanding number acknowledged ≤ (widthFor number acknowledged).window / 2 := by
  rw [widthFor_eq]
  generalize outstanding number acknowledged = n at h ⊢
  split
  · simp only [Width.window, Width.bytes, Bytes.span]
    omega
  split
  · simp only [Width.window, Width.bytes, Bytes.span]
    omega
  split
  · simp only [Width.window, Width.bytes, Bytes.span]
    omega
  · exact h

/-- No narrower width would do. -/
theorem bytes_widthFor_le (h : outstanding number acknowledged ≤ w.window / 2) :
    (widthFor number acknowledged).bytes ≤ w.bytes := by
  rw [widthFor_eq]
  generalize outstanding number acknowledged = n at h ⊢
  cases w <;> simp only [Width.window, Width.bytes, Bytes.span] at h ⊢ <;> grind [Width.bytes]

/-- The bytes that are written are the fewest whose half window holds what is outstanding. -/
theorem isLeast_bytes_widthFor (h : outstanding number acknowledged ≤ 2 ^ 31) :
    IsLeast {n | 1 ≤ n ∧ n ≤ 4 ∧ outstanding number acknowledged ≤ 2 ^ (8 * n - 1)}
      (widthFor number acknowledged).bytes := by
  constructor
  · refine ⟨Width.bytes_pos _, Width.bytes_le _, ?_⟩
    have hhalf := outstanding_le_half_window h
    rwa [Width.half_window] at hhalf
  · rintro n ⟨hpos, hle, hroom⟩
    obtain ⟨w, rfl⟩ := Width.exists_of_bytes hpos hle
    refine bytes_widthFor_le ?_
    rwa [Width.half_window]

/-- What a receiver may have seen when a number arrives that was written at width `w`: at least what
it has acknowledged, and so little beyond the number that the next one it expects is less than half
a window ahead. -/
structure MayHaveSeen (number : Nat) (acknowledged : Option Nat) (w : Width)
    (seen : Option Nat) : Prop where
  acknowledged_le : ∀ a, acknowledged = some a → ∃ r, seen = some r ∧ a ≤ r
  le_largest : ∀ r, seen = some r → r ≤ largest
  add_two_le : ∀ r, seen = some r → r + 2 ≤ number + 2 ^ (w.bits - 1)

/-- The number is in the window around the one that the receiver expects. -/
theorem MayHaveSeen.near (h : MayHaveSeen number acknowledged w seen)
    (hroom : outstanding number acknowledged ≤ w.window / 2) : Near seen w number := by
  have hhalf : 0 < w.window / 2 := by cases w <;> decide
  have hahead := h.add_two_le
  rw [← Width.half_window] at hahead
  cases seen with
  | none =>
    cases acknowledged with
    | none =>
      rw [outstanding] at hroom
      exact ⟨by rw [expected]; omega, by rw [expected]; omega⟩
    | some a =>
      obtain ⟨r, hr, _⟩ := h.acknowledged_le a rfl
      cases hr
  | some r =>
    have hr := hahead r rfl
    refine ⟨by rw [expected]; omega, ?_⟩
    cases acknowledged with
    | none =>
      rw [outstanding] at hroom
      rw [expected]
      omega
    | some a =>
      obtain ⟨r', hr', hle⟩ := h.acknowledged_le a rfl
      rw [Option.some.injEq] at hr'
      rw [outstanding] at hroom
      rw [expected]
      omega

/-- A number is written with the fewest bytes that leave room for twice what is outstanding, and
whoever may receive it recovers it from them. -/
theorem recovered_of_encode (hnumber : number ≤ largest)
    (hroom : outstanding number acknowledged ≤ 2 ^ 31) :
    IsLeast {n | 1 ≤ n ∧ n ≤ 4 ∧ outstanding number acknowledged ≤ 2 ^ (8 * n - 1)}
        (widthFor number acknowledged).bytes
      ∧ (encode number acknowledged).length = (widthFor number acknowledged).bytes
      ∧ ∀ seen, MayHaveSeen number acknowledged (widthFor number acknowledged) seen →
        ∃ truncated,
          readTruncated? (widthFor number acknowledged) (encode number acknowledged)
              = some truncated
            ∧ decode seen truncated (widthFor number acknowledged).bits = .ok number := by
  refine ⟨isLeast_bytes_widthFor hroom, length_truncate _ _, fun seen hseen => ?_⟩
  have hread := readTruncated?_truncate (widthFor number acknowledged) number []
  rw [List.append_nil] at hread
  refine ⟨_, hread, ?_⟩
  rw [decode_bits, recover_of_near (hseen.near (outstanding_le_half_window hroom)) hnumber]

/-- Half a window of two bytes is outstanding. The number reaches a receiver that has seen nothing
since, and one that has seen almost half a window more. -/
theorem recovered_of_encode_both_ends :
    encode 0x18000 (some 0x10000) = [0x80, 0x00]
      ∧ decode (some 0x10000) 0x8000 16 = .ok 0x18000
      ∧ decode (some 0x1fffe) 0x8000 16 = .ok 0x18000 := by
  have hroom : outstanding 0x18000 (some 0x10000) ≤ 2 ^ 31 := by decide
  obtain ⟨_, _, hrecovered⟩ := recovered_of_encode (by decide) hroom
  have hseen : ∀ r, 0x10000 ≤ r → r ≤ 0x1fffe →
      MayHaveSeen 0x18000 (some 0x10000) .two (some r) := by
    intro r hfrom hto
    refine ⟨?_, ?_, ?_⟩
    · rintro _ ⟨⟩
      exact ⟨r, rfl, hfrom⟩
    · rintro _ ⟨⟩
      exact Nat.le_trans hto (by decide)
    · rintro _ ⟨⟩
      exact Nat.add_le_add_right hto 2
  obtain ⟨low, hlow, hfirst⟩ := hrecovered _ (hseen 0x10000 (by decide) (by decide))
  obtain ⟨low', hlow', hlast⟩ := hrecovered _ (hseen 0x1fffe (by decide) (by decide))
  cases hlow
  cases hlow'
  exact ⟨by decide, hfirst, hlast⟩

end Writing

/-! ## The number that is read -/

section Reading

variable {bits truncated next number other : Nat} {seen : Option Nat} {w : Width}

/-- Of the packet numbers with the given low bits, `number` is the nearest to `next`; of two at the
same distance it is the upper. -/
structure IsNearest (bits truncated next number : Nat) : Prop where
  low : number ≡ truncated [MOD 2 ^ bits]
  le_largest : number ≤ largest
  nearest : ∀ other ≤ largest, other ≡ truncated [MOD 2 ^ bits] →
    Nat.dist number next < Nat.dist other next
      ∨ Nat.dist number next = Nat.dist other next ∧ other ≤ number

/-- No other packet number with the same low bits can be nearer: the number is within half a window
of the expected one, or it is the first of all and not below it, or the last of all and not
above it. -/
def Unrivalled (seen : Option Nat) (w : Width) (number : Nat) : Prop :=
  Near seen w number
    ∨ number < w.window ∧ expected seen ≤ number
    ∨ largest < number + w.window ∧ number ≤ expected seen

theorem Unrivalled.isNearest (h : Unrivalled seen w number)
    (hlow : number % w.window = truncated % w.window) (hlargest : number ≤ largest) :
    IsNearest w.bits truncated (expected seen) number := by
  refine ⟨?_, hlargest, fun other hother hsame => ?_⟩
  · rwa [Nat.ModEq, ← w.window_eq_two_pow]
  rw [Nat.ModEq, ← w.window_eq_two_pow, ← hlow] at hsame
  unfold Unrivalled Near at h
  simp only [Nat.dist]
  rcases Width.eq_or_apart_of_mod_eq hsame with rfl | hapart
  · exact Or.inr ⟨rfl, Nat.le_refl _⟩
  · omega

/-- The largest number has been seen, and the low bits are those of a number that is no more than
half a window above it. -/
def Overruns (bits truncated : Nat) (seen : Option Nat) : Prop :=
  seen = some largest ∧ truncated % 2 ^ bits ≤ 2 ^ (bits - 1)

theorem overruns_iff : Overruns w.bits truncated seen ↔
    seen = some largest ∧ truncated % w.window ≤ w.window / 2 := by
  rw [Overruns, Width.half_window, Width.window_eq_two_pow]

theorem expected_le (hseen : ∀ n, seen = some n → n ≤ largest) :
    expected seen ≤ largest + 1 ∧ (expected seen = largest + 1 ↔ seen = some largest) := by
  cases seen with
  | none => simp [expected]
  | some n =>
    have hn := hseen n rfl
    simp [expected]
    omega

/-- What is found is the number in the window of the expected one, or one of its neighbours if that
is nearer and a packet number. -/
theorem recover_cases (seen : Option Nat) (truncated : Nat) (w : Width) :
    ∃ candidate, candidate / w.window = expected seen / w.window
      ∧ candidate % w.window = truncated % w.window
      ∧ (candidate + w.window / 2 ≤ expected seen ∧ candidate + w.window ≤ largest
          ∧ recover seen truncated w = candidate + w.window
        ∨ expected seen + w.window / 2 < candidate ∧ w.window ≤ candidate
          ∧ recover seen truncated w = candidate - w.window
        ∨ (candidate + w.window / 2 ≤ expected seen → largest < candidate + w.window)
          ∧ (expected seen + w.window / 2 < candidate → candidate < w.window)
          ∧ recover seen truncated w = candidate) := by
  have hlow : truncated % w.window < w.window := Nat.mod_lt _ w.window_pos
  refine ⟨expected seen / w.window * w.window + truncated % w.window, ?_, ?_, ?_⟩
  · rw [Nat.mul_comm, Nat.mul_add_div w.window_pos, Nat.div_eq_of_lt hlow, Nat.add_zero]
  · rw [Nat.mul_comm, Nat.mul_add_mod, Nat.mod_mod]
  · unfold recover
    dsimp only
    generalize expected seen / w.window * w.window + truncated % w.window = candidate
    split
    · next h => exact Or.inl ⟨h.1, h.2, rfl⟩
    next hupper =>
    split
    · next h => exact Or.inr (Or.inl ⟨h.1, h.2, rfl⟩)
    next hlower =>
    exact Or.inr (Or.inr ⟨by omega, by omega, rfl⟩)

theorem recover_mod (seen : Option Nat) (truncated : Nat) (w : Width) :
    recover seen truncated w % w.window = truncated % w.window := by
  obtain ⟨c, _, hlow, hcases⟩ := recover_cases seen truncated w
  rw [← hlow]
  rcases hcases with ⟨_, _, hfound⟩ | ⟨_, hpos, hfound⟩ | ⟨_, _, hfound⟩
  · rw [hfound, Nat.add_mod_right]
  · rw [hfound, Nat.mod_eq_sub_mod hpos]
  · rw [hfound]

/-- As long as the reader does not overrun, it finds a packet number without a rival. -/
theorem unrivalled_recover (hseen : ∀ n, seen = some n → n ≤ largest)
    (h : ¬Overruns w.bits truncated seen) :
    recover seen truncated w ≤ largest ∧ Unrivalled seen w (recover seen truncated w) := by
  obtain ⟨hnext, hlast⟩ := expected_le hseen
  have hhalf := w.two_mul_half_window
  obtain ⟨c, hwindow, hlow, hcases⟩ := recover_cases seen truncated w
  have hbelow : c < expected seen + w.window := Width.lt_add_window_of_div_eq hwindow
  have habove : expected seen < c + w.window := Width.lt_add_window_of_div_eq hwindow.symm
  rcases hcases with ⟨hfar, hroom, hfound⟩ | ⟨hfar, hroom, hfound⟩ | ⟨hupper, hlower, hfound⟩
  · rw [hfound]
    exact ⟨hroom, Or.inl ⟨by omega, by omega⟩⟩
  · rw [hfound]
    exact ⟨by omega, Or.inl ⟨by omega, by omega⟩⟩
  · have hlargest : c ≤ largest := by
      by_cases hpast : expected seen ≤ largest
      · exact Width.le_largest_of_div_eq hwindow hpast
      -- past the last packet number the candidate is found only where the reader overruns
      have hexpected : expected seen = largest + 1 := by omega
      rw [hexpected] at hwindow hlower
      have hc := Width.eq_of_div_eq_above hwindow
      have hle : w.window ≤ largest + 1 := by cases w <;> decide
      rw [hlow] at hc
      exact absurd (overruns_iff.2 ⟨hlast.1 hexpected, by omega⟩) h
    rw [hfound]
    refine ⟨hlargest, ?_⟩
    by_cases hfirst : expected seen + w.window / 2 < c
    · exact Or.inr (Or.inl ⟨hlower hfirst, by omega⟩)
    by_cases hend : c + w.window / 2 ≤ expected seen
    · exact Or.inr (Or.inr ⟨hupper hend, by omega⟩)
    · exact Or.inl ⟨by omega, by omega⟩

theorem recover_of_overruns (h : Overruns w.bits truncated seen) :
    recover seen truncated w = largest + 1 + truncated % 2 ^ w.bits := by
  obtain ⟨rfl, hle⟩ := overruns_iff.1 h
  obtain ⟨c, hwindow, hlow, hcases⟩ := recover_cases (some largest) truncated w
  rw [expected] at hwindow hcases
  have hc := Width.eq_of_div_eq_above hwindow
  have hpos := w.window_pos
  rw [← w.window_eq_two_pow, ← hlow, ← hc]
  rcases hcases with ⟨hfar, _, _⟩ | ⟨hfar, _, _⟩ | ⟨_, _, hfound⟩
  · omega
  · omega
  · exact hfound

/-- Every truncated number is read, and what is read has its low bits. It is the nearest packet
number that has them, unless the reader overruns; then it is not a packet number. -/
theorem decode_nearest (hseen : ∀ n, seen = some n → n ≤ largest) (hbits : bits ∈ [8, 16, 24, 32])
    (truncated : Nat) :
    ∃ number, decode seen truncated bits = .ok number
      ∧ number ≡ truncated [MOD 2 ^ bits]
      ∧ (¬Overruns bits truncated seen → IsNearest bits truncated (expected seen) number)
      ∧ (Overruns bits truncated seen → number = largest + 1 + truncated % 2 ^ bits) := by
  obtain ⟨w, rfl⟩ := Width.exists_of_bits hbits
  have hlow := recover_mod seen truncated w
  refine ⟨_, decode_bits seen truncated w, ?_, fun h => ?_, recover_of_overruns⟩
  · rwa [Nat.ModEq, ← w.window_eq_two_pow]
  · obtain ⟨hlargest, hunrivalled⟩ := unrivalled_recover hseen h
    exact hunrivalled.isNearest hlow hlargest

/-- The next to last number is read from its low byte after the one before it. -/
theorem decode_nearest_ceiling :
    ∃ number, decode (some (largest - 2)) 0xfe 8 = .ok number
      ∧ IsNearest 8 0xfe (expected (some (largest - 2))) number := by
  have hseen : ∀ n, some (largest - 2) = some n → n ≤ largest := by
    rintro _ ⟨⟩
    decide
  have hbits : 8 ∈ [8, 16, 24, 32] := by decide
  obtain ⟨number, hdecode, _, hnearest, _⟩ := decode_nearest hseen hbits 0xfe
  exact ⟨number, hdecode, hnearest fun h => absurd h.1 (by decide)⟩

/-- Once the largest number has been seen, a low byte of zero is read as the number above it. The
nearest packet number with this low byte is a window below. -/
theorem decode_above_largest :
    decode (some largest) 0 8 = .ok (largest + 1)
      ∧ IsNearest 8 0 (expected (some largest)) (largest - 0xff) := by
  have hlast : Unrivalled (some largest) .one (largest - 0xff) := Or.inr (Or.inr (by decide))
  exact ⟨by decide, hlast.isNearest (by decide) (by decide)⟩

end Reading

end QuicTransport.PacketNumber
