import QuicTransport.Protection.HeaderProtection

set_option autoImplicit false

/-! # Header protection comes off

The mask covers the low bits of the first byte and the packet number, and nothing else. The form of
the header is among the bits it leaves alone, so both sides choose the same bits of the first byte.
The reader uncovers the first byte first. Then it knows the width of the packet number, although
that is one of the things that were hidden. -/

namespace QuicTransport

namespace HeaderMask

/-! ## The first byte -/

/-- Bits that the mask does not reach stay. -/
theorem xor_and_of_disjoint {a m p q : UInt8} (h : p &&& q = 0) :
    (a ^^^ (m &&& p)) &&& q = a &&& q := by
  apply UInt8.toBitVec_inj.1
  ext i hi
  have hbit : (p.toBitVec &&& q.toBitVec)[i] = false := by
    rw [← UInt8.toBitVec_and, h]
    simp
  rw [BitVec.getElem_and, Bool.and_eq_false_iff] at hbit
  rcases hbit with hp | hq
  · simp [hp]
  · simp [hq]

theorem and_coverFirst {first bits : UInt8} (mask : Mask)
    (h : (HeaderForm.ofFirstByte first).protectedBits &&& bits = 0) :
    coverFirst first mask &&& bits = first &&& bits :=
  xor_and_of_disjoint h

/-- The form of a header is not hidden. -/
theorem ofFirstByte_coverFirst (first : UInt8) (mask : Mask) :
    HeaderForm.ofFirstByte (coverFirst first mask) = HeaderForm.ofFirstByte first := by
  have hbits : (HeaderForm.ofFirstByte first).protectedBits &&& 0x80 = 0 := by
    cases HeaderForm.ofFirstByte first <;> decide
  unfold HeaderForm.ofFirstByte
  rw [and_coverFirst mask hbits]

/-- The fixed bit is not hidden. -/
theorem isFixed_coverFirst (first : UInt8) (mask : Mask) :
    FirstByte.isFixed (coverFirst first mask) = FirstByte.isFixed first := by
  have hbits : (HeaderForm.ofFirstByte first).protectedBits &&& 0x40 = 0 := by
    cases HeaderForm.ofFirstByte first <;> decide
  unfold FirstByte.isFixed
  rw [and_coverFirst mask hbits]

/-- The type bits of a long header are not hidden. -/
theorem typeBits_coverFirst {first : UInt8} (h : HeaderForm.ofFirstByte first = .long)
    (mask : Mask) : FirstByte.typeBits (coverFirst first mask) = FirstByte.typeBits first := by
  have hbits : (HeaderForm.ofFirstByte first).protectedBits &&& 0x30 = 0 := by
    rw [h]
    decide
  unfold FirstByte.typeBits
  rw [and_coverFirst mask hbits]

/-- Covering twice changes nothing. -/
theorem coverFirst_coverFirst (first : UInt8) (mask : Mask) :
    coverFirst (coverFirst first mask) mask = first := by
  have hform := ofFirstByte_coverFirst first mask
  unfold coverFirst at hform ⊢
  rw [hform, UInt8.xor_assoc, UInt8.xor_self, UInt8.xor_zero]

/-! ## The packet number -/

/-- A header is the bytes up to the packet number, the packet number and what follows. -/
theorem coverNumber_eq (front : Bytes) {number : Bytes} {width : PacketNumber.Width}
    (h : number.length = width.bytes) (after : Bytes) (mask : Mask) :
    coverNumber (front ++ number ++ after) front.length width mask =
      .ok (front ++ Bytes.xor number mask.number.val ++ after) := by
  have hroom : front.length + width.bytes ≤ (front ++ number ++ after).length := by
    simp only [List.length_append]
    omega
  have hdrop : (front ++ number ++ after).drop (front.length + width.bytes) = after := by
    rw [← h, ← List.length_append, List.drop_left]
  have htake : ((front ++ number ++ after).drop front.length).take width.bytes = number := by
    rw [List.append_assoc, List.drop_left, ← h, List.take_left]
  rw [coverNumber, if_pos hroom, hdrop, htake, List.append_assoc front, List.take_left]

theorem length_xor_number {number : Bytes} {width : PacketNumber.Width}
    (h : number.length = width.bytes) (mask : Mask) :
    (Bytes.xor number mask.number.val).length = width.bytes := by
  have hwidth := width.bytes_le
  rw [Bytes.length_xor, mask.number.property, h]
  omega

/-! ## Masks -/

/-- A sample that is long enough has a mask. -/
theorem exists_maskFor (m : HeaderMask) {sample : Bytes} (h : sampleLength ≤ sample.length) :
    ∃ mask, m.maskFor sample = .ok mask := by
  have htake : (sample.take sampleLength).length = sampleLength := by
    rw [List.length_take, Nat.min_eq_left h]
  exact ⟨_, dif_pos htake⟩

theorem maskFor_of_lt (m : HeaderMask) {sample : Bytes} (h : sample.length < sampleLength) :
    m.maskFor sample = .error (.crypto (.sampleTooShort sampleLength sample.length)) := by
  have htake : (sample.take sampleLength).length ≠ sampleLength := by
    rw [List.length_take]
    omega
  exact dif_neg htake

/-! ## Whole headers -/

/-- What protection does to a header, whatever follows its packet number. -/
theorem apply_append {m : HeaderMask} {first : UInt8} (front : Bytes) {number sample : Bytes}
    {mask : Mask} (hmask : m.maskFor sample = .ok mask)
    (hnumber : number.length = (PacketNumber.Width.ofFirstByte first).bytes) (after : Bytes) :
    m.apply (first :: front ++ number ++ after) (front.length + 1) sample =
      .ok (coverFirst first mask :: front ++ Bytes.xor number mask.number.val ++ after) := by
  have hcover := coverNumber_eq (first :: front) hnumber after mask
  simp only [List.length_cons] at hcover
  simp only [List.cons_append] at hcover ⊢
  simp only [apply, hmask, bind, Except.bind, hcover]
  rfl

/-- What protection does to a header that ends with its packet number. -/
theorem apply_eq {m : HeaderMask} {first : UInt8} (front : Bytes) {number sample : Bytes}
    {mask : Mask} (hmask : m.maskFor sample = .ok mask)
    (hnumber : number.length = (PacketNumber.Width.ofFirstByte first).bytes) :
    m.apply (first :: front ++ number) (front.length + 1) sample =
      .ok (coverFirst first mask :: front ++ Bytes.xor number mask.number.val) := by
  have happly := apply_append front hmask hnumber []
  rwa [List.append_nil, List.append_nil] at happly

/-- A header whose protection is taken off is the header that was protected, whatever follows it. -/
theorem remove_eq {m : HeaderMask} {first : UInt8} (front : Bytes) {number sample : Bytes}
    {mask : Mask} (hmask : m.maskFor sample = .ok mask)
    (hnumber : number.length = (PacketNumber.Width.ofFirstByte first).bytes) (after : Bytes) :
    m.remove (coverFirst first mask :: front ++ Bytes.xor number mask.number.val ++ after)
        (front.length + 1) sample =
      .ok (PacketNumber.Width.ofFirstByte first, first :: front ++ number ++ after) := by
  have hcover := coverNumber_eq (coverFirst first mask :: front)
    (length_xor_number hnumber mask) after mask
  have hcancel : Bytes.xor (Bytes.xor number mask.number.val) mask.number.val = number := by
    have hwidth := (PacketNumber.Width.ofFirstByte first).bytes_le
    exact Bytes.xor_xor_cancel _ _ (by rw [mask.number.property]; omega)
  simp only [List.length_cons] at hcover
  rw [hcancel] at hcover
  simp only [List.cons_append] at hcover ⊢
  simp only [remove, hmask, bind, Except.bind, coverFirst_coverFirst, hcover]
  rfl

/-! ## What a header was -/

/-- A packet number is covered where it is. -/
theorem coverNumber_eq_ok {header covered : Bytes} {offset : Nat} {width : PacketNumber.Width}
    {mask : Mask} (h : coverNumber header offset width mask = .ok covered) :
    ∃ front number after, header = front ++ number ++ after ∧ front.length = offset
      ∧ number.length = width.bytes
      ∧ covered = front ++ Bytes.xor number mask.number.val ++ after := by
  unfold coverNumber at h
  split at h
  · next hroom =>
    injection h with h
    refine ⟨header.take offset, (header.drop offset).take width.bytes,
      header.drop (offset + width.bytes), ?_, ?_, ?_, h.symm⟩
    · rw [List.append_assoc, ← List.drop_drop, List.take_append_drop, List.take_append_drop]
    · rw [List.length_take]
      omega
    · rw [List.length_take, List.length_drop]
      omega
  · cases h

/-- A header with a mask over it is what the mask makes of its first byte and its packet number. -/
theorem apply_eq_ok {m : HeaderMask} {header covered sample : Bytes} {offset : Nat}
    (hoffset : 1 ≤ offset) (h : m.apply header offset sample = .ok covered) :
    ∃ first front number after mask, m.maskFor sample = .ok mask
      ∧ offset = front.length + 1
      ∧ number.length = (PacketNumber.Width.ofFirstByte first).bytes
      ∧ header = first :: front ++ number ++ after
      ∧ covered = coverFirst first mask :: front ++ Bytes.xor number mask.number.val ++ after := by
  cases header with
  | nil => cases h
  | cons first rest =>
    obtain ⟨mask, hmask, h⟩ := Result.bind_eq_ok.1 h
    obtain ⟨numbered, hcover, h⟩ := Result.bind_eq_ok.1 h
    obtain ⟨before, number, after, hheader, hbefore, hnumber, rfl⟩ := coverNumber_eq_ok hcover
    cases before with
    | nil =>
      rw [List.length_nil] at hbefore
      omega
    | cons b front =>
      injection hheader with hb hrest
      subst hb
      injection h with h
      exact ⟨first, front, number, after, mask, hmask, hbefore.symm, hnumber,
        congrArg (first :: ·) hrest, h.symm⟩

/-- A header from which a mask was taken off is what the mask makes of the header underneath and of
whatever follows it. -/
theorem remove_eq_ok {m : HeaderMask} {header bare sample : Bytes} {offset : Nat}
    {width : PacketNumber.Width} (hoffset : 1 ≤ offset)
    (h : m.remove header offset sample = .ok (width, bare)) :
    ∃ first front number after mask, m.maskFor sample = .ok mask
      ∧ offset = front.length + 1
      ∧ width = PacketNumber.Width.ofFirstByte first
      ∧ number.length = width.bytes
      ∧ bare = first :: front ++ number ++ after
      ∧ header = coverFirst first mask :: front ++ Bytes.xor number mask.number.val ++ after := by
  cases header with
  | nil => cases h
  | cons covered rest =>
    obtain ⟨mask, hmask, h⟩ := Result.bind_eq_ok.1 h
    obtain ⟨uncovered, hcover, h⟩ := Result.bind_eq_ok.1 h
    injection h with h
    injection h with hwidth hbare
    obtain ⟨before, hidden, after, hheader, hbefore, hhidden, rfl⟩ := coverNumber_eq_ok hcover
    -- the packet number does not start at the first byte, so the first byte is in front of it
    cases before with
    | nil =>
      rw [List.length_nil] at hbefore
      omega
    | cons b front =>
      injection hheader with hb hrest
      subst hb
      rw [hwidth] at hhidden
      have hcancel : Bytes.xor (Bytes.xor hidden mask.number.val) mask.number.val = hidden := by
        have hle := width.bytes_le
        exact Bytes.xor_xor_cancel _ _ (by rw [mask.number.property]; omega)
      refine ⟨coverFirst covered mask, front, Bytes.xor hidden mask.number.val, after, mask, hmask,
        hbefore.symm, hwidth.symm, length_xor_number hhidden mask, hbare.symm, ?_⟩
      rw [hcancel, coverFirst_coverFirst, hrest]
      rfl

end HeaderMask

end QuicTransport
