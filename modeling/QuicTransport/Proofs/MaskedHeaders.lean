import QuicTransport.Proofs.FirstByte
import QuicTransport.Proofs.HeaderMasking

set_option autoImplicit false

/-! # Masking is a bijection on headers

Masking a header and taking the mask off again give the header back, and so does the other order.
The two do not know the same: the width of the packet number is in the clear for one, and under the
mask for the other. What makes them fit is that the packet number does not start at the first byte,
so that masking it leaves the width alone.

Neither of them touches anything else (`HeaderMask.Alters`). Both are refused for one of three
reasons (`HeaderMask.Refusal`).

Whoever protects a packet does so in the buffer that holds it, and changes the packet number before
the first byte (`HeaderMask.applyIn`, `HeaderMask.removeIn`). All that can fail comes before the
first change, so a header that is refused stays as it was. -/

namespace QuicTransport

namespace FirstByte

/-- The bits of a first byte that header protection leaves in the clear: all but the low four in a
long header, and all but the low five in a short one. -/
def openBits (first : UInt8) : UInt8 := if first.toNat.testBit 7 then 0xf0 else 0xe0

theorem protectedBits_and_openBits (first : UInt8) :
    (HeaderForm.ofFirstByte first).protectedBits &&& openBits first = 0 := by
  rw [openBits]
  cases h : HeaderForm.ofFirstByte first with
  | long =>
    rw [HeaderForm.ofFirstByte_eq_long_iff.1 h]
    decide
  | short =>
    rw [HeaderForm.ofFirstByte_eq_short_iff.1 h]
    decide

end FirstByte

namespace HeaderMask

/-! ## What changes -/

/-- Two headers differ at most in the protected bits of the first byte and in a packet number of a
given width. -/
structure Alters (offset : Nat) (width : PacketNumber.Width) (old new : Bytes) : Prop where
  length : new.length = old.length
  form : (new.headD 0).toNat.testBit 7 = (old.headD 0).toNat.testBit 7
  openBits : new.headD 0 &&& FirstByte.openBits (old.headD 0) =
    old.headD 0 &&& FirstByte.openBits (old.headD 0)
  getElem? : ∀ i, 0 < i → i < offset ∨ offset + width.bytes ≤ i → new[i]? = old[i]?

/-- Behind the first byte only the packet number differs. -/
theorem getElem?_eq_of_outside (b c : UInt8) (front after : Bytes) {number number' : Bytes}
    (h : number'.length = number.length) {i : Nat} (hpos : 0 < i)
    (hi : i < front.length + 1 ∨ front.length + 1 + number.length ≤ i) :
    (b :: front ++ number' ++ after)[i]? = (c :: front ++ number ++ after)[i]? := by
  obtain ⟨j, rfl⟩ : ∃ j, i = j + 1 := ⟨i - 1, by omega⟩
  simp only [List.cons_append, List.getElem?_cons_succ, List.append_assoc]
  rcases hi with hi | hi
  · rw [List.getElem?_append_left (by omega), List.getElem?_append_left (by omega)]
  · have hskip : ∀ n : Bytes, n.length = number.length →
        (front ++ (n ++ after))[j]? = after[j - front.length - number.length]? := by
      intro n hn
      rw [List.getElem?_append_right (by omega), List.getElem?_append_right (by omega), hn]
    rw [hskip number' h, hskip number rfl]

theorem testBit_coverFirst (first : UInt8) (mask : Mask) :
    (coverFirst first mask).toNat.testBit 7 = first.toNat.testBit 7 := by
  rw [Bool.eq_iff_iff, ← HeaderForm.ofFirstByte_eq_long_iff, ← HeaderForm.ofFirstByte_eq_long_iff,
    ofFirstByte_coverFirst]

theorem alters_coverFirst (first : UInt8) (front after : Bytes) {number : Bytes}
    {width : PacketNumber.Width} (h : number.length = width.bytes) (mask : Mask) :
    Alters (front.length + 1) width (first :: front ++ number ++ after)
      (coverFirst first mask :: front ++ Bytes.xor number mask.number.val ++ after) where
  length := by simp [length_xor_number h mask, h]
  form := testBit_coverFirst first mask
  openBits := and_coverFirst mask (FirstByte.protectedBits_and_openBits _)
  getElem? := by
    intro i hpos hi
    have hlength := length_xor_number h mask
    exact getElem?_eq_of_outside _ _ front after (hlength.trans h.symm) hpos (h.symm ▸ hi)

variable {m : HeaderMask} {header covered bare sample : Bytes} {offset : Nat}
  {width : PacketNumber.Width}

theorem alters_of_apply (hoffset : 1 ≤ offset) (h : m.apply header offset sample = .ok covered) :
    Alters offset (.ofFirstByte (header.headD 0)) header covered := by
  obtain ⟨first, front, number, after, mask, _, rfl, hnumber, rfl, rfl⟩ := apply_eq_ok hoffset h
  exact alters_coverFirst first front after hnumber mask

theorem Alters.symm {old new : Bytes} (h : Alters offset width old new) :
    Alters offset width new old where
  length := h.length.symm
  form := h.form.symm
  openBits := by rw [FirstByte.openBits, h.form, ← FirstByte.openBits, h.openBits]
  getElem? i hpos hi := (h.getElem? i hpos hi).symm

theorem alters_of_remove (hoffset : 1 ≤ offset)
    (h : m.remove header offset sample = .ok (width, bare)) : Alters offset width header bare := by
  obtain ⟨first, front, number, after, mask, _, rfl, rfl, hnumber, rfl, rfl⟩ :=
    remove_eq_ok hoffset h
  exact (alters_coverFirst first front after hnumber mask).symm

/-! ## There and back -/

/-- A header that holds its packet number can be masked, and the mask can be taken off. -/
theorem exists_apply (m : HeaderMask) {first : UInt8} {rest : Bytes}
    (hsample : sampleLength ≤ sample.length) (hoffset : 1 ≤ offset)
    (hroom : offset + (PacketNumber.Width.ofFirstByte first).bytes ≤ (first :: rest).length) :
    ∃ covered, m.apply (first :: rest) offset sample = .ok covered
      ∧ m.remove covered offset sample = .ok (.ofFirstByte first, first :: rest) := by
  obtain ⟨mask, hmask⟩ := m.exists_maskFor hsample
  obtain ⟨covered, hcovered⟩ : ∃ covered,
      coverNumber (first :: rest) offset (.ofFirstByte first) mask = .ok covered :=
    ⟨_, if_pos hroom⟩
  obtain ⟨before, number, after, hheader, rfl, hnumber, _⟩ := coverNumber_eq_ok hcovered
  cases before with
  | nil => cases hoffset
  | cons b front =>
    obtain ⟨rfl, _⟩ := List.cons.inj hheader
    rw [hheader]
    exact ⟨_, apply_append front hmask hnumber after, remove_eq front hmask hnumber after⟩

/-- A mask that was taken off can be put on again. -/
theorem apply_of_remove (hoffset : 1 ≤ offset)
    (h : m.remove header offset sample = .ok (width, bare)) :
    m.apply bare offset sample = .ok header := by
  obtain ⟨first, front, number, after, mask, hmask, rfl, rfl, hnumber, rfl, rfl⟩ :=
    remove_eq_ok hoffset h
  exact apply_append front hmask hnumber after

/-! ## Refusals -/

/-- Why a header cannot be masked, or its mask not be taken off. The mask may decide how wide the
packet number is. -/
inductive Refusal (m : HeaderMask) (header : Bytes) (offset : Nat) (sample : Bytes)
    (width : Mask → PacketNumber.Width) : Error → Prop
  | emptyHeader (h : header = []) :
    Refusal m header offset sample width (.malformedPacket "empty header")
  | shortSample (hheader : header ≠ []) (h : sample.length < sampleLength) :
    Refusal m header offset sample width
      (.crypto (.sampleTooShort sampleLength sample.length))
  | shortHeader (hheader : header ≠ []) {mask : Mask} (hmask : m.maskFor sample = .ok mask)
    (h : header.length < offset + (width mask).bytes) :
    Refusal m header offset sample width (.malformedPacket "header shorter than packet number")

theorem maskFor_eq_error {e : Error} :
    m.maskFor sample = .error e ↔
      sample.length < sampleLength
        ∧ e = .crypto (.sampleTooShort sampleLength sample.length) := by
  rcases Nat.lt_or_ge sample.length sampleLength with hshort | hlong
  · simp [m.maskFor_of_lt hshort, hshort, eq_comm]
  · obtain ⟨mask, hmask⟩ := m.exists_maskFor hlong
    simp [hmask, Nat.not_lt.2 hlong]

theorem coverNumber_eq_error {mask : Mask} {e : Error} :
    coverNumber header offset width mask = .error e ↔
      header.length < offset + width.bytes
        ∧ e = .malformedPacket "header shorter than packet number" := by
  unfold coverNumber
  split
  · next hroom => simp [Nat.not_lt.2 hroom]
  · next hroom => simp [Nat.not_le.1 hroom, eq_comm]

/-- Both operations lay a mask over the packet number, where they think it is. -/
theorem laid_eq_error_iff {α : Type} (finish : Mask → Bytes → α)
    (locate : Mask → PacketNumber.Width) (hheader : header ≠ []) {e : Error} :
    (do
      let mask ← m.maskFor sample
      let numbered ← coverNumber header offset (locate mask) mask
      return finish mask numbered : Result α) = .error e ↔
        Refusal m header offset sample locate e := by
  rw [Result.bind_eq_error, maskFor_eq_error]
  constructor
  · rintro (⟨hshort, rfl⟩ | ⟨mask, hmask, h⟩)
    · exact .shortSample hheader hshort
    · rw [Result.bind_eq_error, coverNumber_eq_error] at h
      rcases h with ⟨hroom, rfl⟩ | ⟨_, _, ⟨⟩⟩
      exact .shortHeader hheader hmask hroom
  · intro h
    cases h with
    | emptyHeader h => exact absurd h hheader
    | shortSample _ h => exact Or.inl ⟨h, rfl⟩
    | shortHeader _ hmask h =>
      exact Or.inr ⟨_, hmask, Result.bind_eq_error.2 (Or.inl (coverNumber_eq_error.2 ⟨h, rfl⟩))⟩

theorem refusal_nil_iff {locate : Mask → PacketNumber.Width} {e : Error} :
    Refusal m [] offset sample locate e ↔ .malformedPacket "empty header" = e := by
  constructor
  · rintro (_ | ⟨hheader, _⟩ | ⟨hheader, _, _⟩)
    · rfl
    · exact absurd rfl hheader
    · exact absurd rfl hheader
  · rintro rfl
    exact .emptyHeader rfl

theorem apply_eq_error {e : Error} :
    m.apply header offset sample = .error e ↔
      Refusal m header offset sample (fun _ => .ofFirstByte (header.headD 0)) e := by
  cases header with
  | nil => rw [refusal_nil_iff, apply, Except.error.injEq]
  | cons first rest =>
    exact laid_eq_error_iff
      (fun mask numbered => numbered.modifyHead fun b =>
        b ^^^ (mask.first &&& (HeaderForm.ofFirstByte first).protectedBits))
      (fun _ => .ofFirstByte first) (List.cons_ne_nil first rest)

theorem remove_eq_error {e : Error} :
    m.remove header offset sample = .error e ↔
      Refusal m header offset sample
        (fun mask => .ofFirstByte (coverFirst (header.headD 0) mask)) e := by
  cases header with
  | nil => rw [refusal_nil_iff, remove, Except.error.injEq]
  | cons first rest =>
    exact laid_eq_error_iff
      (fun mask numbered => (PacketNumber.Width.ofFirstByte (coverFirst first mask),
        numbered.modifyHead fun _ => coverFirst first mask))
      (fun mask => .ofFirstByte (coverFirst first mask)) (List.cons_ne_nil first rest)

/-! ## In place -/

/-- Lay a mask over the bytes of a buffer from a position on, one byte after the other. -/
def xorFrom (buffer : Bytes) (i : Nat) : Bytes → Bytes
  | [] => buffer
  | b :: mask => xorFrom (buffer.modify i (· ^^^ b)) (i + 1) mask

/-- Lay a mask over the packet number in a buffer. -/
def coverNumberIn (buffer : Bytes) (offset : Nat) (width : PacketNumber.Width) (mask : Mask) :
    Result Unit × Bytes :=
  if offset + width.bytes ≤ buffer.length then
    (.ok (), xorFrom buffer offset (mask.number.val.take width.bytes))
  else (.error (.malformedPacket "header shorter than packet number"), buffer)

/-- Protect a header in the buffer that holds it: first the packet number, then the first byte. -/
def applyIn (m : HeaderMask) (buffer : Bytes) (offset : Nat) (sample : Bytes) :
    Result Unit × Bytes :=
  match buffer.head?, m.maskFor sample with
  | none, _ => (.error (.malformedPacket "empty header"), buffer)
  | some _, .error e => (.error e, buffer)
  | some first, .ok mask =>
    match coverNumberIn buffer offset (.ofFirstByte first) mask with
    | (.error e, left) => (.error e, left)
    | (.ok _, numbered) =>
      (.ok (), numbered.modify 0
        (· ^^^ (mask.first &&& (HeaderForm.ofFirstByte first).protectedBits)))

/-- Take the protection off a header in the buffer that holds it. The first byte is uncovered aside,
and comes back to the buffer after the packet number. -/
def removeIn (m : HeaderMask) (buffer : Bytes) (offset : Nat) (sample : Bytes) :
    Result PacketNumber.Width × Bytes :=
  match buffer.head?, m.maskFor sample with
  | none, _ => (.error (.malformedPacket "empty header"), buffer)
  | some _, .error e => (.error e, buffer)
  | some first, .ok mask =>
    let bare := coverFirst first mask
    let width := PacketNumber.Width.ofFirstByte bare
    match coverNumberIn buffer offset width mask with
    | (.error e, left) => (.error e, left)
    | (.ok _, numbered) => (.ok width, numbered.set 0 bare)

theorem modify_length (front after : Bytes) (b : UInt8) (f : UInt8 → UInt8) :
    (front ++ b :: after).modify front.length f = front ++ f b :: after := by
  induction front with
  | nil => rfl
  | cons c front ih => simp [ih]

theorem xorFrom_append (front after : Bytes) {number mask : Bytes}
    (h : number.length ≤ mask.length) :
    xorFrom (front ++ number ++ after) front.length (mask.take number.length) =
      front ++ Bytes.xor number mask ++ after := by
  induction number generalizing front mask with
  | nil => simp [xorFrom, Bytes.xor]
  | cons b number ih =>
    cases mask with
    | nil => cases h
    | cons c mask =>
      have hrest := ih (front ++ [b ^^^ c]) (Nat.le_of_succ_le_succ h)
      have hfirst := modify_length front (number ++ after) b (· ^^^ c)
      simpa [xorFrom, Bytes.xor, hfirst] using hrest

/-- In place or not, the same bytes are covered. -/
theorem coverNumberIn_eq (buffer : Bytes) (offset : Nat) (width : PacketNumber.Width)
    (mask : Mask) :
    coverNumberIn buffer offset width mask =
      match coverNumber buffer offset width mask with
      | .ok covered => (.ok (), covered)
      | .error e => (.error e, buffer) := by
  cases h : coverNumber buffer offset width mask with
  | ok covered =>
    obtain ⟨front, number, after, rfl, rfl, hnumber, rfl⟩ := coverNumber_eq_ok h
    have hroom : front.length + width.bytes ≤ (front ++ number ++ after).length := by
      simp only [List.length_append]
      omega
    have hmask : number.length ≤ mask.number.val.length := by
      have hwidth := width.bytes_le
      rw [mask.number.property]
      omega
    rw [coverNumberIn, if_pos hroom, ← hnumber, xorFrom_append front after hmask]
  | error e =>
    obtain ⟨hroom, rfl⟩ := coverNumber_eq_error.1 h
    exact if_neg (Nat.not_le.2 hroom)

theorem modifyHead_eq_modify (bs : Bytes) (f : UInt8 → UInt8) : bs.modifyHead f = bs.modify 0 f := by
  cases bs <;> rfl

theorem modifyHead_eq_set (bs : Bytes) (b : UInt8) : bs.modifyHead (fun _ => b) = bs.set 0 b := by
  cases bs <;> rfl

/-- A header is protected in place, or the buffer is left as it was. -/
theorem applyIn_eq (m : HeaderMask) (buffer : Bytes) (offset : Nat) (sample : Bytes) :
    m.applyIn buffer offset sample =
      match m.apply buffer offset sample with
      | .ok covered => (.ok (), covered)
      | .error e => (.error e, buffer) := by
  cases buffer with
  | nil => rfl
  | cons first rest =>
    simp only [applyIn, apply, List.head?_cons]
    cases m.maskFor sample with
    | error e => rfl
    | ok mask =>
      simp only [coverNumberIn_eq]
      cases h : coverNumber (first :: rest) offset (.ofFirstByte first) mask with
      | error e => simp [bind, Except.bind, h]
      | ok covered => simp [bind, Except.bind, h, modifyHead_eq_modify, pure, Except.pure]

/-- The protection is taken off in place, or the buffer is left as it was. -/
theorem removeIn_eq (m : HeaderMask) (buffer : Bytes) (offset : Nat) (sample : Bytes) :
    m.removeIn buffer offset sample =
      match m.remove buffer offset sample with
      | .ok (width, bare) => (.ok width, bare)
      | .error e => (.error e, buffer) := by
  cases buffer with
  | nil => rfl
  | cons first rest =>
    simp only [removeIn, remove, List.head?_cons]
    cases m.maskFor sample with
    | error e => rfl
    | ok mask =>
      simp only [coverNumberIn_eq]
      cases h : coverNumber (first :: rest) offset
          (.ofFirstByte (coverFirst first mask)) mask with
      | error e => simp [bind, Except.bind, h]
      | ok covered => simp [bind, Except.bind, h, modifyHead_eq_set, pure, Except.pure]

/-! ## Both operations -/

/-- Header protection is a bijection, whatever makes the masks. The two low bits of a first byte tell
how many bytes the packet number has. A header that holds its packet number is masked, and it comes
back when the mask is taken off; and where a mask can be taken off, what is found is masked to the
same bytes. Only the low bits of the first byte and the packet number change. The operations fail
for three reasons. In the buffer of a header they do the same, and a header that they refuse is
still there. -/
theorem masking_bijective (m : HeaderMask) (sample : Bytes) (offset : Nat) :
    (∀ first : UInt8, (PacketNumber.Width.ofFirstByte first).bytes = first.toNat % 4 + 1)
      ∧ (sampleLength ≤ sample.length → 1 ≤ offset → ∀ (first : UInt8) (rest : Bytes),
        offset + (PacketNumber.Width.ofFirstByte first).bytes ≤ (first :: rest).length →
          ∃ covered, m.apply (first :: rest) offset sample = .ok covered
            ∧ m.remove covered offset sample = .ok (.ofFirstByte first, first :: rest))
      ∧ (1 ≤ offset → ∀ (header bare : Bytes) (width : PacketNumber.Width),
        m.remove header offset sample = .ok (width, bare) →
          m.apply bare offset sample = .ok header ∧ Alters offset width header bare)
      ∧ (1 ≤ offset → ∀ header covered : Bytes, m.apply header offset sample = .ok covered →
        Alters offset (.ofFirstByte (header.headD 0)) header covered)
      ∧ (∀ (header : Bytes) (e : Error),
        (m.apply header offset sample = .error e ↔
            Refusal m header offset sample (fun _ => .ofFirstByte (header.headD 0)) e)
          ∧ (m.remove header offset sample = .error e ↔
            Refusal m header offset sample
              (fun mask => .ofFirstByte (coverFirst (header.headD 0) mask)) e)
          ∧ (m.apply header offset sample = .error e →
            m.applyIn header offset sample = (.error e, header))
          ∧ (m.remove header offset sample = .error e →
            m.removeIn header offset sample = (.error e, header)))
      ∧ ∀ header : Bytes,
        (∀ covered, m.apply header offset sample = .ok covered →
            m.applyIn header offset sample = (.ok (), covered))
          ∧ ∀ width bare, m.remove header offset sample = .ok (width, bare) →
            m.removeIn header offset sample = (.ok width, bare) := by
  refine ⟨PacketNumber.Width.bytes_ofFirstByte, ?_, ?_, ?_, ?_, ?_⟩
  · intro hsample hoffset first rest hroom
    exact exists_apply m hsample hoffset hroom
  · intro hoffset header bare width h
    exact ⟨apply_of_remove hoffset h, alters_of_remove hoffset h⟩
  · intro hoffset header covered h
    exact alters_of_apply hoffset h
  · intro header e
    refine ⟨apply_eq_error, remove_eq_error, fun h => ?_, fun h => ?_⟩
    · rw [applyIn_eq, h]
    · rw [removeIn_eq, h]
  · intro header
    refine ⟨fun covered h => ?_, fun width bare h => ?_⟩
    · rw [applyIn_eq, h]
    · rw [removeIn_eq, h]

/-- A mask of ones is laid over a short header with a packet number of two bytes. The masked first
byte tells a width of three, but with the mask taken off the two bytes are found again. Cut off
within the packet number, the masked header is refused and stays in its buffer. -/
theorem masking_bijective_short :
    (⟨.aes128, fun _ => ⟨0xff, ⟨[0xff, 0xff, 0xff, 0xff], rfl⟩⟩⟩ : HeaderMask).apply
        [0x41, 9, 1, 2, 7] 2 (List.replicate 16 0) = .ok [0x5e, 9, 0xfe, 0xfd, 7]
      ∧ (⟨.aes128, fun _ => ⟨0xff, ⟨[0xff, 0xff, 0xff, 0xff], rfl⟩⟩⟩ : HeaderMask).remove
        [0x5e, 9, 0xfe, 0xfd, 7] 2 (List.replicate 16 0) = .ok (.two, [0x41, 9, 1, 2, 7])
      ∧ Alters 2 .two [0x41, 9, 1, 2, 7] [0x5e, 9, 0xfe, 0xfd, 7]
      ∧ Alters 2 .two [0x5e, 9, 0xfe, 0xfd, 7] [0x41, 9, 1, 2, 7]
      ∧ (⟨.aes128, fun _ => ⟨0xff, ⟨[0xff, 0xff, 0xff, 0xff], rfl⟩⟩⟩ : HeaderMask).removeIn
          [0x5e, 9, 0xfe] 2 (List.replicate 16 0) =
        (.error (.malformedPacket "header shorter than packet number"), [0x5e, 9, 0xfe]) := by
  obtain ⟨_, hmasked, hremoved, haltered, hrefused, _⟩ :=
    masking_bijective ⟨.aes128, fun _ => ⟨0xff, ⟨[0xff, 0xff, 0xff, 0xff], rfl⟩⟩⟩
      (List.replicate 16 0) 2
  obtain ⟨covered, hcovered, hbare⟩ :=
    hmasked (by decide) (by decide) 0x41 [9, 1, 2, 7] (by decide)
  have heq : covered = [0x5e, 9, 0xfe, 0xfd, 7] := Except.ok.inj (hcovered.symm.trans (by rfl))
  subst heq
  exact ⟨hcovered, hbare, haltered (by decide) _ _ hcovered,
    (hremoved (by decide) _ _ _ hbare).2, (hrefused _ _).2.2.2 (by rfl)⟩

end HeaderMask

end QuicTransport
