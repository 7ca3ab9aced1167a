import Mathlib.Data.List.Chain
import QuicTransport.Proofs.FrameCodec

set_option autoImplicit false

/-! # Sequences of frames survive the wire

Frames are written one after the other with nothing between them, and only the reader decides where
one ends. Padding is where the two disagree: the writer knows how many padding frames it wrote, and
the reader sees nothing but a run of zero bytes. What comes back is the sequence with each run of
padding frames merged into one (`Frame.mergePadding`).

The reader may therefore be in the middle of a run when the writer starts a new frame, and the
induction over the frames is made for every number of zero bytes in front of them. -/

namespace QuicTransport.Frame

/-! ## Merging padding -/

/-- Put padding in front of frames, into the padding that is already there if there is some. -/
def addPadding (length : Nat) : List Frame → List Frame
  | .padding more :: fs => .padding (length + more) :: fs
  | fs => .padding length :: fs

/-- The frames with each run of padding made into one frame as long as all of them. -/
def mergePadding : List Frame → List Frame
  | [] => []
  | .padding length :: fs => addPadding length (mergePadding fs)
  | f :: fs => f :: mergePadding fs

theorem addPadding_cons {f : Frame} (h : f.isPadding = false) (length : Nat) (fs : List Frame) :
    addPadding length (f :: fs) = .padding length :: f :: fs := by
  cases f with
  | padding more => cases h
  | _ => rfl

theorem addPadding_addPadding (n m : Nat) (fs : List Frame) :
    addPadding n (addPadding m fs) = addPadding (n + m) fs := by
  cases fs with
  | nil => rfl
  | cons f fs =>
    rcases f.isPadding_cases with hpadding | ⟨more, rfl⟩
    · rw [addPadding_cons hpadding, addPadding_cons hpadding]
      rfl
    · simp only [addPadding, Nat.add_assoc]

theorem mergePadding_cons {f : Frame} (h : f.isPadding = false) (fs : List Frame) :
    mergePadding (f :: fs) = f :: mergePadding fs := by
  cases f with
  | padding more => cases h
  | _ => rfl

/-- At least one of two frames is not padding. -/
def NotBothPadding (f g : Frame) : Prop := f.isPadding = false ∨ g.isPadding = false

theorem isChain_addPadding {fs : List Frame} (h : fs.IsChain NotBothPadding) (length : Nat) :
    (addPadding length fs).IsChain NotBothPadding := by
  cases fs with
  | nil => exact .singleton _
  | cons f fs =>
    rcases f.isPadding_cases with hpadding | ⟨more, rfl⟩
    · rw [addPadding_cons hpadding]
      exact .cons_cons (Or.inr hpadding) h
    · cases fs with
      | nil => exact .singleton _
      | cons g fs =>
        rw [List.isChain_cons_cons] at h
        exact .cons_cons (h.1.imp_left id) h.2

/-- Merging leaves no two padding frames next to each other. -/
theorem isChain_mergePadding (fs : List Frame) :
    (mergePadding fs).IsChain NotBothPadding := by
  induction fs with
  | nil => exact .nil
  | cons f fs ih =>
    rcases f.isPadding_cases with hpadding | ⟨length, rfl⟩
    · rw [mergePadding_cons hpadding]
      cases hmerged : mergePadding fs with
      | nil => exact .singleton _
      | cons g gs => exact .cons_cons (Or.inl hpadding) (hmerged ▸ ih)
    · exact isChain_addPadding ih length

theorem isPadding_settled (f : Frame) : f.settled.isPadding = f.isPadding := by
  cases f <;> rfl

/-! ## One frame after the other -/

theorem decodeEach_nil : decodeEach [] = [] := by
  rw [decodeEach]

theorem decodeEach_of_decode {bs rest : Bytes} {f : Frame} (h : decode bs = .ok (f, rest)) :
    decodeEach bs = .ok f :: decodeEach rest := by
  have hlength := decode_shortens h
  cases bs with
  | nil => cases hlength
  | cons b bs =>
    rw [decodeEach]
    split
    · next g after hdecode =>
      rw [h] at hdecode
      cases hdecode
      rfl
    · next e hdecode =>
      rw [h] at hdecode
      cases hdecode

theorem decodeAll_nil : decodeAll [] = .ok [] := by
  rw [decodeAll, decodeEach_nil]
  rfl

theorem decodeAll_of_decode {bs rest : Bytes} {f : Frame} {fs : List Frame}
    (h : decode bs = .ok (f, rest)) (hrest : decodeAll rest = .ok fs) :
    decodeAll bs = .ok (f :: fs) := by
  rw [decodeAll] at hrest ⊢
  rw [decodeEach_of_decode h, List.mapM_cons, hrest]
  rfl

/-- Bytes that are there are part of a frame. -/
theorem isEmpty_of_decodeAll {payload : Bytes} {frames : List Frame} (hpayload : payload ≠ [])
    (h : decodeAll payload = .ok frames) : frames.isEmpty = false := by
  obtain ⟨b, bs, rfl⟩ := List.exists_cons_of_ne_nil hpayload
  obtain ⟨first, others, hcons⟩ : ∃ first others, decodeEach (b :: bs) = first :: others := by
    rw [decodeEach]
    split <;> exact ⟨_, _, rfl⟩
  rw [decodeAll, hcons, List.mapM_cons] at h
  obtain ⟨f, _, h⟩ := Result.bind_eq_ok.1 h
  obtain ⟨fs, _, h⟩ := Result.bind_eq_ok.1 h
  injection h with h
  rw [← h]
  rfl

/-- Zero bytes in front of a frame that is not padding are read by themselves. -/
theorem decodeAll_padding {first : UInt8} {bs : Bytes} {fs : List Frame} (hfirst : first ≠ 0)
    (h : decodeAll (first :: bs) = .ok fs) (length : Nat) :
    decodeAll (List.replicate (length + 1) 0 ++ first :: bs) =
      .ok (.padding (length + 1) :: fs) := by
  refine decodeAll_of_decode (decode_padding length ?_) h
  intro b hb
  injection hb with hb
  rwa [← hb]

/-! ## All frames -/

/-- The parts are the frames as they are written, and reading them together gives the frames,
whether or not the reader is in the middle of a run of zero bytes. -/
structure Survives (fs : List Frame) (parts : List Bytes) : Prop where
  encode : fs.map Frame.encode = parts.map .ok
  decode : decodeAll parts.flatten = .ok (mergePadding (fs.map settled))
  /-- Zero bytes in front are read as padding, together with padding that follows. -/
  decode_zeros : ∀ n, decodeAll (List.replicate (n + 1) 0 ++ parts.flatten) =
    .ok (addPadding (n + 1) (mergePadding (fs.map settled)))

theorem survives_nil : Survives [] [] where
  encode := rfl
  decode := decodeAll_nil
  decode_zeros := fun n => decodeAll_of_decode (decode_padding n (by simp)) decodeAll_nil

/-- Padding makes the run in front of the other frames longer. -/
theorem Survives.padding {fs : List Frame} {parts : List Bytes} (h : Survives fs parts)
    (length : Nat) :
    Survives (.padding (length + 1) :: fs) (List.replicate (length + 1) 0 :: parts) where
  encode := by rw [List.map_cons, List.map_cons, encode_padding, h.encode]
  decode := by
    rw [List.flatten_cons, h.decode_zeros]
    rfl
  decode_zeros := by
    intro n
    have hzeros : List.replicate (n + 1) (0 : UInt8) ++ List.replicate (length + 1) 0 =
        List.replicate (n + 1 + length + 1) 0 := List.replicate_append_replicate
    rw [List.flatten_cons, ← List.append_assoc, hzeros, h.decode_zeros]
    exact congrArg Except.ok (addPadding_addPadding (n + 1) (length + 1) _).symm

theorem Survives.cons {fs : List Frame} {parts : List Bytes} (h : Survives fs parts) {f : Frame}
    (hvalid : f.WireValid) (hpadding : f.isPadding = false)
    (hend : f.isOpenEnded = true → parts = []) : ∃ part, Survives (f :: fs) (part :: parts) := by
  obtain ⟨first, bs, hencode, hfirst, hdecode⟩ :=
    encode_decode_of_isPadding_eq_false hvalid hpadding
      (show f.isOpenEnded = true → parts.flatten = [] from fun hopen => by rw [hend hopen]; rfl)
  have hsettled : f.settled.isPadding = false := by rw [isPadding_settled, hpadding]
  have hread := decodeAll_of_decode hdecode h.decode
  refine ⟨first :: bs, ?_, ?_, ?_⟩
  · rw [List.map_cons, List.map_cons, hencode, h.encode]
  · rw [List.flatten_cons, List.map_cons, mergePadding_cons hsettled, hread]
  · intro n
    rw [List.flatten_cons, List.map_cons, mergePadding_cons hsettled, addPadding_cons hsettled]
    exact decodeAll_padding hfirst hread n

theorem exists_survives {fs : List Frame} (hvalid : ∀ f ∈ fs, f.WireValid)
    (hopen : ∀ f ∈ fs.dropLast, f.isOpenEnded = false) : ∃ parts, Survives fs parts := by
  induction fs with
  | nil => exact ⟨[], survives_nil⟩
  | cons f fs ih =>
    have hinit : ∀ g ∈ fs.dropLast, g.isOpenEnded = false := by
      intro g hg
      cases fs with
      | nil => cases hg
      | cons => exact hopen g (List.mem_cons_of_mem _ hg)
    obtain ⟨parts, hparts⟩ := ih (fun g hg => hvalid g (List.mem_cons_of_mem _ hg)) hinit
    have hf := hvalid f List.mem_cons_self
    -- padding runs into what follows, any other frame stands by itself
    rcases f.isPadding_cases with hpadding | ⟨length, rfl⟩
    · obtain ⟨part, hpart⟩ := hparts.cons hf hpadding (by
        intro hend
        cases fs with
        | nil => exact List.map_eq_nil_iff.1 hparts.encode.symm
        | cons g gs =>
          have hclosed := hopen f List.mem_cons_self
          rw [hend] at hclosed
          cases hclosed)
      exact ⟨_, hpart⟩
    · obtain ⟨length, rfl⟩ := Nat.exists_eq_succ_of_ne_zero (Nat.ne_of_gt hf)
      exact ⟨_, hparts.padding length⟩

/-- A sequence of frames that the wire can carry is written and read back in order. Runs of padding
are merged, positions that are written count as requested, and nothing else changes. -/
theorem decodeAll_flatten_encode {fs : List Frame} (hvalid : ∀ f ∈ fs, f.WireValid)
    (hopen : ∀ f ∈ fs.dropLast, f.isOpenEnded = false) :
    ∃ parts : List Bytes, fs.map Frame.encode = parts.map .ok
      ∧ decodeAll parts.flatten = .ok (mergePadding (fs.map settled)) := by
  obtain ⟨parts, hparts⟩ := exists_survives hvalid hopen
  exact ⟨parts, hparts.encode, hparts.decode⟩

/-- Two padding frames, a piece of the handshake and data up to the end of the packet. -/
theorem decodeAll_flatten_encode_of_padding :
    ∃ parts : List Bytes,
      [padding 2, padding 1, crypto 5 [7, 8],
        stream ⟨4, 9, false, false, true, [1]⟩].map Frame.encode = parts.map .ok
      ∧ decodeAll parts.flatten =
        .ok [padding 3, crypto 5 [7, 8], stream ⟨4, 9, true, false, true, [1]⟩] := by
  refine decodeAll_flatten_encode ?_ (by decide)
  intro f hf
  simp only [List.mem_cons, List.not_mem_nil, or_false] at hf
  rcases hf with rfl | rfl | rfl | rfl
  · exact Nat.succ_pos _
  · exact Nat.succ_pos _
  · change 5 + [7, 8].length ≤ lastPosition
    decide
  · change 4 < 0x4000000000000000 ∧ 9 + [1].length ≤ lastPosition
    decide

end QuicTransport.Frame
