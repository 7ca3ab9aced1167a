import QuicTransport.Proofs.FrameBoundaries
import QuicTransport.Proofs.FrameTiling

set_option autoImplicit false

/-! # Payloads written again

The frames of a payload can be written again, and what is read then are the same frames, up to
padding: two padding frames next to each other are written as one run of zero bytes, which is read
as one frame (`Frame.mergePadding`). After one round nothing changes any more.

A reader makes one frame out of zero bytes that follow each other, so such a pair seems to be
impossible. It comes about where padding begins anew with a type number of more than one byte: the
run of zero bytes ends there, although what follows it is padding as well (`ResumesPadding`). To see
that there is no other way, a payload is cut between two frames of it (`exists_cut`) and put
together again (`decodeEach_append`). What is read from the front part is the same with and without
the other part if its last frame stops there (`StopsBefore`): it has an end of its own, and padding
is not followed by a zero byte. -/

namespace QuicTransport.Frame

variable {p bs rest : Bytes} {f : Frame} {fs gs hs : List Frame}

/-! ## The frames of a payload -/

theorem decodeAll_eq_cons_iff :
    decodeAll p = .ok (f :: fs) ↔ ∃ rest, decode p = .ok (f, rest) ∧ decodeAll rest = .ok fs := by
  constructor
  · intro h
    rw [decodeAll_eq_ok_iff] at h
    cases hread : decode p with
    | error e =>
      have hp : p ≠ [] := by
        rintro rfl
        rw [decodeEach_nil] at h
        cases h
      rw [decodeEach_of_error hp hread] at h
      cases h
    | ok found =>
      obtain ⟨g, rest⟩ := found
      rw [decodeEach_of_decode hread] at h
      injection h with hf hrest
      injection hf with hf
      exact ⟨rest, by rw [hf], decodeAll_eq_ok_iff.2 hrest⟩
  · rintro ⟨rest, hread, hrest⟩
    exact decodeAll_of_decode hread hrest

theorem decodeAll_eq_nil_iff : decodeAll p = .ok [] ↔ p = [] := by
  constructor
  · intro h
    by_contra hp
    cases isEmpty_of_decodeAll hp h
  · rintro rfl
    exact decodeAll_nil

/-- A frame without an end of its own leaves nothing. -/
theorem eq_nil_of_isOpenEnded (h : decode bs = .ok (f, rest)) (hopen : f.isOpenEnded = true) :
    rest = [] := by
  rcases f.isPadding_cases with hpadding | ⟨length, rfl⟩
  · exact ((decode_eq_ok_iff hpadding).1 h).2.2.2 hopen
  · cases hopen

/-- The wire can carry the frames of a payload as they are, and only the last may have no end of its
own. -/
theorem wireValid_of_decodeAll (h : decodeAll p = .ok fs) :
    (∀ f ∈ fs, f.WireValid ∧ f.settled = f) ∧ ∀ f ∈ fs.dropLast, f.isOpenEnded = false := by
  induction fs generalizing p with
  | nil => exact ⟨nofun, nofun⟩
  | cons f fs ih =>
    obtain ⟨rest, hread, hrest⟩ := decodeAll_eq_cons_iff.1 h
    obtain ⟨hvalid, hinit⟩ := ih hrest
    refine ⟨List.forall_mem_cons.2 ⟨wireValid_of_decode hread, hvalid⟩, ?_⟩
    cases fs with
    | nil => exact nofun
    | cons g fs =>
      refine List.forall_mem_cons.2 ⟨Bool.eq_false_iff.2 fun hopen => ?_, hinit⟩
      rw [eq_nil_of_isOpenEnded hread hopen, decodeAll_nil] at hrest
      cases hrest

/-! ## Writing -/

theorem encodeAll_of_map_encode {parts : List Bytes} (h : fs.map Frame.encode = parts.map .ok) :
    encodeAll fs = .ok parts.flatten := by
  induction fs generalizing parts with
  | nil =>
    rw [List.map_eq_nil_iff.1 h.symm]
    rfl
  | cons f fs ih =>
    obtain ⟨part, others, rfl, hf, hfs⟩ := List.map_eq_cons_iff.1 h.symm
    rw [encodeAll, ← hf, ih hfs.symm]
    rfl

theorem encodeAll_addPadding (length : Nat) (fs : List Frame) :
    encodeAll (addPadding length fs) = encodeAll (.padding length :: fs) := by
  cases fs with
  | nil => rfl
  | cons f fs =>
    rcases f.isPadding_cases with hpadding | ⟨more, rfl⟩
    · rw [addPadding_cons hpadding]
    · simp only [addPadding, encodeAll, encode_padding, ← List.replicate_append_replicate]
      cases encodeAll fs with
      | error e => rfl
      | ok bs => exact congrArg Except.ok (List.append_assoc _ _ _)

/-- Merged padding is written as the same bytes. -/
theorem encodeAll_mergePadding (fs : List Frame) :
    encodeAll (mergePadding fs) = encodeAll fs := by
  induction fs with
  | nil => rfl
  | cons f fs ih =>
    rcases f.isPadding_cases with hpadding | ⟨length, rfl⟩
    · rw [mergePadding_cons hpadding, encodeAll, ih, encodeAll]
    · rw [mergePadding, encodeAll_addPadding, encodeAll, ih, encodeAll]

/-- Frames change by merging exactly if there is something to merge. -/
theorem mergePadding_eq_self_iff : mergePadding fs = fs ↔ fs.IsChain NotBothPadding := by
  constructor
  · intro h
    rw [← h]
    exact isChain_mergePadding fs
  · intro h
    induction fs with
    | nil => rfl
    | cons f fs ih =>
      have hfs := ih h.tail
      rcases f.isPadding_cases with hpadding | ⟨length, rfl⟩
      · rw [mergePadding_cons hpadding, hfs]
      · rw [mergePadding, hfs]
        cases fs with
        | nil => rfl
        | cons g fs =>
          rcases (List.isChain_cons_cons.1 h).1 with ⟨⟨⟩⟩ | hg
          exact addPadding_cons hg length fs

/-! ## Cutting a payload -/

/-- The last of the frames ends by itself before what follows. -/
def StopsBefore (fs : List Frame) (bs : Bytes) : Prop :=
  ∀ f ∈ fs.getLast?, f.isOpenEnded = false ∧ (f.isPadding = true → bs.head? ≠ some 0)

/-- What is left behind padding does not go on with a zero byte. -/
theorem head?_ne_zero_of_decode (h : decode bs = .ok (f, rest)) (hpadding : f.isPadding = true) :
    rest.head? ≠ some 0 := by
  rcases f.isPadding_cases with hnot | ⟨length, rfl⟩
  · rw [hnot] at hpadding
    cases hpadding
  · obtain ⟨_, _, _, _, hhead, _⟩ := decode_eq_ok_padding_iff.1 h
    exact hhead

/-- A frame with an end of its own is read the same in front of anything, padding only if no zero
byte follows. -/
theorem exists_front_of_closed (h : decode bs = .ok (f, rest)) (hend : f.isOpenEnded = false) :
    ∃ front, bs = front ++ rest ∧ ∀ more : Bytes, (f.isPadding = true → more.head? ≠ some 0) →
      decode (front ++ more) = .ok (f, more) := by
  rcases f.isPadding_cases with hpadding | ⟨length, rfl⟩
  · obtain ⟨front, hbs, hfront⟩ := exists_front_of_decode h hpadding hend
    exact ⟨front, hbs, fun more _ => hfront more⟩
  · obtain ⟨code, zeros, hcode, rfl, _, rfl⟩ := decode_eq_ok_padding_iff.1 h
    refine ⟨code ++ List.replicate zeros 0, (List.append_assoc _ _ _).symm, fun more hmore => ?_⟩
    exact decode_eq_ok_padding_iff.2 ⟨code, zeros, hcode, List.append_assoc _ _ _, hmore rfl, rfl⟩

/-- Frames that stop before what follows are read in front of it as they are read alone. -/
theorem decodeEach_append {a b : Bytes} (h : decodeAll a = .ok gs) (hstop : StopsBefore gs b) :
    decodeEach (a ++ b) = gs.map .ok ++ decodeEach b := by
  induction gs generalizing a with
  | nil =>
    rw [decodeAll_eq_nil_iff.1 h]
    rfl
  | cons g gs ih =>
    obtain ⟨rest, hread, hrest⟩ := decodeAll_eq_cons_iff.1 h
    have hg : g.isOpenEnded = false ∧ (g.isPadding = true → (rest ++ b).head? ≠ some 0) := by
      cases gs with
      | nil =>
        rw [decodeAll_eq_nil_iff.1 hrest]
        exact hstop g rfl
      | cons g' gs =>
        obtain ⟨c, others, rfl⟩ : ∃ c others, rest = c :: others :=
          List.exists_cons_of_ne_nil fun hnil => by
            rw [hnil, decodeAll_nil] at hrest
            cases hrest
        exact ⟨Bool.eq_false_iff.2 fun hopen => (nomatch eq_nil_of_isOpenEnded hread hopen),
          fun hpadding hzero => head?_ne_zero_of_decode hread hpadding hzero⟩
    obtain ⟨front, rfl, hfront⟩ := exists_front_of_closed hread hg.1
    rw [List.append_assoc, decodeEach_of_decode (hfront _ hg.2), ih hrest]
    · rfl
    · intro f hf
      refine hstop f ?_
      rw [List.getLast?_cons, Option.mem_def.1 hf]
      rfl

/-- A payload can be cut between two of its frames. -/
theorem exists_cut (h : decodeAll p = .ok (gs ++ hs)) (hne : hs ≠ []) :
    ∃ a b, p = a ++ b ∧ decodeAll a = .ok gs ∧ decodeAll b = .ok hs ∧ StopsBefore gs b := by
  induction gs generalizing p with
  | nil => exact ⟨[], p, rfl, decodeAll_nil, h, nofun⟩
  | cons g gs ih =>
    obtain ⟨rest, hread, hrest⟩ := decodeAll_eq_cons_iff.1 h
    obtain ⟨a, b, rfl, ha, hb, hstop⟩ := ih hrest
    have hend : g.isOpenEnded = false := Bool.eq_false_iff.2 fun hopen => by
      have hnil := (List.append_eq_nil_iff.1 (eq_nil_of_isOpenEnded hread hopen)).2
      rw [hnil, decodeAll_nil] at hb
      injection hb with hb
      exact hne hb.symm
    have hhead := head?_ne_zero_of_decode hread
    obtain ⟨front, rfl, hfront⟩ := exists_front_of_closed hread hend
    refine ⟨front ++ a, b, (List.append_assoc _ _ _).symm, ?_, hb, ?_⟩
    · refine decodeAll_of_decode (hfront a fun hpadding hzero => hhead hpadding ?_) ha
      rw [List.head?_append, hzero]
      rfl
    · cases gs with
      | nil =>
        rw [decodeAll_eq_nil_iff.1 ha] at hhead
        rintro f ⟨⟩
        exact ⟨hend, hhead⟩
      | cons g' gs =>
        intro f hf
        rw [List.getLast?_cons_cons] at hf
        exact hstop f hf

/-! ## Padding next to padding -/

/-- The only code of zero that begins with a zero byte is that byte. -/
theorem head?_code_zero_iff {code : Bytes} (h : VarInt.IsCode 0 code) :
    code.head? = some 0 ↔ code.length = 1 := by
  obtain ⟨first, tail, rfl, hwidth⟩ := h.exists_cons
  constructor
  · rintro ⟨⟩
    exact hwidth.symm
  · intro hlength
    have hone : VarInt.IsCode 0 [0] := ⟨.one, by decide, rfl⟩
    rw [h.eq_of_length_eq hone hlength]
    rfl

theorem exists_zeros (bs : Bytes) :
    ∃ zeros rest, bs = List.replicate zeros 0 ++ rest ∧ rest.head? ≠ some 0 := by
  induction bs with
  | nil => exact ⟨0, [], rfl, nofun⟩
  | cons b bs ih =>
    by_cases hb : b = 0
    · obtain ⟨zeros, rest, rfl, hrest⟩ := ih
      refine ⟨zeros + 1, rest, ?_, hrest⟩
      rw [hb]
      rfl
    · exact ⟨0, b :: bs, rfl, by simpa using hb⟩

/-- The type number of padding is read with the zero bytes behind it, whatever else follows. -/
theorem exists_decode_code_zero {code : Bytes} (h : VarInt.IsCode 0 code) (after : Bytes) :
    ∃ length rest, decode (code ++ after) = .ok (.padding length, rest) := by
  obtain ⟨zeros, rest, rfl, hrest⟩ := exists_zeros after
  exact ⟨_, rest, decode_eq_ok_padding_iff.2 ⟨code, zeros, h, rfl, hrest, rfl⟩⟩

/-- Behind the frames of its front, the last of them padding, the payload goes on with the type
number of padding in more than one byte. -/
def ResumesPadding (p : Bytes) : Prop :=
  ∃ before code after gs length, p = before ++ (code ++ after)
    ∧ decodeAll before = .ok (gs ++ [.padding length]) ∧ VarInt.IsCode 0 code ∧ 1 < code.length

/-- Where padding begins anew, the front part has ended with padding of its own. -/
theorem not_isChain_of_resumesPadding (h : decodeAll p = .ok fs) (hresumes : ResumesPadding p) :
    ¬ fs.IsChain NotBothPadding := by
  obtain ⟨before, code, after, gs, length, rfl, hbefore, hcode, hlong⟩ := hresumes
  obtain ⟨more, rest, hread⟩ := exists_decode_code_zero hcode after
  have hstop : StopsBefore (gs ++ [.padding length]) (code ++ after) := by
    rw [StopsBefore, List.getLast?_concat]
    rintro f ⟨⟩
    refine ⟨rfl, fun _ hzero => ?_⟩
    obtain ⟨first, tail, rfl, _⟩ := hcode.exists_cons
    exact Nat.ne_of_gt hlong ((head?_code_zero_iff hcode).1 hzero)
  have heach := decodeEach_append hbefore hstop
  rw [decodeAll_eq_ok_iff.1 h, decodeEach_of_decode hread] at heach
  obtain ⟨front, others, rfl, hfront, hothers⟩ := List.map_eq_append_iff.1 heach
  obtain ⟨f, hs, rfl, hf, _⟩ := List.map_eq_cons_iff.1 hothers
  injection hf with hf
  subst hf
  obtain rfl := List.map_injective_iff.2 (fun _ _ => Except.ok.inj) hfront
  rw [List.append_assoc, List.isChain_iff_forall_rel_of_append_cons_cons]
  intro hchain
  rcases hchain rfl with ⟨⟨⟩⟩ | ⟨⟨⟩⟩

/-- Between two padding frames, padding begins anew. -/
theorem resumesPadding_of_append {n m : Nat}
    (h : decodeAll p = .ok (gs ++ .padding n :: .padding m :: hs)) : ResumesPadding p := by
  rw [List.append_cons] at h
  obtain ⟨a, b, rfl, ha, hb, hstop⟩ := exists_cut h (List.cons_ne_nil _ _)
  obtain ⟨rest, hread, _⟩ := decodeAll_eq_cons_iff.1 hb
  obtain ⟨code, zeros, hcode, rfl, _, _⟩ := decode_eq_ok_padding_iff.1 hread
  refine ⟨a, code, _, gs, n, rfl, ha, hcode, ?_⟩
  obtain ⟨first, tail, rfl, _⟩ := hcode.exists_cons
  have hhead := (hstop (.padding n) List.getLast?_concat).2 rfl
  have hone := mt (head?_code_zero_iff hcode).2 hhead
  rw [List.length_cons] at hone ⊢
  omega

/-- A payload has no padding next to padding exactly if padding nowhere begins anew in it. -/
theorem isChain_notBothPadding_iff (h : decodeAll p = .ok fs) :
    fs.IsChain NotBothPadding ↔ ¬ ResumesPadding p := by
  constructor
  · intro hchain hresumes
    exact not_isChain_of_resumesPadding h hresumes hchain
  · rw [List.isChain_iff_forall_rel_of_append_cons_cons]
    rintro hnot f g front others rfl
    rcases f.isPadding_cases with hf | ⟨n, rfl⟩
    · exact .inl hf
    rcases g.isPadding_cases with hg | ⟨m, rfl⟩
    · exact .inr hg
    · exact absurd (resumesPadding_of_append h) hnot

/-! ## There and back -/

/-- The frames of a payload can be written, and what is read from that are the same frames with
padding merged. These are written as the same bytes, so from then on nothing changes. The frames
come back as they were exactly if there is no padding next to padding, and that is the case exactly
if padding nowhere begins anew in the payload. -/
theorem decodeAll_encodeAll (h : decodeAll p = .ok fs) :
    ∃ e, encodeAll fs = .ok e ∧ decodeAll e = .ok (mergePadding fs)
      ∧ encodeAll (mergePadding fs) = .ok e
      ∧ (decodeAll e = .ok fs ↔ fs.IsChain NotBothPadding)
      ∧ (fs.IsChain NotBothPadding ↔ ¬ ResumesPadding p) := by
  obtain ⟨hvalid, hopen⟩ := wireValid_of_decodeAll h
  obtain ⟨parts, hparts⟩ := exists_survives (fun f hf => (hvalid f hf).1) hopen
  have hsettled : fs.map settled = fs := 
    (List.map_congr_left fun f hf => (hvalid f hf).2).trans (List.map_id fs)
  have hencode := encodeAll_of_map_encode hparts.encode
  have hdecode := hparts.decode
  rw [hsettled] at hdecode
  refine ⟨_, hencode, hdecode, (encodeAll_mergePadding fs).trans hencode, ?_,
    isChain_notBothPadding_iff h⟩
  rw [hdecode, Except.ok.injEq, mergePadding_eq_self_iff]

/-- Padding and a piece of the handshake, with every number at two bytes. -/
theorem decodeAll_encodeAll_wide :
    decodeAll [0x40, 0, 0, 0x40, 0x06, 0x40, 0, 0x40, 1, 7] = .ok [.padding 3, .crypto 0 [7]]
      ∧ encodeAll [.padding 3, .crypto 0 [7]] = .ok [0, 0, 0, 0x06, 0, 1, 7]
      ∧ decodeAll [0, 0, 0, 0x06, 0, 1, 7] = .ok [.padding 3, .crypto 0 [7]]
      ∧ ¬ ResumesPadding [0x40, 0, 0, 0x40, 0x06, 0x40, 0, 0x40, 1, 7] := by
  have hread : decodeAll [0x40, 0, 0, 0x40, 0x06, 0x40, 0, 0x40, 1, 7] =
      .ok [.padding 3, .crypto 0 [7]] :=
    decodeAll_of_decode rfl (decodeAll_of_decode rfl decodeAll_nil)
  obtain ⟨e, hencode, _, _, hsame, hresumes⟩ := decodeAll_encodeAll hread
  have hchain : [Frame.padding 3, .crypto 0 [7]].IsChain NotBothPadding :=
    .cons_cons (Or.inr rfl) (.singleton _)
  have hbytes : encodeAll [.padding 3, .crypto 0 [7]] = .ok [0, 0, 0, 0x06, 0, 1, 7] := rfl
  rw [hbytes] at hencode
  cases hencode
  exact ⟨hread, hbytes, hsame.2 hchain, hresumes.1 hchain⟩

/-- A zero byte, and a second padding frame whose type number is written with two bytes. All of it
is padding, but it is read as two frames, and only after they were written again as one. -/
theorem padding_resumed :
    decodeAll [0, 0x40, 0] = .ok [.padding 1, .padding 2]
      ∧ encodeAll [.padding 1, .padding 2] = .ok [0, 0, 0]
      ∧ decodeAll [0, 0, 0] = .ok [.padding 3] :=
  ⟨decodeAll_of_decode rfl (decodeAll_of_decode rfl decodeAll_nil), rfl,
    decodeAll_of_decode rfl decodeAll_nil⟩

end QuicTransport.Frame
