import Mathlib.Algebra.Order.BigOperators.Group.List
import Mathlib.Algebra.Order.Ring.Nat
import QuicTransport.Proofs.Reassembly

set_option autoImplicit false

/-! # How much a stream holds back

A stream counts the bytes that it holds, because their number is limited. The count is right at any
time (`Tidy`), so a stream that holds nothing has counted down to zero.

When a text comes in pieces, all that is ever held are different pieces of it (`Filling`). They are
together no longer than the text. So whoever has room for the whole text has room for its pieces,
in whatever order they come, and once they are all there nothing is held any more. -/

namespace QuicTransport

/-! ## Counting -/

/-- The number of bytes in some chunks. -/
def heldBytes (chunks : List Chunk) : Nat := (chunks.map fun c => c.data.length).sum

@[simp] theorem heldBytes_nil : heldBytes [] = 0 := rfl

@[simp] theorem heldBytes_cons (c : Chunk) (cs : List Chunk) :
    heldBytes (c :: cs) = c.data.length + heldBytes cs := rfl

theorem length_le_heldBytes {c : Chunk} {cs : List Chunk} (h : c ∈ cs) :
    c.data.length ≤ heldBytes cs :=
  List.single_le_sum (fun _ _ => Nat.zero_le _) _ (List.mem_map_of_mem h)

/-- Different chunks of a list have no more bytes than the list. -/
theorem heldBytes_le_of_subset {cs ds : List Chunk} (hnodup : cs.Nodup) (h : cs ⊆ ds) :
    heldBytes cs ≤ heldBytes ds := by
  obtain ⟨es, hperm, hsublist⟩ := List.subperm_of_subset hnodup h
  calc heldBytes cs = heldBytes es := (hperm.map _).sum_eq.symm
    _ ≤ heldBytes ds := (hsublist.map _).sum_le_sum fun _ _ => Nat.zero_le _

namespace CryptoStream

/-- No chunk is held twice. -/
theorem WellFormed.nodup {s : CryptoStream} (h : s.WellFormed) : s.pending.Nodup :=
  h.sorted.imp fun hlt heq => Nat.ne_of_lt hlt (congrArg Chunk.offset heq)

theorem heldAt?_eq_none {offset : Nat} {pending : List Chunk}
    (h : ∀ c ∈ pending, c.offset ≠ offset) : heldAt? offset pending = none := by
  simpa [heldAt?] using h

/-- A chunk that is put in its place adds its bytes, less those of the one that gives way. -/
theorem heldBytes_keep {c : Chunk} {pending : List Chunk}
    (hsorted : pending.Pairwise fun c d => c.offset < d.offset) :
    heldBytes (keep c pending) + ((heldAt? c.offset pending).map (·.data.length)).getD 0 =
      heldBytes pending + c.data.length := by
  induction pending with
  | nil => simp [keep, heldAt?]
  | cons d ds ih =>
    obtain ⟨hhead, htail⟩ := List.pairwise_cons.1 hsorted
    rw [keep]
    rcases Nat.lt_trichotomy c.offset d.offset with hlt | heq | hgt
    · have hnone : heldAt? c.offset (d :: ds) = none := by
        refine heldAt?_eq_none fun e he => ?_
        rcases List.mem_cons.1 he with rfl | he
        · exact Nat.ne_of_gt hlt
        · exact Nat.ne_of_gt (Nat.lt_trans hlt (hhead e he))
      rw [if_pos hlt, hnone, heldBytes_cons]
      simp only [Option.map_none, Option.getD_none]
      omega
    · have hsome : heldAt? c.offset (d :: ds) = some d := by simp [heldAt?, heq]
      rw [if_neg (by omega), if_pos heq, hsome, heldBytes_cons, heldBytes_cons]
      simp only [Option.map_some, Option.getD_some]
      omega
    · have hskip : heldAt? c.offset (d :: ds) = heldAt? c.offset ds := by
        have hne : d.offset ≠ c.offset := Nat.ne_of_lt hgt
        simp [heldAt?, hne]
      have hrest := ih htail
      rw [if_neg (by omega), if_neg (by omega), hskip, heldBytes_cons, heldBytes_cons]
      omega

/-- A stream in good order, which has counted what it holds. -/
structure Tidy (s : CryptoStream) : Prop where
  wellFormed : s.WellFormed
  counted : s.pendingBytes = heldBytes s.pending

theorem tidy_empty : Tidy empty where
  wellFormed := ⟨List.Pairwise.nil, fun _ h => (by cases h)⟩
  counted := rfl

theorem Tidy.hold {s : CryptoStream} (h : s.Tidy) {c : Chunk} (hgap : s.delivered < c.offset)
    (limit : Nat) : (s.hold c limit).2.Tidy := by
  refine ⟨h.wellFormed.hold hgap limit, ?_⟩
  rcases hold_cases s c limit with ⟨hsame, _⟩ | ⟨hkeep, _⟩
  · rw [hsame]
    exact h.counted
  · have hbytes := heldBytes_keep (c := c) h.wellFormed.sorted
    rw [hkeep]
    dsimp only
    unfold bytesWith
    cases hheld : heldAt? c.offset s.pending with
    | none =>
      rw [hheld] at hbytes
      simp only [Option.map_none, Option.getD_none] at hbytes ⊢
      rw [h.counted]
      exact hbytes.symm
    | some old =>
      have hold := length_le_heldBytes (heldAt?_eq_some hheld).1
      rw [hheld] at hbytes
      simp only [Option.map_some, Option.getD_some] at hbytes ⊢
      rw [h.counted]
      omega

theorem counted_release {pending : List Chunk} {d n : Nat} (h : n = heldBytes pending) :
    (release pending d n).2.pendingBytes = heldBytes (release pending d n).2.pending := by
  induction pending generalizing d n with
  | nil => exact h
  | cons c cs ih =>
    rcases Nat.lt_or_ge d c.offset with hd | hd
    · rw [release_cons_of_lt hd]
      exact h
    · rw [release_cons_of_le hd]
      refine ih ?_
      rw [h, heldBytes_cons, Nat.add_sub_cancel_left]

/-- Every insertion leaves a stream tidy, also one that is refused. -/
theorem Tidy.insert {s : CryptoStream} (h : s.Tidy) (offset : Nat) (data : Bytes) (limit : Nat) :
    (s.insert offset data limit).2.Tidy := by
  rcases Nat.lt_or_ge s.delivered offset with hgap | hle
  · rw [insert_of_gap limit hgap]
    exact h.hold hgap limit
  · rcases Nat.lt_or_ge s.delivered (offset + data.length) with hreach | hstop
    · rw [insert_of_reach limit hle hreach]
      exact ⟨wellFormed_release h.wellFormed.sorted, counted_release h.counted⟩
    · rw [insert_of_stop_le limit hstop]
      exact h

theorem Tidy.insertAll {arrivals : List Arrival} :
    ∀ {s : CryptoStream}, s.Tidy → (s.insertAll arrivals).2.Tidy := by
  induction arrivals with
  | nil => exact id
  | cons a as ih => exact fun h => ih (h.insert a.chunk.offset a.chunk.data a.limit)

/-- A tidy stream that holds nothing. -/
theorem Tidy.eq_of_pending {s : CryptoStream} (h : s.Tidy) (hpending : s.pending = []) :
    s = ⟨s.delivered, [], 0⟩ := by
  have hcounted := h.counted
  rw [hpending] at hcounted
  cases s
  subst hpending hcounted
  rfl

/-- Nothing is refused as long as the stream stays within its limit. -/
theorem insert_ok_of_le {s : CryptoStream} {offset : Nat} {data : Bytes} {limit : Nat}
    (h : (s.insert offset data limit).2.pendingBytes ≤ limit) :
    ∃ bytes, (s.insert offset data limit).1 = .ok bytes := by
  rcases Nat.lt_or_ge s.delivered offset with hgap | hle
  · rw [insert_of_gap limit hgap] at h ⊢
    unfold hold at h ⊢
    split
    · exact ⟨[], rfl⟩
    · next hnew =>
      rw [if_neg hnew] at h
      dsimp only at h ⊢
      split
      · next hlimit =>
        rw [if_pos hlimit] at h
        exact absurd hlimit (Nat.not_lt_of_le h)
      · exact ⟨[], rfl⟩
  · rcases Nat.lt_or_ge s.delivered (offset + data.length) with hreach | hstop
    · rw [insert_of_reach limit hle hreach]
      exact ⟨_, rfl⟩
    · rw [insert_of_stop_le limit hstop]
      exact ⟨[], rfl⟩

/-- Data that go on where a stream stands are given out at once, if it holds nothing. -/
theorem insert_of_pending_nil (start : Nat) (data : Bytes) (limit : Nat) :
    (CryptoStream.mk start [] 0).insert start data limit =
      (.ok data, ⟨start + data.length, [], 0⟩) := by
  cases data with
  | nil => exact insert_of_stop_le limit (Nat.le_refl start)
  | cons b data =>
    rw [insert_of_reach limit (Nat.le_refl start) (by simp)]
    simp [release]

end CryptoStream

/-! ## Pieces of a text -/

/-- Pieces at their places, one behind the other. -/
def chunksFrom : (start : Nat) → List Bytes → List Chunk
  | _, [] => []
  | start, part :: parts => ⟨start, part⟩ :: chunksFrom (start + part.length) parts

theorem heldBytes_chunksFrom (start : Nat) (parts : List Bytes) :
    heldBytes (chunksFrom start parts) = parts.flatten.length := by
  induction parts generalizing start with
  | nil => rfl
  | cons part parts ih =>
    rw [chunksFrom, heldBytes_cons, ih, List.flatten_cons, List.length_append]

theorem chunksFrom_append (start : Nat) (parts more : List Bytes) :
    chunksFrom start (parts ++ more) =
      chunksFrom start parts ++ chunksFrom (start + parts.flatten.length) more := by
  induction parts generalizing start with
  | nil => rfl
  | cons part parts ih =>
    rw [List.cons_append, chunksFrom, chunksFrom, ih, List.flatten_cons, List.length_append,
      Nat.add_assoc, List.cons_append]

theorem map_data_chunksFrom (start : Nat) (parts : List Bytes) :
    (chunksFrom start parts).map Chunk.data = parts := by
  induction parts generalizing start with
  | nil => rfl
  | cons part parts ih => rw [chunksFrom, List.map_cons, ih]

/-- Each piece stands behind the bytes of those before it. -/
theorem offset_of_chunksFrom {start : Nat} {parts : List Bytes} {front back : List Chunk}
    {c : Chunk} (h : chunksFrom start parts = front ++ c :: back) :
    c.offset = start + heldBytes front := by
  induction parts generalizing start front with
  | nil => simp [chunksFrom] at h
  | cons part parts ih =>
    rw [chunksFrom] at h
    cases front with
    | nil =>
      injection h with hhead
      rw [← hhead]
      rfl
    | cons f front =>
      injection h with hhead htail
      rw [ih htail, heldBytes_cons, ← hhead, Nat.add_assoc]

/-- The pieces have every position of the text, and no others. -/
theorem covered_chunksFrom (start : Nat) (parts : List Bytes) (i : Nat) :
    Covered (chunksFrom start parts) i ↔ start ≤ i ∧ i < start + parts.flatten.length := by
  induction parts generalizing start with
  | nil =>
    simp only [chunksFrom, Covered, List.not_mem_nil, false_and, exists_false, List.flatten_nil,
      List.length_nil, false_iff]
    omega
  | cons part parts ih =>
    rw [chunksFrom, covered_cons, ih, List.flatten_cons, List.length_append]
    simp only [Chunk.Covers, Chunk.stop]
    omega

theorem stop_le_of_mem_chunksFrom {start : Nat} {parts : List Bytes} {c : Chunk}
    (h : c ∈ chunksFrom start parts) : c.stop ≤ start + parts.flatten.length := by
  induction parts generalizing start with
  | nil => cases h
  | cons part parts ih =>
    rw [List.flatten_cons, List.length_append]
    rcases List.mem_cons.1 h with rfl | h
    · simp only [Chunk.stop]
      omega
    · have hstop := ih h
      omega

/-- Each piece is a part of what stands in front and the text. -/
theorem isPartOf_of_mem_chunksFrom {front : Bytes} {parts : List Bytes} {c : Chunk}
    (h : c ∈ chunksFrom front.length parts) : c.IsPartOf (front ++ parts.flatten) := by
  induction parts generalizing front with
  | nil => cases h
  | cons part parts ih =>
    rcases List.mem_cons.1 h with rfl | h
    · unfold Chunk.IsPartOf
      rw [List.drop_left, List.flatten_cons]
      exact List.prefix_append _ _
    · have hrest : c.IsPartOf ((front ++ part) ++ parts.flatten) :=
        ih (by rwa [List.length_append])
      rwa [List.append_assoc, ← List.flatten_cons] at hrest

namespace CryptoStream

/-- The front of a stream that has been given out before, seen as one chunk. Its bytes do not
matter. -/
def past (start : Nat) : Chunk := ⟨0, List.replicate start 0⟩

/-- The bytes of a stream from its beginning to the end of a text that starts at some position. -/
def through (start : Nat) (parts : List Bytes) : Bytes := List.replicate start 0 ++ parts.flatten

/-- A stream on its way through a text that comes in pieces: some of them have arrived. -/
structure Filling (start : Nat) (parts : List Bytes) (arrived : List Chunk) (s : CryptoStream) :
    Prop where
  tidy : s.Tidy
  /-- Only pieces of the text have arrived. -/
  pieces : arrived ⊆ chunksFrom start parts
  accounts : Accounts (fun i b => (through start parts)[i]? = some b) (past start :: arrived)
    ((through start parts).take s.delivered) s

variable {start : Nat} {parts : List Bytes}

theorem placedAt_past :
    PlacedAt (fun i b => (through start parts)[i]? = some b) (past start).offset
      (past start).data := by
  intro i b hb
  have hlt := (List.getElem?_eq_some_iff.1 hb).1
  rw [past] at hb hlt
  rw [past, Nat.zero_add, through, List.getElem?_append_left hlt]
  exact hb

theorem placedAt_of_mem_chunksFrom {c : Chunk} (h : c ∈ chunksFrom start parts) :
    PlacedAt (fun i b => (through start parts)[i]? = some b) c.offset c.data := by
  have hpart : c.IsPartOf (through start parts) :=
    isPartOf_of_mem_chunksFrom (by rwa [List.length_replicate])
  exact hpart.placedAt

/-- Before the first piece, if nothing is held. -/
theorem filling_start (start : Nat) (parts : List Bytes) :
    Filling start parts [] ⟨start, [], 0⟩ where
  tidy := ⟨⟨List.Pairwise.nil, fun _ h => (by cases h)⟩, rfl⟩
  pieces := List.nil_subset _
  accounts := by
    have htake : (through start parts).take start = (past start).data := by
      rw [through, List.take_left' List.length_replicate]
      rfl
    refine ⟨⟨List.Pairwise.nil, fun _ h => (by cases h)⟩, ?_, ?_, fun _ h => (by cases h), ?_⟩
    · rw [htake]
      exact placedAt_past
    · rw [htake]
      exact List.length_replicate
    · intro i
      simp [Covered, Chunk.Covers, Chunk.stop, past]

namespace Filling

variable {arrived : List Chunk} {s : CryptoStream}

/-- Held chunks are different pieces, so they have no more bytes than the text. -/
theorem pendingBytes_le (h : Filling start parts arrived s) :
    s.pendingBytes ≤ parts.flatten.length := by
  have hsubset : s.pending ⊆ chunksFrom start parts := by
    intro c hc
    rcases List.mem_cons.1 (h.accounts.held c hc) with rfl | hc'
    · -- what has been given out is not held
      exact absurd (h.tidy.wellFormed.beyond _ hc) (Nat.not_lt_zero _)
    · exact h.pieces hc'
  rw [h.tidy.counted, ← heldBytes_chunksFrom start parts]
  exact heldBytes_le_of_subset h.tidy.wellFormed.nodup hsubset

theorem start_le (h : Filling start parts arrived s) : start ≤ s.delivered := by
  refine h.accounts.isGreatest.2 fun i hi => ?_
  rw [covered_cons]
  refine Or.inl ⟨Nat.zero_le i, ?_⟩
  simpa [Chunk.stop, past] using hi

/-- How much of the text has been given out. -/
theorem take_through (h : Filling start parts arrived s) :
    (through start parts).take s.delivered =
      List.replicate start 0 ++ parts.flatten.take (s.delivered - start) := by
  have hstart := h.start_le
  rw [through, List.take_append, List.length_replicate, List.take_of_length_le]
  rwa [List.length_replicate]

/-- A piece is not refused if there is room for the whole text, and the bytes that come out go on
with the text. -/
theorem insert (h : Filling start parts arrived s) {c : Chunk} (hc : c ∈ chunksFrom start parts)
    {limit : Nat} (hlimit : parts.flatten.length ≤ limit) :
    ∃ bytes s', s.insert c.offset c.data limit = (.ok bytes, s')
      ∧ Filling start parts (arrived ++ [c]) s'
      ∧ parts.flatten.take (s'.delivered - start) =
        parts.flatten.take (s.delivered - start) ++ bytes := by
  have hP : ∀ d ∈ past start :: arrived,
      PlacedAt (fun i b => (through start parts)[i]? = some b) d.offset d.data := by
    intro d hd
    rcases List.mem_cons.1 hd with rfl | hd
    · exact placedAt_past
    · exact placedAt_of_mem_chunksFrom (h.pieces hd)
  have haccounts := h.accounts.insert hP (placedAt_of_mem_chunksFrom hc) limit
  -- what is given out is the text as far as the stream has come
  have hout := eq_take_of_placedAt haccounts.placed
  rw [haccounts.length_out] at hout
  rw [hout] at haccounts
  have hfilling : Filling start parts (arrived ++ [c]) (s.insert c.offset c.data limit).2 := by
    refine ⟨h.tidy.insert _ _ _, ?_, haccounts⟩
    intro d hd
    rcases List.mem_append.1 hd with hd | hd
    · exact h.pieces hd
    · rwa [List.mem_singleton.1 hd]
  obtain ⟨bytes, hok⟩ := insert_ok_of_le (hfilling.pendingBytes_le.trans hlimit)
  refine ⟨bytes, _, Prod.ext hok rfl, hfilling, ?_⟩
  rw [hok, h.take_through, hfilling.take_through, List.append_assoc] at hout
  exact (List.append_cancel_left hout).symm

/-- Once all pieces have arrived, all has been given out. -/
theorem eq_of_all (h : Filling start parts arrived s) (hall : chunksFrom start parts ⊆ arrived) :
    s = ⟨start + parts.flatten.length, [], 0⟩ := by
  have hgreatest := h.accounts.isGreatest
  have hdelivered : start + parts.flatten.length ≤ s.delivered := by
    refine hgreatest.2 fun i hi => ?_
    rw [covered_cons]
    rcases Nat.lt_or_ge i start with hpast | hle
    · refine Or.inl ⟨Nat.zero_le i, ?_⟩
      simpa [Chunk.stop, past] using hpast
    · obtain ⟨c, hc, hcovers⟩ := (covered_chunksFrom start parts i).2 ⟨hle, hi⟩
      exact Or.inr ⟨c, hall hc, hcovers⟩
  have hlength := h.accounts.length_out
  have htext : (through start parts).length = start + parts.flatten.length := by
    rw [through, List.length_append, List.length_replicate]
  rw [List.length_take, htext] at hlength
  have hend : s.delivered = start + parts.flatten.length := by omega
  have hpending : s.pending = [] := by
    refine List.eq_nil_iff_forall_not_mem.2 fun c hc => ?_
    have hbeyond := h.tidy.wellFormed.beyond c hc
    rcases List.mem_cons.1 (h.accounts.held c hc) with rfl | hpiece
    · exact Nat.not_lt_zero _ hbeyond
    · have hstop := stop_le_of_mem_chunksFrom (h.pieces hpiece)
      unfold Chunk.stop at hstop
      omega
  rw [h.tidy.eq_of_pending hpending, hend]

end Filling

end CryptoStream

end QuicTransport
