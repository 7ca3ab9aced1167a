import Mathlib.Order.Bounds.Basic
import QuicTransport.Handshake.CryptoStream

set_option autoImplicit false

/-! # Reassembly gives out what has arrived

A stream drops, replaces and trims chunks, and still nothing is lost. What carries the argument is
the set of positions that a stream accounts for: those below what has been given out, and those of
the chunks it holds. No operation takes a position away from that set, and an arriving chunk adds
exactly its own (`Accounts`). Held chunks lie beyond a gap, so the next position to give out is one
that no chunk has brought.

The bytes themselves are followed by a condition on positions: if every chunk that arrives meets
it, so does everything that is given out. The condition "is the byte of this text" makes the
output a prefix of the text (`insertAll_exact`). -/

namespace QuicTransport

/-! ## Positions -/

/-- A chunk has a byte at a position. -/
def Chunk.Covers (c : Chunk) (i : Nat) : Prop := c.offset ≤ i ∧ i < c.stop

/-- Some chunk of a list has a byte at a position. -/
def Covered (chunks : List Chunk) (i : Nat) : Prop := ∃ c ∈ chunks, c.Covers i

theorem covered_cons {c : Chunk} {cs : List Chunk} {i : Nat} :
    Covered (c :: cs) i ↔ c.Covers i ∨ Covered cs i := by
  simp [Covered]

theorem covered_append {cs ds : List Chunk} {i : Nat} :
    Covered (cs ++ ds) i ↔ Covered cs i ∨ Covered ds i := by
  simp [Covered, or_and_right, exists_or]

@[simp] theorem covered_singleton {c : Chunk} {i : Nat} : Covered [c] i ↔ c.Covers i := by
  simp [Covered]

/-- Covering depends only on which chunks there are. -/
theorem covered_congr {cs ds : List Chunk} (h : ∀ c, c ∈ cs ↔ c ∈ ds) (i : Nat) :
    Covered cs i ↔ Covered ds i := by
  simp only [Covered, h]

/-- Bytes that stand from a position on meet a condition, each at its own position. -/
def PlacedAt (P : Nat → UInt8 → Prop) (start : Nat) (bs : Bytes) : Prop :=
  ∀ i b, bs[i]? = some b → P (start + i) b

theorem placedAt_nil (P : Nat → UInt8 → Prop) (start : Nat) : PlacedAt P start [] := by
  intro i b h
  simp at h

theorem PlacedAt.append {P : Nat → UInt8 → Prop} {start : Nat} {a b : Bytes}
    (ha : PlacedAt P start a) (hb : PlacedAt P (start + a.length) b) :
    PlacedAt P start (a ++ b) := by
  intro i x h
  rcases Nat.lt_or_ge i a.length with hlt | hge
  · rw [List.getElem?_append_left hlt] at h
    exact ha i x h
  · rw [List.getElem?_append_right hge] at h
    have hplace := hb (i - a.length) x h
    rwa [show start + a.length + (i - a.length) = start + i by omega] at hplace

theorem PlacedAt.drop {P : Nat → UInt8 → Prop} {start : Nat} {bs : Bytes}
    (h : PlacedAt P start bs) (n : Nat) : PlacedAt P (start + n) (bs.drop n) := by
  intro i b hb
  rw [List.getElem?_drop] at hb
  have hplace := h (n + i) b hb
  rwa [← Nat.add_assoc] at hplace

/-- Bytes that agree with a text from its start on are its beginning. -/
theorem eq_take_of_placedAt {text bs : Bytes} (h : PlacedAt (fun i b => text[i]? = some b) 0 bs) :
    bs = text.take bs.length := by
  apply List.ext_getElem?
  intro i
  rcases Nat.lt_or_ge i bs.length with hlt | hge
  · rw [List.getElem?_take_of_lt hlt]
    have hplace := h i bs[i] (List.getElem?_eq_getElem hlt)
    rw [Nat.zero_add] at hplace
    rw [hplace, List.getElem?_eq_getElem hlt]
  · rw [List.getElem?_eq_none hge, List.getElem?_eq_none]
    rw [List.length_take]
    omega

/-- A chunk says of its positions what a text says. -/
def Chunk.IsPartOf (c : Chunk) (text : Bytes) : Prop := c.data <+: text.drop c.offset

instance (c : Chunk) (text : Bytes) : Decidable (c.IsPartOf text) :=
  inferInstanceAs (Decidable (c.data <+: text.drop c.offset))

theorem Chunk.IsPartOf.placedAt {c : Chunk} {text : Bytes} (h : c.IsPartOf text) :
    PlacedAt (fun i b => text[i]? = some b) c.offset c.data := by
  intro i b hb
  obtain ⟨rest, hrest⟩ := h
  have hlt : i < c.data.length := (List.getElem?_eq_some_iff.1 hb).1
  rw [← List.getElem?_drop, ← hrest, List.getElem?_append_left hlt, hb]

namespace CryptoStream

/-! ## Holding back -/

/-- What insertion keeps true of a stream: held chunks stand in strict order beyond what has been
given out. -/
structure WellFormed (s : CryptoStream) : Prop where
  sorted : s.pending.Pairwise fun c d => c.offset < d.offset
  /-- There is a gap in front of every held chunk. -/
  beyond : ∀ c ∈ s.pending, s.delivered < c.offset

theorem heldAt?_eq_some {offset : Nat} {pending : List Chunk} {old : Chunk}
    (h : heldAt? offset pending = some old) : old ∈ pending ∧ old.offset = offset := by
  refine ⟨List.mem_of_find?_eq_some h, ?_⟩
  simpa using List.find?_some h

theorem heldAt?_of_mem {pending : List Chunk} {old : Chunk}
    (hsorted : pending.Pairwise fun c d => c.offset < d.offset) (hmem : old ∈ pending) :
    heldAt? old.offset pending = some old := by
  induction pending with
  | nil => simp at hmem
  | cons d ds ih =>
    rw [List.pairwise_cons] at hsorted
    rcases List.mem_cons.1 hmem with rfl | hmem
    · simp [heldAt?]
    · have hne : d.offset ≠ old.offset := Nat.ne_of_lt (hsorted.1 old hmem)
      have htail := ih hsorted.2 hmem
      simp only [heldAt?] at htail ⊢
      rw [List.find?_cons_of_neg (by simpa using hne)]
      exact htail

theorem mem_keep {c d : Chunk} {pending : List Chunk} (h : d ∈ keep c pending) :
    d = c ∨ d ∈ pending := by
  induction pending with
  | nil => simpa [keep] using h
  | cons e es ih =>
    simp only [keep] at h
    split at h
    · simpa using h
    · split at h
      · rcases List.mem_cons.1 h with rfl | h
        · exact Or.inl rfl
        · exact Or.inr (List.mem_cons_of_mem _ h)
      · rcases List.mem_cons.1 h with rfl | h
        · exact Or.inr List.mem_cons_self
        · exact (ih h).imp id (List.mem_cons_of_mem _)

theorem mem_keep_self (c : Chunk) (pending : List Chunk) : c ∈ keep c pending := by
  induction pending with
  | nil => simp [keep]
  | cons d ds ih =>
    simp only [keep]
    split
    · exact List.mem_cons_self
    · split
      · exact List.mem_cons_self
      · exact List.mem_cons_of_mem _ ih

/-- Only a chunk with the same offset gives way. -/
theorem mem_keep_of_mem {c d : Chunk} {pending : List Chunk} (hmem : d ∈ pending)
    (hne : d.offset ≠ c.offset) : d ∈ keep c pending := by
  induction pending with
  | nil => simp at hmem
  | cons e es ih =>
    simp only [keep]
    split
    · exact List.mem_cons_of_mem _ hmem
    · split
      · next hoffset =>
        rcases List.mem_cons.1 hmem with rfl | hmem
        · exact absurd hoffset.symm hne
        · exact List.mem_cons_of_mem _ hmem
      · rcases List.mem_cons.1 hmem with rfl | hmem
        · exact List.mem_cons_self
        · exact List.mem_cons_of_mem _ (ih hmem)

theorem sorted_keep {c : Chunk} {pending : List Chunk}
    (hsorted : pending.Pairwise fun c d => c.offset < d.offset) :
    (keep c pending).Pairwise fun c d => c.offset < d.offset := by
  induction pending with
  | nil => simp [keep]
  | cons d ds ih =>
    have htail := (List.pairwise_cons.1 hsorted).1
    simp only [keep]
    split
    · next hlt =>
      refine List.pairwise_cons.2 ⟨?_, hsorted⟩
      intro e he
      rcases List.mem_cons.1 he with rfl | he
      · exact hlt
      · exact Nat.lt_trans hlt (htail e he)
    · split
      · next heq =>
        refine List.pairwise_cons.2 ⟨?_, (List.pairwise_cons.1 hsorted).2⟩
        intro e he
        rw [heq]
        exact htail e he
      · next hge hne =>
        refine List.pairwise_cons.2 ⟨?_, ih (List.pairwise_cons.1 hsorted).2⟩
        intro e he
        rcases mem_keep he with rfl | he
        · omega
        · exact htail e he

/-- A chunk that is held back either finds its place taken by one that is at least as long, or it
takes the place of a shorter one. -/
theorem hold_cases (s : CryptoStream) (c : Chunk) (limit : Nat) :
    ((s.hold c limit).2 = s ∧
        ∃ old ∈ s.pending, old.offset = c.offset ∧ c.data.length ≤ old.data.length) ∨
      ((s.hold c limit).2 = { s with pending := keep c s.pending, pendingBytes := s.bytesWith c } ∧
        ∀ old, heldAt? c.offset s.pending = some old → old.data.length < c.data.length) := by
  unfold hold
  split
  · next hlong =>
    obtain ⟨old, hheld, hle⟩ := (Option.any_eq_true _ _).1 hlong
    obtain ⟨hmem, hoffset⟩ := heldAt?_eq_some hheld
    exact Or.inl ⟨rfl, old, hmem, hoffset, by simpa using hle⟩
  · next hshort =>
    refine Or.inr ⟨?_, ?_⟩
    · simp only
      split <;> rfl
    · intro old hheld
      simpa [hheld] using hshort

/-- Holding a chunk back adds its positions and takes none away. -/
theorem covered_hold {s : CryptoStream} (hwf : s.WellFormed) (c : Chunk) (limit i : Nat) :
    Covered (s.hold c limit).2.pending i ↔ Covered s.pending i ∨ c.Covers i := by
  rcases hold_cases s c limit with ⟨hsame, old, hmem, hoffset, hle⟩ | ⟨hkeep, hlonger⟩
  · rw [hsame]
    refine ⟨Or.inl, ?_⟩
    rintro (h | h)
    · exact h
    · refine ⟨old, hmem, ?_⟩
      simp only [Chunk.Covers, Chunk.stop] at h ⊢
      omega
  · rw [hkeep]
    constructor
    · rintro ⟨d, hd, hcovers⟩
      rcases mem_keep hd with rfl | hd
      · exact Or.inr hcovers
      · exact Or.inl ⟨d, hd, hcovers⟩
    · rintro (⟨d, hd, hcovers⟩ | hcovers)
      · by_cases hoffset : d.offset = c.offset
        · -- the chunk that gives way is shorter than the one that takes its place
          have hlt := hlonger d (hoffset ▸ heldAt?_of_mem hwf.sorted hd)
          refine ⟨c, mem_keep_self c _, ?_⟩
          simp only [Chunk.Covers, Chunk.stop] at hcovers ⊢
          omega
        · exact ⟨d, mem_keep_of_mem hd hoffset, hcovers⟩
      · exact ⟨c, mem_keep_self c _, hcovers⟩

theorem mem_hold {s : CryptoStream} {c d : Chunk} {limit : Nat}
    (h : d ∈ (s.hold c limit).2.pending) : d = c ∨ d ∈ s.pending := by
  rcases hold_cases s c limit with ⟨hsame, _⟩ | ⟨hkeep, _⟩
  · rw [hsame] at h
    exact Or.inr h
  · rw [hkeep] at h
    exact mem_keep h

theorem delivered_hold (s : CryptoStream) (c : Chunk) (limit : Nat) :
    (s.hold c limit).2.delivered = s.delivered := by
  rcases hold_cases s c limit with ⟨hsame, _⟩ | ⟨hkeep, _⟩
  · rw [hsame]
  · rw [hkeep]

theorem WellFormed.hold {s : CryptoStream} (h : s.WellFormed) {c : Chunk}
    (hgap : s.delivered < c.offset) (limit : Nat) : (s.hold c limit).2.WellFormed := by
  constructor
  · rcases hold_cases s c limit with ⟨hsame, _⟩ | ⟨hkeep, _⟩
    · rw [hsame]
      exact h.sorted
    · rw [hkeep]
      exact sorted_keep h.sorted
  · intro d hd
    rw [delivered_hold]
    rcases mem_hold hd with rfl | hd
    · exact hgap
    · exact h.beyond d hd

/-! ## Giving out -/

theorem release_cons_of_lt {c : Chunk} {cs : List Chunk} {d n : Nat} (h : d < c.offset) :
    release (c :: cs) d n = ([], ⟨d, c :: cs, n⟩) := by
  simp [release, h]

theorem release_cons_of_le {c : Chunk} {cs : List Chunk} {d n : Nat} (h : c.offset ≤ d) :
    release (c :: cs) d n =
      (c.data.drop (d - c.offset) ++ (release cs (max d c.stop) (n - c.data.length)).1,
        (release cs (max d c.stop) (n - c.data.length)).2) := by
  rw [release, if_neg (by omega)]

/-- What stays behind is the end of what was held. -/
theorem suffix_release (pending : List Chunk) (d n : Nat) :
    (release pending d n).2.pending <:+ pending := by
  induction pending generalizing d n with
  | nil => exact List.suffix_refl _
  | cons c cs ih =>
    rcases Nat.lt_or_ge d c.offset with h | h
    · have hstay : (release (c :: cs) d n).2.pending = c :: cs := by rw [release_cons_of_lt h]
      exact hstay.symm ▸ List.suffix_refl _
    · rw [release_cons_of_le h]
      exact (ih _ _).trans (List.suffix_cons c cs)

/-- Giving out goes on exactly as far as there are bytes for. -/
theorem delivered_release (pending : List Chunk) (d n : Nat) :
    (release pending d n).2.delivered = d + (release pending d n).1.length := by
  induction pending generalizing d n with
  | nil => rfl
  | cons c cs ih =>
    rcases Nat.lt_or_ge d c.offset with h | h
    · rw [release_cons_of_lt h]
      rfl
    · rw [release_cons_of_le h]
      simp only [List.length_append, List.length_drop, ih, Chunk.stop]
      omega

theorem wellFormed_release {pending : List Chunk} {d n : Nat}
    (hsorted : pending.Pairwise fun c d => c.offset < d.offset) :
    (release pending d n).2.WellFormed := by
  refine ⟨hsorted.sublist (suffix_release pending d n).sublist, ?_⟩
  induction pending generalizing d n with
  | nil =>
    intro c hc
    simp [release] at hc
  | cons c cs ih =>
    rcases Nat.lt_or_ge d c.offset with h | h
    · rw [release_cons_of_lt h]
      intro e he
      rcases List.mem_cons.1 he with rfl | he
      · exact h
      · exact Nat.lt_trans h ((List.pairwise_cons.1 hsorted).1 e he)
    · rw [release_cons_of_le h]
      exact ih (List.pairwise_cons.1 hsorted).2

/-- Giving out takes no position away: it moves positions from what is held to what is given. -/
theorem covered_release (pending : List Chunk) (d n i : Nat) :
    (i < (release pending d n).2.delivered ∨ Covered (release pending d n).2.pending i) ↔
      (i < d ∨ Covered pending i) := by
  induction pending generalizing d n with
  | nil => rfl
  | cons c cs ih =>
    rcases Nat.lt_or_ge d c.offset with h | h
    · rw [release_cons_of_lt h]
    · rw [release_cons_of_le h, ih, covered_cons, ← or_assoc]
      refine or_congr ?_ Iff.rfl
      simp only [Chunk.Covers]
      omega

theorem placedAt_release {P : Nat → UInt8 → Prop} {pending : List Chunk} {d n : Nat}
    (h : ∀ c ∈ pending, PlacedAt P c.offset c.data) : PlacedAt P d (release pending d n).1 := by
  induction pending generalizing d n with
  | nil => exact placedAt_nil P d
  | cons c cs ih =>
    rcases Nat.lt_or_ge d c.offset with hd | hd
    · rw [release_cons_of_lt hd]
      exact placedAt_nil P d
    · rw [release_cons_of_le hd]
      have hhead := (h c List.mem_cons_self).drop (d - c.offset)
      rw [show c.offset + (d - c.offset) = d by omega] at hhead
      refine hhead.append ?_
      -- a chunk may have nothing to add, when an earlier one reaches beyond it
      rcases Nat.lt_or_ge d c.stop with hstop | hstop
      · have htail := ih (d := max d c.stop) (n := n - c.data.length)
          fun e he => h e (List.mem_cons_of_mem _ he)
        have hlength : d + (c.data.drop (d - c.offset)).length = max d c.stop := by
          simp only [List.length_drop, Chunk.stop] at hstop ⊢
          omega
        rwa [hlength]
      · have hempty : c.data.drop (d - c.offset) = [] := by
          rw [List.drop_eq_nil_iff]
          simp only [Chunk.stop] at hstop
          omega
        rw [hempty, List.length_nil, Nat.add_zero, Nat.max_eq_left hstop]
        exact ih fun e he => h e (List.mem_cons_of_mem _ he)

/-! ## One insertion -/

theorem insert_of_stop_le {s : CryptoStream} {offset : Nat} {data : Bytes} (limit : Nat)
    (h : offset + data.length ≤ s.delivered) : s.insert offset data limit = (.ok [], s) := by
  simp [insert, h]

theorem insert_of_gap {s : CryptoStream} {offset : Nat} {data : Bytes} (limit : Nat)
    (h : s.delivered < offset) : s.insert offset data limit = s.hold ⟨offset, data⟩ limit := by
  rw [insert, if_neg (by omega), if_pos h]

theorem insert_of_reach {s : CryptoStream} {offset : Nat} {data : Bytes} (limit : Nat)
    (hoffset : offset ≤ s.delivered) (hstop : s.delivered < offset + data.length) :
    s.insert offset data limit =
      (.ok (data.drop (s.delivered - offset)
          ++ (release s.pending (offset + data.length) s.pendingBytes).1),
        (release s.pending (offset + data.length) s.pendingBytes).2) := by
  rw [insert, if_neg (by omega), if_neg (by omega)]

/-- The bytes that an answer gives out; a refusal gives out none. -/
def given : Result Bytes → Bytes
  | .ok bs => bs
  | .error _ => []

@[simp] theorem given_hold (s : CryptoStream) (c : Chunk) (limit : Nat) :
    given (s.hold c limit).1 = [] := by
  unfold hold
  split
  · rfl
  · simp only
    split <;> rfl

/-- How a stream accounts for the chunks that have arrived and for the bytes given out so far. A
refused chunk is held all the same, so the account is kept through refusals too. -/
structure Accounts (P : Nat → UInt8 → Prop) (arrived : List Chunk) (out : Bytes)
    (s : CryptoStream) : Prop where
  /-- Held chunks lie in order beyond a gap. -/
  wellFormed : s.WellFormed
  /-- Every byte given out stands in its place. -/
  placed : PlacedAt P 0 out
  /-- So many bytes have been given out. -/
  length_out : out.length = s.delivered
  /-- Nothing is held that has not arrived. -/
  held : ∀ c ∈ s.pending, c ∈ arrived
  /-- No position that has arrived is lost, and none is made up. -/
  covered : ∀ i, (i < s.delivered ∨ Covered s.pending i) ↔ Covered arrived i

theorem accounts_empty (P : Nat → UInt8 → Prop) : Accounts P [] [] empty where
  wellFormed := ⟨List.Pairwise.nil, fun _ h => by simp [empty] at h⟩
  placed := placedAt_nil P 0
  length_out := rfl
  held := fun _ h => by simp [empty] at h
  covered := fun i => by simp [empty, Covered]

theorem Accounts.insert {P : Nat → UInt8 → Prop} {arrived : List Chunk} {out : Bytes}
    {s : CryptoStream} (h : Accounts P arrived out s)
    (hP : ∀ c ∈ arrived, PlacedAt P c.offset c.data) {c : Chunk}
    (hc : PlacedAt P c.offset c.data) (limit : Nat) :
    Accounts P (arrived ++ [c]) (out ++ given (s.insert c.offset c.data limit).1)
      (s.insert c.offset c.data limit).2 := by
  have hstop : c.stop = c.offset + c.data.length := rfl
  by_cases hold : c.offset + c.data.length ≤ s.delivered
  · -- the chunk has been given out before
    rw [insert_of_stop_le limit hold]
    refine ⟨h.wellFormed, ?_, ?_, ?_, ?_⟩
    · simpa [given] using h.placed
    · simpa [given] using h.length_out
    · intro d hd
      exact List.mem_append_left _ (h.held d hd)
    · intro i
      rw [covered_append, covered_singleton, ← h.covered i]
      refine ⟨Or.inl, ?_⟩
      rintro (hi | hi)
      · exact hi
      · exact Or.inl (Nat.lt_of_lt_of_le hi.2 hold)
  by_cases hgap : s.delivered < c.offset
  · -- the chunk lies beyond a gap
    rw [insert_of_gap limit hgap]
    refine ⟨h.wellFormed.hold hgap limit, ?_, ?_, ?_, ?_⟩
    · simpa using h.placed
    · simpa [delivered_hold] using h.length_out
    · intro d hd
      rcases mem_hold hd with rfl | hd
      · exact List.mem_append_right _ List.mem_cons_self
      · exact List.mem_append_left _ (h.held d hd)
    · intro i
      rw [delivered_hold, covered_hold h.wellFormed, covered_append, covered_singleton,
        ← h.covered i, or_assoc]
  · -- the chunk goes on where the last one ended, and may close a gap
    have hreach : c.offset ≤ s.delivered := Nat.le_of_not_lt hgap
    have hbeyond : s.delivered < c.offset + c.data.length := Nat.lt_of_not_le hold
    rw [insert_of_reach limit hreach hbeyond]
    refine ⟨wellFormed_release h.wellFormed.sorted, ?_, ?_, ?_, ?_⟩
    · have hfront := hc.drop (s.delivered - c.offset)
      rw [show c.offset + (s.delivered - c.offset) = s.delivered by omega] at hfront
      have hback : PlacedAt P (c.offset + c.data.length)
          (release s.pending (c.offset + c.data.length) s.pendingBytes).1 :=
        placedAt_release fun d hd => hP d (h.held d hd)
      refine h.placed.append ?_
      rw [Nat.zero_add, h.length_out]
      refine hfront.append ?_
      rwa [List.length_drop,
        show s.delivered + (c.data.length - (s.delivered - c.offset)) = c.offset + c.data.length
          by omega]
    · simp only [given, List.length_append, List.length_drop, h.length_out, delivered_release]
      omega
    · intro d hd
      exact List.mem_append_left _ (h.held d ((suffix_release _ _ _).subset hd))
    · intro i
      rw [covered_release, covered_append, covered_singleton, ← h.covered i, or_right_comm]
      refine or_congr ?_ Iff.rfl
      simp only [Chunk.Covers, hstop]
      omega

/-! ## Runs -/

/-- A chunk on its arrival, with the limit in force. -/
structure Arrival where
  chunk : Chunk
  /-- How many bytes may be held back. -/
  limit : Nat

/-- Take in chunks one after the other, and collect everything that is given out. -/
def insertAll (s : CryptoStream) : List Arrival → Bytes × CryptoStream
  | [] => ([], s)
  | a :: as =>
    let (answer, s') := s.insert a.chunk.offset a.chunk.data a.limit
    let (more, s'') := s'.insertAll as
    (given answer ++ more, s'')

theorem Accounts.insertAll {P : Nat → UInt8 → Prop} {arrivals : List Arrival} :
    ∀ {arrived : List Chunk} {out : Bytes} {s : CryptoStream}, Accounts P arrived out s →
      (∀ c ∈ arrived ++ arrivals.map Arrival.chunk, PlacedAt P c.offset c.data) →
      Accounts P (arrived ++ arrivals.map Arrival.chunk) (out ++ (s.insertAll arrivals).1)
        (s.insertAll arrivals).2 := by
  induction arrivals with
  | nil =>
    intro arrived out s h _
    simpa [CryptoStream.insertAll] using h
  | cons a as ih =>
    intro arrived out s h hP
    have hstep := h.insert (fun c hc => hP c (List.mem_append_left _ hc))
      (hP a.chunk (by simp)) a.limit
    have hrest := ih hstep (by simpa using hP)
    simpa [CryptoStream.insertAll] using hrest

theorem accounts_insertAll {P : Nat → UInt8 → Prop} {arrivals : List Arrival}
    (hP : ∀ a ∈ arrivals, PlacedAt P a.chunk.offset a.chunk.data) :
    Accounts P (arrivals.map Arrival.chunk) (empty.insertAll arrivals).1
      (empty.insertAll arrivals).2 := by
  have h : Accounts P ([] ++ arrivals.map Arrival.chunk) ([] ++ (empty.insertAll arrivals).1)
      (empty.insertAll arrivals).2 := (accounts_empty P).insertAll (by simpa using hP)
  simpa using h

/-- What has been given out reaches exactly to the first position that no chunk has brought. -/
theorem Accounts.isGreatest {P : Nat → UInt8 → Prop} {arrived : List Chunk} {out : Bytes}
    {s : CryptoStream} (h : Accounts P arrived out s) :
    IsGreatest {n | ∀ i < n, Covered arrived i} s.delivered := by
  constructor
  · intro i hi
    exact (h.covered i).1 (Or.inl hi)
  · intro n hn
    by_contra hlt
    have hcovered := hn s.delivered (Nat.lt_of_not_le hlt)
    rcases (h.covered s.delivered).2 hcovered with hself | ⟨c, hc, hcovers⟩
    · exact Nat.lt_irrefl _ hself
    · exact absurd hcovers.1 (Nat.not_le_of_lt (h.wellFormed.beyond c hc))

/-- Chunks of one text, in any order and any number of times, give out the text as far as they
cover it without a gap. This holds after every one of them, and the order in which they come makes
no difference in the end. -/
theorem insertAll_exact {text : Bytes} {arrivals : List Arrival}
    (hpart : ∀ a ∈ arrivals, a.chunk.IsPartOf text) :
    (∀ early, early <+: arrivals →
      (empty.insertAll early).2.delivered ≤ text.length ∧
        (empty.insertAll early).1 = text.take (empty.insertAll early).2.delivered ∧
        IsGreatest {n | ∀ i < n, Covered (early.map Arrival.chunk) i}
          (empty.insertAll early).2.delivered) ∧
      ∀ others : List Arrival,
        (∀ c, c ∈ others.map Arrival.chunk ↔ c ∈ arrivals.map Arrival.chunk) →
        (empty.insertAll others).1 = (empty.insertAll arrivals).1 := by
  have haccount : ∀ as : List Arrival, (∀ c ∈ as.map Arrival.chunk, c.IsPartOf text) →
      Accounts (fun i b => text[i]? = some b) (as.map Arrival.chunk) (empty.insertAll as).1
        (empty.insertAll as).2 := by
    intro as hpart
    exact accounts_insertAll fun a ha => (hpart a.chunk (List.mem_map_of_mem ha)).placedAt
  have hout : ∀ as : List Arrival, (∀ c ∈ as.map Arrival.chunk, c.IsPartOf text) →
      (empty.insertAll as).1 = text.take (empty.insertAll as).2.delivered := by
    intro as hpart
    rw [← (haccount as hpart).length_out]
    exact eq_take_of_placedAt (haccount as hpart).placed
  have hparts : ∀ c ∈ arrivals.map Arrival.chunk, c.IsPartOf text := by
    simpa using hpart
  constructor
  · intro early hearly
    have hpart' : ∀ c ∈ early.map Arrival.chunk, c.IsPartOf text :=
      fun c hc => hparts c ((hearly.map Arrival.chunk).subset hc)
    have haccount' := haccount early hpart'
    refine ⟨?_, hout early hpart', haccount'.isGreatest⟩
    have hlength := congrArg List.length (hout early hpart')
    rw [haccount'.length_out, List.length_take] at hlength
    omega
  · intro others hsame
    have hpart' : ∀ c ∈ others.map Arrival.chunk, c.IsPartOf text :=
      fun c hc => hparts c ((hsame c).1 hc)
    -- the reach is determined by which positions are covered
    have hreach : (empty.insertAll others).2.delivered =
        (empty.insertAll arrivals).2.delivered := by
      refine (haccount others hpart').isGreatest.unique ?_
      have hgreatest := (haccount arrivals hparts).isGreatest
      simpa only [covered_congr hsame] using hgreatest
    rw [hout others hpart', hout arrivals hparts, hreach]

/-- Two held chunks overlap, the later of them takes in the other, and the third closes the gap. -/
theorem insertAll_exact_of_overlap :
    let text : Bytes := [1, 2, 3, 4, 5, 6, 7, 8]
    let arrivals : List Arrival :=
      [⟨⟨3, [4, 5, 6, 7]⟩, 16⟩, ⟨⟨2, [3, 4, 5, 6, 7, 8]⟩, 16⟩, ⟨⟨0, [1, 2]⟩, 16⟩]
    (∀ a ∈ arrivals, a.chunk.IsPartOf text) ∧
      (empty.insertAll arrivals).1 = text.take (empty.insertAll arrivals).2.delivered ∧
      (empty.insertAll arrivals).2.delivered = 8 :=
  ⟨by decide, ((insertAll_exact (by decide)).1 _ (List.prefix_refl _)).2.1, by decide⟩

end CryptoStream

end QuicTransport
