import QuicTransport.Proofs.Reassembly

set_option autoImplicit false

/-! # Streams of whole pieces

Suppose that a stream is cut into pieces, and that each chunk that arrives is one of the pieces at
its place. Then the stream stands at the end of a piece at any time, and what it gives out are whole
pieces. This remains true when the stream grows at its end. -/

namespace QuicTransport

/-- The bytes are whole pieces, one after the other. -/
def WholePieces (pieces : List Bytes) (bs : Bytes) : Prop :=
  ∃ ms : List Bytes, bs = ms.flatten ∧ ∀ m ∈ ms, m ∈ pieces

theorem wholePieces_nil (pieces : List Bytes) : WholePieces pieces [] := ⟨[], rfl, by simp⟩

theorem WholePieces.append {pieces : List Bytes} {as bs : Bytes} (ha : WholePieces pieces as)
    (hb : WholePieces pieces bs) : WholePieces pieces (as ++ bs) := by
  obtain ⟨ms, rfl, hms⟩ := ha
  obtain ⟨ns, rfl, hns⟩ := hb
  refine ⟨ms ++ ns, List.flatten_append.symm, ?_⟩
  intro m hm
  rcases List.mem_append.1 hm with hm | hm
  · exact hms m hm
  · exact hns m hm

/-- Between two pieces, before the first or behind the last. -/
def IsBoundary (pieces : List Bytes) (position : Nat) : Prop :=
  ∃ before after, pieces = before ++ after ∧ position = before.flatten.length

/-- The chunk is a piece at its place. -/
def Chunk.IsPiece (c : Chunk) (pieces : List Bytes) : Prop :=
  ∃ before after, pieces = before ++ c.data :: after ∧ c.offset = before.flatten.length

theorem isBoundary_zero (pieces : List Bytes) : IsBoundary pieces 0 := ⟨[], pieces, rfl, rfl⟩

theorem IsBoundary.append {pieces : List Bytes} {position : Nat} (h : IsBoundary pieces position)
    (more : List Bytes) : IsBoundary (pieces ++ more) position := by
  obtain ⟨before, after, rfl, hposition⟩ := h
  exact ⟨before, after ++ more, List.append_assoc _ _ _, hposition⟩

theorem Chunk.IsPiece.append {c : Chunk} {pieces : List Bytes} (h : c.IsPiece pieces)
    (more : List Bytes) : c.IsPiece (pieces ++ more) := by
  obtain ⟨before, after, rfl, hoffset⟩ := h
  exact ⟨before, after ++ more, by simp, hoffset⟩

/-- A position between two pieces is not inside a third: seen from there a piece has been given out
before, or it is next, or it lies beyond. -/
theorem Chunk.IsPiece.of_le {pieces : List Bytes} {c : Chunk} (hc : c.IsPiece pieces)
    {position : Nat} (hposition : IsBoundary pieces position) (hle : c.offset ≤ position) :
    c.stop ≤ position ∨ c.offset = position ∧ IsBoundary pieces c.stop := by
  obtain ⟨before, after, hbefore, rfl⟩ := hposition
  obtain ⟨front, back, hfront, hoffset⟩ := hc
  rw [hbefore] at hfront
  rcases List.append_eq_append_iff.1 hfront with ⟨xs, hxs, hys⟩ | ⟨xs, hxs, hys⟩
  · -- the position comes first, so it must be where the piece starts
    have hempty : xs.flatten.length = 0 := by
      have hlength := congrArg (fun ms => ms.flatten.length) hxs
      simp only [List.flatten_append, List.length_append] at hlength
      omega
    refine Or.inr ⟨by rw [hoffset, hxs, List.flatten_append, List.length_append]; omega, ?_⟩
    refine ⟨front ++ [c.data], back, ?_, ?_⟩
    · rw [hbefore, hfront, List.append_assoc]
      rfl
    · rw [Chunk.stop, hoffset, List.flatten_append, List.length_append, List.flatten_singleton]
  · cases xs with
    | nil =>
      rw [List.append_nil] at hxs
      refine Or.inr ⟨by rw [hoffset, hxs], front ++ [c.data], back, ?_, ?_⟩
      · rw [hbefore, hfront, List.append_assoc]
        rfl
      · rw [Chunk.stop, hoffset, List.flatten_append, List.length_append, List.flatten_singleton]
    | cons x xs =>
      injection hys with hx _
      left
      rw [Chunk.stop, hoffset, hxs, hx, List.flatten_append, List.length_append,
        List.flatten_cons, List.length_append]
      omega

namespace CryptoStream

/-- What is left of a piece at the end of another is the whole piece or nothing. -/
theorem wholePieces_drop {pieces : List Bytes} {c : Chunk} (hc : c.IsPiece pieces)
    {position : Nat} (hposition : IsBoundary pieces position) (hle : c.offset ≤ position) :
    WholePieces pieces (c.data.drop (position - c.offset))
      ∧ IsBoundary pieces (max position c.stop) := by
  rcases hc.of_le hposition hle with hstop | ⟨hstart, hstop⟩
  · have hdrop : c.data.drop (position - c.offset) = [] := by
      rw [List.drop_eq_nil_iff]
      unfold Chunk.stop at hstop
      omega
    rw [hdrop, Nat.max_eq_left hstop]
    exact ⟨wholePieces_nil pieces, hposition⟩
  · have hmax : max position c.stop = c.stop := by
      unfold Chunk.stop
      omega
    rw [hmax, hstart, Nat.sub_self, List.drop_zero]
    obtain ⟨before, after, hpiece, _⟩ := hc
    refine ⟨⟨[c.data], by simp, ?_⟩, hstop⟩
    intro m hm
    rw [List.mem_singleton.1 hm, hpiece]
    simp

/-- The stream stands between pieces and holds pieces back. -/
structure Tiled (pieces : List Bytes) (s : CryptoStream) : Prop where
  delivered : IsBoundary pieces s.delivered
  pending : ∀ c ∈ s.pending, c.IsPiece pieces

theorem tiled_empty (pieces : List Bytes) : Tiled pieces empty where
  delivered := isBoundary_zero pieces
  pending := fun c hc => by cases hc

theorem Tiled.append {pieces : List Bytes} {s : CryptoStream} (h : Tiled pieces s)
    (more : List Bytes) : Tiled (pieces ++ more) s where
  delivered := h.delivered.append more
  pending := fun c hc => (h.pending c hc).append more

theorem tiled_release {pieces : List Bytes} {pending : List Chunk}
    (hpending : ∀ c ∈ pending, c.IsPiece pieces) {d : Nat} (hd : IsBoundary pieces d) (n : Nat) :
    WholePieces pieces (release pending d n).1 ∧ Tiled pieces (release pending d n).2 := by
  induction pending generalizing d n with
  | nil => exact ⟨wholePieces_nil pieces, hd, hpending⟩
  | cons c cs ih =>
    rcases Nat.lt_or_ge d c.offset with h | h
    · rw [release_cons_of_lt h]
      exact ⟨wholePieces_nil pieces, hd, hpending⟩
    · rw [release_cons_of_le h]
      obtain ⟨hwhole, hmax⟩ := wholePieces_drop (hpending c List.mem_cons_self) hd h
      obtain ⟨hmore, htiled⟩ := ih (fun e he => hpending e (List.mem_cons_of_mem c he)) hmax
        (n - c.data.length)
      exact ⟨hwhole.append hmore, htiled⟩

/-- A piece that arrives makes whole pieces come out. -/
theorem Tiled.insert {pieces : List Bytes} {s : CryptoStream} (h : Tiled pieces s)
    {offset : Nat} {data : Bytes} (hc : Chunk.IsPiece ⟨offset, data⟩ pieces) (limit : Nat) :
    WholePieces pieces (given (s.insert offset data limit).1)
      ∧ Tiled pieces (s.insert offset data limit).2 := by
  rcases Nat.lt_or_ge s.delivered offset with hgap | hle
  · rw [insert_of_gap limit hgap, given_hold]
    refine ⟨wholePieces_nil pieces, ?_, ?_⟩
    · rw [delivered_hold]
      exact h.delivered
    · intro c hmem
      rcases mem_hold hmem with rfl | hmem
      · exact hc
      · exact h.pending c hmem
  · rcases Nat.lt_or_ge s.delivered (offset + data.length) with hreach | hstop
    · obtain ⟨hwhole, hmax⟩ := wholePieces_drop hc h.delivered hle
      have hend : max s.delivered (Chunk.stop ⟨offset, data⟩) = offset + data.length := by
        unfold Chunk.stop
        dsimp only
        omega
      rw [hend] at hmax
      obtain ⟨hmore, htiled⟩ := tiled_release h.pending hmax s.pendingBytes
      rw [insert_of_reach limit hle hreach]
      exact ⟨hwhole.append hmore, htiled⟩
    · rw [insert_of_stop_le limit hstop]
      exact ⟨wholePieces_nil pieces, h⟩

end CryptoStream

end QuicTransport
