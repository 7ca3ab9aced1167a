import Mathlib.Data.Nat.PSub
import QuicTransport.Proofs.CryptoBuffers

set_option autoImplicit false

/-! # The bookkeeping of a stream

Nothing makes a peer send the same bytes for a position twice. Whatever it sends, a stream keeps its
books: each position is given out once (`positions`), with a byte that some chunk has there
(`Chunk.byteAt?`), and the bytes that are held are counted.

Subtraction stops at zero here, so a counter that went wrong would go unnoticed. `insert?` is
insertion with subtractions that fail instead (`Nat.psub`), and it never does fail
(`Tidy.insert?_eq_some`). -/

namespace QuicTransport

/-- The byte that a chunk has at a position of the stream. -/
def Chunk.byteAt? (c : Chunk) (i : Nat) : Option UInt8 :=
  if c.offset ≤ i then c.data[i - c.offset]? else none

/-- The bytes of a chunk stand where the chunk says. -/
theorem Chunk.placedAt_byteAt? {c : Chunk} {chunks : List Chunk} (hc : c ∈ chunks) :
    PlacedAt (fun i b => ∃ d ∈ chunks, d.byteAt? i = some b) c.offset c.data := by
  intro i b hb
  refine ⟨c, hc, ?_⟩
  rw [byteAt?, if_pos (Nat.le_add_right _ _), Nat.add_sub_cancel_left]
  exact hb

namespace CryptoStream

/-! ## Checked subtraction -/

/-- `bytesWith`, if the chunk that gives way has been counted. -/
def bytesWith? (s : CryptoStream) (c : Chunk) : Option Nat :=
  match heldAt? c.offset s.pending with
  | some old => do
    let rest ← s.pendingBytes.psub old.data.length
    return rest + c.data.length
  | none => some (s.pendingBytes + c.data.length)

/-- `hold` with checked subtraction. -/
def hold? (s : CryptoStream) (c : Chunk) (limit : Nat) : Option (Result Bytes × CryptoStream) :=
  if (heldAt? c.offset s.pending).any fun old => decide (c.data.length ≤ old.data.length) then
    some (.ok [], s)
  else do
    let bytes ← s.bytesWith? c
    let s' := { s with pending := keep c s.pending, pendingBytes := bytes }
    if limit < s'.pendingBytes then return (.error (.transport .cryptoBufferExceeded), s')
    else return (.ok [], s')

/-- `release` with checked subtraction. -/
def release? : (pending : List Chunk) → (delivered pendingBytes : Nat) →
    Option (Bytes × CryptoStream)
  | [], delivered, pendingBytes => some ([], ⟨delivered, [], pendingBytes⟩)
  | c :: cs, delivered, pendingBytes =>
    if delivered < c.offset then some ([], ⟨delivered, c :: cs, pendingBytes⟩)
    else do
      let rest ← pendingBytes.psub c.data.length
      let skip ← delivered.psub c.offset
      let (bytes, s) ← release? cs (max delivered c.stop) rest
      return (c.data.drop skip ++ bytes, s)

/-- `insert` with checked subtraction. -/
def insert? (s : CryptoStream) (offset : Nat) (data : Bytes) (limit : Nat) :
    Option (Result Bytes × CryptoStream) :=
  let stop := offset + data.length
  if stop ≤ s.delivered then some (.ok [], s)
  else if s.delivered < offset then s.hold? ⟨offset, data⟩ limit
  else do
    let skip ← s.delivered.psub offset
    let (bytes, s') ← release? s.pending stop s.pendingBytes
    return (.ok (data.drop skip ++ bytes), s')

variable {s : CryptoStream}

theorem Tidy.hold?_eq_some (h : s.Tidy) (c : Chunk) (limit : Nat) :
    s.hold? c limit = some (s.hold c limit) := by
  have hbytes : s.bytesWith? c = some (s.bytesWith c) := by
    unfold bytesWith? bytesWith
    cases hheld : heldAt? c.offset s.pending with
    | none => rfl
    | some old =>
      have hcounted : old.data.length ≤ s.pendingBytes := by
        rw [h.counted]
        exact length_le_heldBytes (heldAt?_eq_some hheld).1
      simp [Nat.psub_eq_sub hcounted]
  unfold hold? CryptoStream.hold
  split
  · rfl
  · simp only [hbytes, Option.bind_eq_bind, Option.bind_some]
    split <;> rfl

/-- Each chunk that is given out has been counted, and is counted no more. -/
theorem release?_eq_some {pending : List Chunk} {d n : Nat} (h : n = heldBytes pending) :
    release? pending d n = some (release pending d n) := by
  induction pending generalizing d n with
  | nil => rfl
  | cons c cs ih =>
    rcases Nat.lt_or_ge d c.offset with hd | hd
    · rw [release?, if_pos hd, release_cons_of_lt hd]
    · rw [heldBytes_cons] at h
      have hrest : n - c.data.length = heldBytes cs := by omega
      rw [release?, if_neg (Nat.not_lt_of_le hd), release_cons_of_le hd,
        Nat.psub_eq_sub (h ▸ Nat.le_add_right _ _), Nat.psub_eq_sub hd]
      simp [ih hrest]

/-- No subtraction goes below zero. -/
theorem Tidy.insert?_eq_some (h : s.Tidy) (offset : Nat) (data : Bytes) (limit : Nat) :
    s.insert? offset data limit = some (s.insert offset data limit) := by
  by_cases hstop : offset + data.length ≤ s.delivered
  · rw [insert_of_stop_le limit hstop, insert?, if_pos hstop]
  by_cases hgap : s.delivered < offset
  · rw [insert_of_gap limit hgap, insert?, if_neg hstop, if_pos hgap, h.hold?_eq_some]
  · have hle : offset ≤ s.delivered := Nat.le_of_not_lt hgap
    rw [insert_of_reach limit hle (Nat.lt_of_not_le hstop), insert?, if_neg hstop, if_neg hgap,
      Nat.psub_eq_sub hle, release?_eq_some h.counted]
    rfl

/-! ## Positions -/

/-- An insertion goes on by as many bytes as it gives out. -/
theorem delivered_insert (s : CryptoStream) (offset : Nat) (data : Bytes) (limit : Nat) :
    (s.insert offset data limit).2.delivered =
      s.delivered + (given (s.insert offset data limit).1).length := by
  by_cases hstop : offset + data.length ≤ s.delivered
  · rw [insert_of_stop_le limit hstop]
    rfl
  by_cases hgap : s.delivered < offset
  · rw [insert_of_gap limit hgap, delivered_hold, given_hold]
    rfl
  · rw [insert_of_reach limit (Nat.le_of_not_lt hgap) (Nat.lt_of_not_le hstop)]
    simp only [given, List.length_append, List.length_drop, delivered_release]
    omega

/-- The positions of the bytes that a run gives out, in the order in which it does. Those of one
insertion begin where the stream stands. -/
def positions (s : CryptoStream) : List Arrival → List Nat
  | [] => []
  | a :: as =>
    let (answer, s') := s.insert a.chunk.offset a.chunk.data a.limit
    List.range' s.delivered (given answer).length ++ s'.positions as

theorem positions_eq_range' (s : CryptoStream) (arrivals : List Arrival) :
    s.positions arrivals = List.range' s.delivered (s.insertAll arrivals).1.length := by
  induction arrivals generalizing s with
  | nil => rfl
  | cons a as ih =>
    have hdelivered := delivered_insert s a.chunk.offset a.chunk.data a.limit
    simp only [positions, CryptoStream.insertAll, ih, hdelivered, List.length_append]
    rw [← List.range'_append_1]

/-! ## One more chunk -/

/-- Whatever goes beyond the gap and is taken in leaves no more than the limit, if it is new. -/
theorem pendingBytes_le_of_mem_insert {offset : Nat} {data : Bytes} {limit : Nat} {bytes : Bytes}
    (hok : (s.insert offset data limit).1 = .ok bytes)
    (hheld : ⟨offset, data⟩ ∈ (s.insert offset data limit).2.pending)
    (hnew : ⟨offset, data⟩ ∉ s.pending) : (s.insert offset data limit).2.pendingBytes ≤ limit := by
  by_cases hstop : offset + data.length ≤ s.delivered
  · rw [insert_of_stop_le limit hstop] at hheld
    exact absurd hheld hnew
  by_cases hgap : s.delivered < offset
  · rw [insert_of_gap limit hgap] at hok hheld ⊢
    rcases hold_ok_cases hok with hsame | hle
    · rw [hsame] at hheld
      exact absurd hheld hnew
    · exact hle
  · rw [insert_of_reach limit (Nat.le_of_not_lt hgap) (Nat.lt_of_not_le hstop)] at hheld
    exact absurd ((suffix_release _ _ _).subset hheld) hnew

/-- A stream stands no further than the chunks that have arrived. -/
theorem Accounts.delivered_le {P : Nat → UInt8 → Prop} {arrived : List Chunk} {out : Bytes}
    (h : Accounts P arrived out s) {bound : Nat} (hstop : ∀ c ∈ arrived, c.stop ≤ bound) :
    s.delivered ≤ bound := by
  by_contra hlt
  obtain ⟨c, hc, hcovers⟩ := h.isGreatest.1 bound (Nat.lt_of_not_le hlt)
  exact absurd hcovers.2 (Nat.not_lt_of_le (hstop c hc))

/-- Whatever arrives, and whatever limits are in force, also after refusals: held chunks lie beyond
a gap and are counted, and the positions given out are those up to the stream's own, each once and
in order. If every chunk ends below 2⁶⁴, so does all that the stream keeps.

The next chunk meets no subtraction below zero. The stream goes on by as many bytes as it gives out,
and each of them is the one that some chunk so far, or the next one, has at its position. If the
next chunk is held and is not refused, the stream is within its limit. -/
theorem insertAll_sound (arrivals : List Arrival) :
    let arrived := arrivals.map Arrival.chunk
    let s := (empty.insertAll arrivals).2
    (∀ c ∈ s.pending, s.delivered < c.offset)
      ∧ s.pendingBytes = heldBytes s.pending
      ∧ empty.positions arrivals = List.range s.delivered
      ∧ ((∀ c ∈ arrived, c.stop < UInt64.size) →
          s.delivered < UInt64.size ∧ ∀ c ∈ s.pending, c.stop < UInt64.size)
      ∧ ∀ next : Arrival,
          let (answer, s') := s.insert next.chunk.offset next.chunk.data next.limit
          s.insert? next.chunk.offset next.chunk.data next.limit = some (answer, s')
            ∧ s'.delivered = s.delivered + (given answer).length
            ∧ (∀ i b, (given answer)[i]? = some b →
                ∃ c ∈ arrived ++ [next.chunk], c.byteAt? (s.delivered + i) = some b)
            ∧ ∀ bytes, answer = .ok bytes → next.chunk ∈ s'.pending → next.chunk ∉ s.pending →
                s'.pendingBytes ≤ next.limit := by
  intro arrived s
  have htidy : s.Tidy := tidy_empty.insertAll
  have haccounts : ∀ chunks : List Chunk, arrived ⊆ chunks →
      Accounts (fun i b => ∃ c ∈ chunks, c.byteAt? i = some b) arrived
        (empty.insertAll arrivals).1 s := fun chunks hchunks =>
    accounts_insertAll fun a ha => Chunk.placedAt_byteAt? (hchunks (List.mem_map_of_mem ha))
  refine ⟨htidy.wellFormed.beyond, htidy.counted, ?_, ?_, fun next => ?_⟩
  · rw [positions_eq_range', (haccounts arrived (List.Subset.refl _)).length_out]
    exact (List.range_eq_range' ..).symm
  · intro hstop
    have h := haccounts arrived (List.Subset.refl _)
    refine ⟨?_, fun c hc => hstop c (h.held c hc)⟩
    have hle : s.delivered ≤ UInt64.size - 1 :=
      h.delivered_le fun c hc => Nat.le_sub_one_of_lt (hstop c hc)
    have hpos : 0 < UInt64.size := by decide
    omega
  · have h := haccounts (arrived ++ [next.chunk]) (List.subset_append_left _ _)
    have hnext := h.insert
      (fun c hc => Chunk.placedAt_byteAt? (List.mem_append_left _ hc))
      (Chunk.placedAt_byteAt? (List.mem_append_right arrived List.mem_cons_self)) next.limit
    refine ⟨htidy.insert?_eq_some _ _ _, delivered_insert _ _ _ _, ?_, ?_⟩
    · intro i b hb
      have hplaced := hnext.placed (s.delivered + i) b ?_
      · rwa [Nat.zero_add] at hplaced
      · rw [← h.length_out, List.getElem?_append_right (Nat.le_add_right _ _),
          Nat.add_sub_cancel_left]
        exact hb
    · intro bytes hok hheld hnew
      exact pendingBytes_le_of_mem_insert hok hheld hnew

/-- Two chunks wait, and the second was refused. A third one closes the gap and disagrees with the
first about the byte in which they overlap. -/
theorem insertAll_sound_overlap :
    let arrivals : List Arrival := [⟨⟨2, [7, 8]⟩, 4⟩, ⟨⟨4, [9, 9, 9]⟩, 3⟩]
    let s := (empty.insertAll arrivals).2
    s.pendingBytes = heldBytes s.pending ∧ s.pendingBytes = 5 ∧ s.delivered < UInt64.size
      ∧ s.insert? 0 [1, 2, 3] 0 = some (.ok [1, 2, 3, 8, 9, 9, 9], ⟨7, [], 0⟩)
      ∧ (∃ c ∈ arrivals.map Arrival.chunk ++ [⟨0, [1, 2, 3]⟩], c.byteAt? (0 + 3) = some 8) := by
  intro arrivals s
  obtain ⟨_, hcounted, _, hsize, hnext⟩ := insertAll_sound arrivals
  obtain ⟨hchecked, _, hbytes, _⟩ := hnext ⟨⟨0, [1, 2, 3]⟩, 0⟩
  exact ⟨hcounted, rfl, (hsize (by decide)).1, hchecked, hbytes 3 8 rfl⟩

end CryptoStream

end QuicTransport
