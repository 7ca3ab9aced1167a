import QuicTransport.Proofs.CryptoBuffers

set_option autoImplicit false

/-! # What the limit of a stream limits

A stream compares the bytes that it holds with its limit only after it has put a chunk in its place,
and it counts bytes, not chunks. So the limit binds a peer less than it seems to. A chunk that is
refused stays, on top of what the limit allows, and a chunk without bytes beyond the gap takes a
place that nothing counts.

What is true is what `insertAll_within` says: a stream holds at most the limit and what it has
refused. It keeps within the limit exactly as long as it refuses nothing, and it holds no more
chunks than it holds bytes, apart from the chunks without bytes. No smaller bound would do
(`exists_refused_held`, `exists_empty_held`). -/

namespace QuicTransport

namespace CryptoStream

/-- Chunks that arrive under one limit. -/
def under (limit : Nat) (chunks : List Chunk) : List Arrival := chunks.map fun c => ⟨c, limit⟩

@[simp] theorem map_chunk_under (limit : Nat) (chunks : List Chunk) :
    (under limit chunks).map Arrival.chunk = chunks := by
  simp [under, Function.comp_def]

/-- The chunks that a stream answers with an error, as they arrive. -/
def refused (s : CryptoStream) : List Arrival → List Chunk
  | [] => []
  | a :: as =>
    let (answer, s') := s.insert a.chunk.offset a.chunk.data a.limit
    match answer with
    | .ok _ => s'.refused as
    | .error _ => a.chunk :: s'.refused as

variable {s : CryptoStream} {limit : Nat}

/-! ## Bytes -/

/-- Whatever becomes of a chunk, it adds no more than its own bytes. -/
theorem pendingBytes_insert_le_add (s : CryptoStream) (offset : Nat) (data : Bytes) (limit : Nat) :
    (s.insert offset data limit).2.pendingBytes ≤ s.pendingBytes + data.length := by
  by_cases hgap : s.delivered < offset
  · rw [insert_of_gap limit hgap]
    rcases hold_cases s ⟨offset, data⟩ limit with ⟨hsame, _⟩ | ⟨hkeep, _⟩
    · rw [hsame]
      exact Nat.le_add_right _ _
    · rw [hkeep]
      simp only [bytesWith]
      split <;> omega
  · by_cases hreach : s.delivered < offset + data.length
    · rw [insert_of_reach limit (Nat.le_of_not_lt hgap) hreach]
      exact (pendingBytes_release_le _ _ _).trans (Nat.le_add_right _ _)
    · rw [insert_of_stop_le limit (Nat.le_of_not_lt hreach)]
      exact Nat.le_add_right _ _

/-- A stream holds at most its limit, or what it held before, and what it has refused since. -/
theorem pendingBytes_insertAll_le (s : CryptoStream) (limit : Nat) (chunks : List Chunk) :
    (s.insertAll (under limit chunks)).2.pendingBytes ≤
      max s.pendingBytes limit + heldBytes (s.refused (under limit chunks)) := by
  induction chunks generalizing s with
  | nil => exact Nat.le_max_left _ _
  | cons c cs ih =>
    have hrest := ih (s.insert c.offset c.data limit).2
    have hadded := pendingBytes_insert_le_add s c.offset c.data limit
    simp only [under, List.map_cons, CryptoStream.insertAll, refused] at hrest ⊢
    rcases hinsert : s.insert c.offset c.data limit with ⟨answer, s'⟩
    rw [hinsert] at hrest hadded
    cases answer with
    | ok bytes =>
      have hle : s'.pendingBytes ≤ max s.pendingBytes limit := by
        have h := pendingBytes_insert_le (congrArg Prod.fst hinsert)
        rwa [hinsert] at h
      dsimp only at hrest ⊢
      omega
    | error e =>
      dsimp only at hrest hadded ⊢
      rw [heldBytes_cons]
      omega

/-- A stream within its limit refuses nothing exactly as long as it stays there. -/
theorem refused_eq_nil_iff (hs : s.pendingBytes ≤ limit) (chunks : List Chunk) :
    s.refused (under limit chunks) = [] ↔
      ∀ early, early <+: chunks → (s.insertAll (under limit early)).2.pendingBytes ≤ limit := by
  induction chunks generalizing s with
  | nil => simp [under, refused, CryptoStream.insertAll, hs]
  | cons c cs ih =>
    have hroom := insert_isOk_iff hs c.offset c.data
    have hfirst : (∀ early, early <+: c :: cs →
          (s.insertAll (under limit early)).2.pendingBytes ≤ limit) ↔
        ∀ early, early <+: cs → ((s.insert c.offset c.data limit).2.insertAll
          (under limit early)).2.pendingBytes ≤ limit := by
      simp only [List.prefix_cons_iff]
      constructor
      · intro h early hearly
        exact h (c :: early) (Or.inr ⟨early, rfl, hearly⟩)
      · rintro h early (rfl | ⟨early, rfl, hearly⟩)
        · exact hs
        · exact h early hearly
    rw [hfirst]
    simp only [under, List.map_cons, refused] at ih ⊢
    rcases hinsert : s.insert c.offset c.data limit with ⟨answer, s'⟩
    rw [hinsert] at hroom
    cases answer with
    | ok bytes => exact ih (hroom.1 ⟨bytes, rfl⟩)
    | error e =>
      have hfull : ¬ s'.pendingBytes ≤ limit := fun hle => by simpa using hroom.2 hle
      constructor
      · intro h
        cases h
      · intro h
        exact absurd (h [] List.nil_prefix) hfull

/-! ## Chunks -/

/-- Every chunk has a byte of its own, unless it has none at all. -/
theorem length_le_heldBytes_add (chunks : List Chunk) :
    chunks.length ≤ heldBytes chunks + chunks.countP fun c => c.data.isEmpty := by
  induction chunks with
  | nil => exact Nat.le_refl 0
  | cons c cs ih =>
    rw [List.length_cons, heldBytes_cons, List.countP_cons]
    cases hdata : c.data with
    | nil =>
      simp only [List.length_nil, List.isEmpty_nil, if_true]
      omega
    | cons b data =>
      simp only [List.length_cons, List.isEmpty_cons]
      omega

/-- Nothing is held that has not arrived, and nothing is held twice. -/
theorem countP_pending_le (p : Chunk → Bool) (arrivals : List Arrival) :
    (empty.insertAll arrivals).2.pending.countP p ≤
      (arrivals.map Arrival.chunk).countP p := by
  have haccounts : Accounts (fun _ _ => True) (arrivals.map Arrival.chunk)
      (empty.insertAll arrivals).1 (empty.insertAll arrivals).2 :=
    accounts_insertAll fun _ _ _ _ _ => trivial
  exact (List.subperm_of_subset haccounts.wellFormed.nodup haccounts.held).countP_le p

/-- Out of order, a stream holds at most its limit and what it has refused. It keeps within the
limit exactly as long as it refuses nothing. It holds no more chunks than bytes, apart from those
that arrived without a byte; so if there are none of these and nothing is refused, the limit is
one for the chunks as well. -/
theorem insertAll_within (limit : Nat) (chunks : List Chunk) :
    let s := (empty.insertAll (under limit chunks)).2
    let refused := empty.refused (under limit chunks)
    let empties := chunks.countP fun c => c.data.isEmpty
    s.pendingBytes ≤ limit + heldBytes refused
      ∧ (refused = [] ↔ ∀ early, early <+: chunks →
          (empty.insertAll (under limit early)).2.pendingBytes ≤ limit)
      ∧ s.pending.length ≤ s.pendingBytes + empties
      ∧ (refused = [] → empties = 0 → s.pendingBytes ≤ limit ∧ s.pending.length ≤ limit) := by
  intro s refused empties
  have hstart : empty.pendingBytes ≤ limit := Nat.zero_le limit
  have hbytes : s.pendingBytes ≤ limit + heldBytes refused := by
    have h := pendingBytes_insertAll_le empty limit chunks
    rwa [Nat.max_eq_right hstart] at h
  have hlength : s.pending.length ≤ s.pendingBytes + empties := by
    have hempties := countP_pending_le (fun c => c.data.isEmpty) (under limit chunks)
    rw [map_chunk_under] at hempties
    rw [tidy_empty.insertAll.counted]
    exact (length_le_heldBytes_add _).trans (Nat.add_le_add_left hempties _)
  refine ⟨hbytes, refused_eq_nil_iff hstart chunks, hlength, fun hrefused hempties => ?_⟩
  rw [hrefused, heldBytes_nil] at hbytes
  omega

/-- Five bytes are held under a limit of four, although they are refused. A chunk without bytes is
held under a limit of zero, and it is not refused. -/
theorem held_over_limit :
    let refusal := empty.insertAll (under 4 [⟨1, [1, 2, 3, 4, 5]⟩])
    let hollow := empty.insertAll (under 0 [⟨1, []⟩])
    (empty.insert 1 [1, 2, 3, 4, 5] 4).1 = .error (.transport .cryptoBufferExceeded)
      ∧ refusal.2.pendingBytes = 5 ∧ ¬ refusal.2.pendingBytes ≤ 4
      ∧ (empty.insert 1 [] 0).1 = .ok []
      ∧ hollow.2.pending.length = 1 ∧ ¬ hollow.2.pending.length ≤ 0 := by
  decide

/-! ## No smaller bound -/

/-- What is refused can be held to the last byte, next to as much as the limit allows. -/
theorem exists_refused_held (limit n : Nat) : ∃ chunks : List Chunk,
    heldBytes (empty.refused (under limit chunks)) = n
      ∧ (empty.insertAll (under limit chunks)).2.pendingBytes = limit + n := by
  refine ⟨[⟨1, List.replicate limit 0⟩, ⟨2, List.replicate n 0⟩], ?_⟩
  have hfirst : empty.insert 1 (List.replicate limit 0) limit =
      (.ok [], ⟨0, [⟨1, List.replicate limit 0⟩], limit⟩) := by
    rw [insert_of_gap limit (by decide)]
    simp [hold, heldAt?, keep, bytesWith, empty]
  have hsecond : (CryptoStream.mk 0 [⟨1, List.replicate limit 0⟩] limit).insert 2
      (List.replicate n 0) limit =
        (if n = 0 then .ok [] else .error (.transport .cryptoBufferExceeded),
          ⟨0, [⟨1, List.replicate limit 0⟩, ⟨2, List.replicate n 0⟩], limit + n⟩) := by
    rw [insert_of_gap limit (Nat.succ_pos 1)]
    rcases Nat.eq_zero_or_pos n with rfl | hn
    · simp [hold, heldAt?, keep, bytesWith]
    · simp [hold, heldAt?, keep, bytesWith, hn, Nat.ne_of_gt hn]
  simp only [under, List.map_cons, List.map_nil, refused, CryptoStream.insertAll, hfirst, hsecond]
  rcases Nat.eq_zero_or_pos n with rfl | hn
  · simp
  · simp [Nat.ne_of_gt hn]

/-- Chunks without bytes at the positions up to `n`, from the last to the first. -/
def hollow : (n : Nat) → List Chunk
  | 0 => []
  | n + 1 => ⟨n + 1, []⟩ :: hollow n

/-- A chunk without bytes is held in front of those that are held. -/
theorem insert_hollow {offset : Nat} {pending : List Chunk} (limit : Nat) (hpos : 0 < offset)
    (hlater : ∀ c ∈ pending, offset < c.offset) :
    (CryptoStream.mk 0 pending 0).insert offset [] limit =
      (.ok [], ⟨0, ⟨offset, []⟩ :: pending, 0⟩) := by
  have hnone : heldAt? offset pending = none :=
    heldAt?_eq_none fun c hc => Nat.ne_of_gt (hlater c hc)
  have hkeep : keep ⟨offset, []⟩ pending = ⟨offset, []⟩ :: pending := by
    cases pending with
    | nil => rfl
    | cons d ds => rw [keep, if_pos (hlater d List.mem_cons_self)]
  rw [insert_of_gap limit hpos]
  simp [hold, hnone, hkeep, bytesWith]

/-- Chunks without bytes are held in any number, and none of them is refused. -/
theorem exists_empty_held (limit n : Nat) : ∃ chunks : List Chunk,
    empty.refused (under limit chunks) = []
      ∧ (empty.insertAll (under limit chunks)).2.pendingBytes = 0
      ∧ (empty.insertAll (under limit chunks)).2.pending.length = n := by
  have hrun : ∀ pending : List Chunk, (∀ c ∈ pending, n < c.offset) →
      (CryptoStream.mk 0 pending 0).refused (under limit (hollow n)) = []
        ∧ ((CryptoStream.mk 0 pending 0).insertAll (under limit (hollow n))).2.pendingBytes = 0
        ∧ ((CryptoStream.mk 0 pending 0).insertAll (under limit (hollow n))).2.pending.length =
          pending.length + n := by
    induction n with
    | zero => simp [hollow, under, refused, CryptoStream.insertAll]
    | succ n ih =>
      intro pending hlater
      have hrest := ih (⟨n + 1, []⟩ :: pending) fun c hc => by
        rcases List.mem_cons.1 hc with rfl | hc
        · exact Nat.lt_succ_self n
        · exact Nat.lt_of_succ_lt (hlater c hc)
      simp only [under, hollow, List.map_cons, refused, CryptoStream.insertAll,
        insert_hollow limit (Nat.succ_pos n) hlater] at hrest ⊢
      refine ⟨hrest.1, hrest.2.1, hrest.2.2.trans ?_⟩
      rw [List.length_cons]
      omega
  refine ⟨hollow n, ?_⟩
  simpa [empty] using hrun [] (by simp)

end CryptoStream

end QuicTransport
