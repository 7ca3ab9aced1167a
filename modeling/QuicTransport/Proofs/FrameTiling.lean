import QuicTransport.Proofs.FrameSequence

set_option autoImplicit false

/-! # Frames tile a payload

`Frame.decodeEach` goes on with what the frame before has left. The same items come out if the
payload is kept whole and only an offset moves: `Frame.next?` reads the frame at an offset and gives
the offset behind it, and `Frame.offsetOf` is where the reader stands after so many items. Behind a
frame that cannot be read the reader stands at the end of the payload, so nothing comes after it.

Each step moves the offset forward and never beyond the end (`lt_of_next?`), and leaves to the next
step what the frame has not used (`decodeEach_drop_of_next?`). By induction what is left at an
offset is read as the items that are left (`decodeEach_drop_offsetOf`). The frames therefore lie
side by side and cover the payload, unless one of them cannot be read. -/

namespace QuicTransport

/-! ## Results in a row -/

namespace Result

variable {α : Type}

theorem mapM_id_eq_ok_iff {items : List (Result α)} {as : List α} :
    items.mapM id = .ok as ↔ items = as.map .ok := by
  induction items generalizing as with
  | nil =>
    cases as with
    | nil => exact iff_of_true rfl rfl
    | cons a as => exact iff_of_false nofun nofun
  | cons item items ih =>
    rw [List.mapM_cons, bind_eq_ok]
    constructor
    · rintro ⟨a, rfl, h⟩
      obtain ⟨others, hothers, ⟨⟩⟩ := bind_eq_ok.1 h
      rw [List.map_cons, ih.1 hothers]
    · intro h
      cases as with
      | nil => cases h
      | cons a as =>
        obtain ⟨rfl, rfl⟩ := List.cons_eq_cons.1 h
        exact ⟨a, rfl, bind_eq_ok.2 ⟨as, ih.2 rfl, rfl⟩⟩

theorem mem_of_mapM_id_eq_error {items : List (Result α)} {e : Error}
    (h : items.mapM id = .error e) : .error e ∈ items := by
  induction items with
  | nil => cases h
  | cons item items ih =>
    rw [List.mapM_cons, bind_eq_error] at h
    rcases h with rfl | ⟨a, _, h⟩
    · exact List.mem_cons_self
    · rcases bind_eq_error.1 h with h | ⟨_, _, ⟨⟩⟩
      exact List.mem_cons_of_mem _ (ih h)

end Result

namespace Frame

variable {payload bs : Bytes} {offset : Nat}

theorem decodeAll_eq_ok_iff {fs : List Frame} :
    decodeAll payload = .ok fs ↔ decodeEach payload = fs.map .ok :=
  Result.mapM_id_eq_ok_iff

theorem decodeEach_of_error {e : Error} (hbs : bs ≠ []) (h : decode bs = .error e) :
    decodeEach bs = [.error e] := by
  obtain ⟨b, bs, rfl⟩ := List.exists_cons_of_ne_nil hbs
  rw [decodeEach]
  split
  · next hdecode =>
    rw [h] at hdecode
    cases hdecode
  · next hdecode =>
    rw [h] at hdecode
    cases hdecode
    rfl

theorem sound_decode : Reader.Sound decode := by
  intro bs f rest h
  refine Reader.sound_bind (Reader.sound_varInt _) (fun n => ?_) h
  split
  · exact Reader.sound_map _ (Reader.sound_takeWhile _)
  · exact sound_readBody n

/-! ## One step -/

/-- What is read at an offset of a payload, and the offset behind it. After a failure that is the
end of the payload. At the end there is nothing to read. -/
def next? (payload : Bytes) (offset : Nat) : Option (Result Frame × Nat) :=
  if offset < payload.length then
    match decode (payload.drop offset) with
    | .ok (f, rest) => some (.ok f, offset + ((payload.drop offset).length - rest.length))
    | .error e => some (.error e, payload.length)
  else none

theorem next?_eq_none_iff : next? payload offset = none ↔ payload.length ≤ offset := by
  unfold next?
  split
  · next hlt =>
    refine iff_of_false ?_ (Nat.not_le_of_lt hlt)
    split <;> nofun
  · next hle => exact iff_of_true rfl (Nat.le_of_not_lt hle)

/-- A step either finds a frame and stands in front of what it has left, or fails and stands at the
end. -/
theorem next?_cases {item : Result Frame} {next : Nat}
    (h : next? payload offset = some (item, next)) :
    offset < payload.length
      ∧ ((∃ f, item = .ok f ∧ decode (payload.drop offset) = .ok (f, payload.drop next)
          ∧ next = offset + ((payload.drop offset).length - (payload.drop next).length))
        ∨ ∃ e, item = .error e ∧ decode (payload.drop offset) = .error e
          ∧ next = payload.length) := by
  unfold next? at h
  split at h
  · next hlt =>
    refine ⟨hlt, ?_⟩
    split at h
    · next f rest hread =>
      injection h with h
      injection h with hitem hnext
      have hrest : rest = payload.drop next := by
        rw [List.suffix_iff_eq_drop.1 (sound_decode hread), List.drop_drop, hnext]
      exact .inl ⟨f, hitem.symm, hrest ▸ hread, hrest ▸ hnext.symm⟩
    · next e hread =>
      injection h with h
      injection h with hitem hnext
      exact .inr ⟨e, hitem.symm, hread, hnext.symm⟩
  · cases h

theorem lt_of_next? {item : Result Frame} {next : Nat}
    (h : next? payload offset = some (item, next)) :
    offset < next ∧ next ≤ payload.length := by
  obtain ⟨hlt, ⟨f, _, hread, hnext⟩ | ⟨e, _, _, rfl⟩⟩ := next?_cases h
  · have hshort := decode_shortens hread
    rw [List.length_drop, List.length_drop] at hshort hnext
    omega
  · exact ⟨hlt, Nat.le_refl _⟩

theorem decodeEach_drop_of_next? {item : Result Frame} {next : Nat}
    (h : next? payload offset = some (item, next)) :
    decodeEach (payload.drop offset) = item :: decodeEach (payload.drop next) := by
  obtain ⟨hlt, ⟨f, rfl, hread, _⟩ | ⟨e, rfl, hread, rfl⟩⟩ := next?_cases h
  · exact decodeEach_of_decode hread
  · rw [List.drop_length, decodeEach_nil]
    refine decodeEach_of_error (fun hnil => ?_) hread
    exact Nat.not_le_of_lt hlt (List.drop_eq_nil_iff.1 hnil)

theorem decodeEach_drop_of_next?_eq_none (h : next? payload offset = none) :
    decodeEach (payload.drop offset) = [] := by
  rw [List.drop_eq_nil_of_le (next?_eq_none_iff.1 h), decodeEach_nil]

/-! ## A run -/

/-- Where the reader stands after some items, or after all of them if there are no more. -/
def offsetOf (payload : Bytes) : (items : Nat) → Nat
  | 0 => 0
  | i + 1 =>
    match next? payload (offsetOf payload i) with
    | some (_, next) => next
    | none => offsetOf payload i

theorem offsetOf_le (payload : Bytes) (i : Nat) : offsetOf payload i ≤ payload.length := by
  induction i with
  | zero => exact Nat.zero_le _
  | succ i ih =>
    rw [offsetOf]
    split
    · next hnext => exact (lt_of_next? hnext).2
    · exact ih

/-- What is left behind some items is read as the items that are left. -/
theorem decodeEach_drop_offsetOf (payload : Bytes) (i : Nat) :
    decodeEach (payload.drop (offsetOf payload i)) = (decodeEach payload).drop i := by
  induction i with
  | zero => rfl
  | succ i ih =>
    rw [offsetOf, ← List.tail_drop, ← ih]
    split
    · next hnext => rw [decodeEach_drop_of_next? hnext, List.tail_cons]
    · next hnone => rw [decodeEach_drop_of_next?_eq_none hnone, List.tail_nil]

/-- Each item is what a step finds where the items before it end. -/
theorem next?_offsetOf {i : Nat} (h : i < (decodeEach payload).length) :
    next? payload (offsetOf payload i) =
      some ((decodeEach payload)[i], offsetOf payload (i + 1)) := by
  have hleft := decodeEach_drop_offsetOf payload i
  rw [List.drop_eq_getElem_cons h] at hleft
  cases hnext : next? payload (offsetOf payload i) with
  | none =>
    rw [decodeEach_drop_of_next?_eq_none hnext] at hleft
    cases hleft
  | some found =>
    obtain ⟨item, next⟩ := found
    rw [decodeEach_drop_of_next? hnext] at hleft
    injection hleft with hitem _
    rw [offsetOf, hnext, hitem]

/-- The reader stops at the end of the payload. -/
theorem offsetOf_length (payload : Bytes) :
    offsetOf payload (decodeEach payload).length = payload.length := by
  refine Nat.le_antisymm (offsetOf_le payload _) (Nat.le_of_not_lt fun hlt => ?_)
  have hleft := decodeEach_drop_offsetOf payload (decodeEach payload).length
  rw [List.drop_length] at hleft
  cases hnext : next? payload (offsetOf payload (decodeEach payload).length) with
  | none => exact Nat.not_le_of_lt hlt (next?_eq_none_iff.1 hnext)
  | some found =>
    rw [decodeEach_drop_of_next? hnext] at hleft
    cases hleft

theorem le_offsetOf {i : Nat} (h : i ≤ (decodeEach payload).length) : i ≤ offsetOf payload i := by
  induction i with
  | zero => exact Nat.zero_le _
  | succ i ih =>
    have hlt := (lt_of_next? (next?_offsetOf h)).1
    have hle := ih (Nat.le_of_succ_le h)
    omega

/-- Behind a failure nothing is read. -/
theorem length_of_error {i : Nat} {e : Error} (h : (decodeEach payload)[i]? = some (.error e)) :
    (decodeEach payload).length = i + 1 := by
  obtain ⟨hi, hitem⟩ := List.getElem?_eq_some_iff.1 h
  obtain ⟨_, ⟨f, hok, _⟩ | ⟨_, _, _, hnext⟩⟩ := next?_cases (next?_offsetOf hi)
  · rw [hitem] at hok
    cases hok
  · have hleft := decodeEach_drop_offsetOf payload (i + 1)
    rw [hnext, List.drop_length, decodeEach_nil] at hleft
    exact Nat.le_antisymm (List.drop_eq_nil_iff.1 hleft.symm) hi

theorem decodeAll_eq_error_iff {e : Error} :
    decodeAll payload = .error e ↔ .error e ∈ decodeEach payload := by
  refine ⟨Result.mem_of_mapM_id_eq_error, fun hmem => ?_⟩
  obtain ⟨i, hi⟩ := List.mem_iff_getElem?.1 hmem
  cases hall : decodeAll payload with
  | ok fs =>
    rw [decodeAll_eq_ok_iff.1 hall] at hmem
    obtain ⟨f, _, ⟨⟩⟩ := List.mem_map.1 hmem
  | error e' =>
    -- both are the last item
    obtain ⟨j, hj⟩ := List.mem_iff_getElem?.1 (Result.mem_of_mapM_id_eq_error hall)
    have hsame : i = j := by
      have hlast := length_of_error hi
      rw [length_of_error hj] at hlast
      omega
    rw [hsame, hj] at hi
    cases hi
    rfl

/-- Items lie side by side in a payload, from its start on: each is what is read where it begins,
and it ends where the next one begins. Only the last can be a failure, and without one the items
cover the payload. -/
structure Tiles (payload : Bytes) (items : List (Result Frame)) (offset : Nat → Nat) : Prop where
  start : offset 0 = 0
  ascends : ∀ i < items.length, offset i < offset (i + 1)
  item : ∀ i item, items[i]? = some item →
    item = (decode (payload.drop (offset i))).map Prod.fst
  consumed : ∀ i < items.length, ∀ f rest, decode (payload.drop (offset i)) = .ok (f, rest) →
    rest = payload.drop (offset (i + 1))
      ∧ offset (i + 1) - offset i = (payload.drop (offset i)).length - rest.length
  covers : (∀ e, .error e ∉ items) → offset items.length = payload.length
  last : ∀ i e, items[i]? = some (.error e) → i + 1 = items.length

/-- The items of a payload are no more than its bytes, and they tile it. All frames of the payload
are the items if none of them is a failure, and else the result is the one failure. -/
theorem tiles_decodeEach (payload : Bytes) :
    (decodeEach payload).length ≤ payload.length
      ∧ Tiles payload (decodeEach payload) (offsetOf payload)
      ∧ (∀ fs, decodeAll payload = .ok fs ↔ decodeEach payload = fs.map .ok)
      ∧ ∀ e, decodeAll payload = .error e ↔ .error e ∈ decodeEach payload := by
  refine ⟨?_, ⟨rfl, ?_, ?_, ?_, fun _ => offsetOf_length payload, ?_⟩,
    fun fs => decodeAll_eq_ok_iff, fun e => decodeAll_eq_error_iff⟩
  · exact (le_offsetOf (Nat.le_refl _)).trans (offsetOf_le payload _)
  · intro i hi
    exact (lt_of_next? (next?_offsetOf hi)).1
  · intro i item hitem
    obtain ⟨hi, rfl⟩ := List.getElem?_eq_some_iff.1 hitem
    obtain ⟨_, ⟨f, hok, hread, _⟩ | ⟨e, herror, hread, _⟩⟩ := next?_cases (next?_offsetOf hi)
    · rw [hok, hread]
      rfl
    · rw [herror, hread]
      rfl
  · intro i hi f rest hread
    obtain ⟨_, ⟨g, _, hfound, hnext⟩ | ⟨e, _, hfailed, _⟩⟩ := next?_cases (next?_offsetOf hi)
    · rw [hread] at hfound
      cases hfound
      exact ⟨rfl, by omega⟩
    · rw [hread] at hfailed
      cases hfailed
  · intro i e hitem
    exact (length_of_error hitem).symm

/-- Two zero bytes, a PING, and a type number that no frame has. -/
example : (List.range 4).map (offsetOf [0, 0, 1, 0x21, 5]) = [0, 2, 3, 5] := by decide

end Frame

end QuicTransport
