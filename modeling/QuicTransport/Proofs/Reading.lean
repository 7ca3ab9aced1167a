import QuicTransport.Proofs.VarIntCodec

set_option autoImplicit false

/-! # What has been read

A reader that does not fail says what was in front of the bytes that it leaves, and it does not fail
where that is in front. Each of the basic readers is described in this way, and chaining as well, so
a reader that is chained with `do` is described by `simp` with the lemmas of its parts. -/

namespace QuicTransport.Reader

variable {α β : Type}

/-! ## Chaining -/

theorem pure_eq_ok {a b : α} {bs rest : Bytes} :
    (pure a : Reader α) bs = .ok (b, rest) ↔ b = a ∧ rest = bs := by
  constructor
  · intro h
    cases h
    exact ⟨rfl, rfl⟩
  · rintro ⟨rfl, rfl⟩
    rfl

/-- The second reader goes on where the first one stopped. -/
theorem bind_of_eq_ok {r : Reader α} {next : α → Reader β} {bs middle : Bytes} {a : α}
    (h : r bs = .ok (a, middle)) : (r >>= next) bs = next a middle := by
  change andThen r next bs = _
  rw [andThen, h]

/-- Nothing is read after a failure. -/
theorem bind_of_eq_error {r : Reader α} {next : α → Reader β} {bs : Bytes} {e : Error}
    (h : r bs = .error e) : (r >>= next) bs = .error e := by
  change andThen r next bs = _
  rw [andThen, h]

/-- Two readers in a row find something if the first does, and the second in what is left. -/
theorem bind_eq_ok {r : Reader α} {next : α → Reader β} {bs after : Bytes} {b : β} :
    (r >>= next) bs = .ok (b, after) ↔
      ∃ a middle, r bs = .ok (a, middle) ∧ next a middle = .ok (b, after) := by
  constructor
  · intro h
    change andThen r next bs = _ at h
    unfold andThen at h
    split at h
    · next a middle hfirst => exact ⟨a, middle, hfirst, h⟩
    · cases h
  · rintro ⟨a, middle, hfirst, hnext⟩
    rwa [bind_of_eq_ok hfirst]

/-- Two readers in a row fail if the first does, or the second in what is left. -/
theorem bind_eq_error {r : Reader α} {next : α → Reader β} {bs : Bytes} {e : Error} :
    (r >>= next) bs = .error e ↔
      r bs = .error e ∨ ∃ a middle, r bs = .ok (a, middle) ∧ next a middle = .error e := by
  cases hfirst : r bs with
  | error e' =>
    rw [bind_of_eq_error hfirst]
    simp
  | ok found =>
    obtain ⟨a, middle⟩ := found
    rw [bind_of_eq_ok hfirst]
    constructor
    · exact fun h => Or.inr ⟨a, middle, rfl, h⟩
    · rintro (h | ⟨_, _, ⟨⟩, h⟩)
      · cases h
      · exact h

theorem pure_ne_error {a : α} {bs : Bytes} {e : Error} : (pure a : Reader α) bs ≠ .error e := nofun

theorem lift_eq_ok {result : Result α} {a : α} {bs rest : Bytes} :
    lift result bs = .ok (a, rest) ↔ result = .ok a ∧ rest = bs := by
  cases result with
  | error e => exact iff_of_false nofun nofun
  | ok b =>
    rw [Except.ok.injEq, eq_comm (a := b)]
    exact pure_eq_ok

theorem require_eq_ok {condition : Bool} {e : Error} {u : Unit} {bs rest : Bytes} :
    require condition e bs = .ok (u, rest) ↔ condition = true ∧ rest = bs := by
  cases condition with
  | false => exact iff_of_false nofun nofun
  | true =>
    rw [eq_self, true_and]
    exact pure_eq_ok.trans (and_iff_right rfl)

theorem require_eq_error {condition : Bool} {e e' : Error} {bs : Bytes} :
    require condition e bs = .error e' ↔ condition = false ∧ e' = e := by
  cases condition with
  | false => simp [require, fail, eq_comm]
  | true => simp [require, done]

theorem map_eq_ok {r : Reader α} {f : α → β} {b : β} {bs rest : Bytes} :
    (f <$> r) bs = .ok (b, rest) ↔ ∃ a, r bs = .ok (a, rest) ∧ b = f a := by
  change (r >>= fun a => pure (f a)) bs = _ ↔ _
  rw [bind_eq_ok]
  constructor
  · rintro ⟨a, middle, hr, hpure⟩
    obtain ⟨hb, rfl⟩ := pure_eq_ok.1 hpure
    exact ⟨a, hr, hb⟩
  · rintro ⟨a, hr, hb⟩
    exact ⟨a, rest, hr, pure_eq_ok.2 ⟨hb, rfl⟩⟩

theorem map_eq_error {r : Reader α} {f : α → β} {bs : Bytes} {e : Error} :
    (f <$> r) bs = .error e ↔ r bs = .error e := by
  change (r >>= fun a => pure (f a)) bs = _ ↔ _
  rw [bind_eq_error]
  exact or_iff_left fun ⟨_, _, _, h⟩ => pure_ne_error h

/-! ## Basic readers -/

theorem byte_eq_ok {missing : Error} {b : UInt8} {bs rest : Bytes} :
    byte missing bs = .ok (b, rest) ↔ bs = b :: rest := by
  cases bs with
  | nil => exact iff_of_false nofun nofun
  | cons c bs => simp [byte]

theorem bytes_eq_ok {n : Nat} {missing : Error} {front bs rest : Bytes} :
    bytes n missing bs = .ok (front, rest) ↔ front.length = n ∧ bs = front ++ rest := by
  rw [and_comm, ← Bytes.split?_eq_some_iff]
  unfold bytes
  cases Bytes.split? n bs with
  | none => exact iff_of_false nofun nofun
  | some found => rw [Except.ok.injEq, Option.some.injEq]

theorem bytes_eq_error {n : Nat} {missing e : Error} {bs : Bytes} :
    bytes n missing bs = .error e ↔ bs.length < n ∧ e = missing := by
  rw [← Bytes.split?_eq_none_iff]
  unfold bytes
  cases Bytes.split? n bs <;> simp [eq_comm]

theorem fixed_eq_ok {n : Nat} {missing : Error} {v : FixedBytes n} {bs rest : Bytes} :
    fixed n missing bs = .ok (v, rest) ↔ bs = v.val ++ rest := by
  constructor
  · intro h
    unfold fixed at h
    split at h
    · next front after hsplit =>
      cases h
      exact (Bytes.split?_eq_some_iff.1 hsplit).1
    · cases h
  · rintro rfl
    obtain ⟨front, rfl⟩ := v
    unfold fixed
    split
    · next found after hsplit =>
      rw [Bytes.split?_append, Option.some.injEq, Prod.mk.injEq] at hsplit
      obtain ⟨rfl, rfl⟩ := hsplit
      rfl
    · next hsplit =>
      rw [Bytes.split?_append] at hsplit
      cases hsplit

theorem atLeast_eq_ok {n : Nat} {missing : Error} {u : Unit} {bs rest : Bytes} :
    atLeast n missing bs = .ok (u, rest) ↔ n ≤ bs.length ∧ rest = bs := by
  unfold atLeast
  rw [List.length_take]
  split
  · next hshort => exact iff_of_false nofun fun ⟨hle, _⟩ => by omega
  · next hroom =>
    rw [Except.ok.injEq, Prod.mk.injEq, eq_comm (a := bs)]
    exact and_congr_left fun _ => iff_of_true rfl (by omega)

/-- A run of bytes that meet a condition ends where the first byte does not. -/
theorem takeWhile_eq_ok {p : UInt8 → Bool} {a bs rest : Bytes} :
    takeWhile p bs = .ok (a, rest) ↔
      bs = a ++ rest ∧ (∀ b ∈ a, p b = true) ∧ ∀ b, rest.head? = some b → p b = false := by
  constructor
  · intro h
    rw [takeWhile, Except.ok.injEq, Prod.mk.injEq] at h
    obtain ⟨rfl, rfl⟩ := h
    refine ⟨List.takeWhile_append_dropWhile.symm, List.all_eq_true.1 List.all_takeWhile, ?_⟩
    intro b hb
    have hstop := List.head?_dropWhile_not p bs
    rw [hb] at hstop
    exact hstop
  · rintro ⟨rfl, ha, hrest⟩
    have hempty : rest.takeWhile p = [] ∧ rest.dropWhile p = rest := by
      cases rest with
      | nil => simp
      | cons b rest => simp [hrest b rfl]
    rw [takeWhile, List.takeWhile_append_of_pos ha, List.dropWhile_append_of_pos ha, hempty.1,
      hempty.2, List.append_nil]

theorem varInt_eq_ok {missing : Error} {n : Nat} {bs rest : Bytes} :
    varInt missing bs = .ok (n, rest) ↔ ∃ code, VarInt.IsCode n code ∧ bs = code ++ rest := by
  unfold varInt
  constructor
  · intro h
    split at h
    · next v after hdecode =>
      cases h
      exact VarInt.decode?_eq_some_iff.1 hdecode
    · cases h
  · rintro ⟨code, hcode, hbs⟩
    have hroom : n < 0x4000000000000000 := by
      obtain ⟨w, hlt, _⟩ := hcode
      exact Nat.lt_of_lt_of_le hlt w.capacity_le
    have hdecode : VarInt.decode? bs = some (⟨n, hroom⟩, rest) :=
      VarInt.decode?_eq_some_iff.2 ⟨code, hcode, hbs⟩
    rw [hdecode]

theorem remainder_eq_ok {a bs rest : Bytes} :
    remainder bs = .ok (a, rest) ↔ a = bs ∧ rest = [] := by
  simp [remainder, eq_comm]

theorem ahead_eq_ok {a bs rest : Bytes} : ahead bs = .ok (a, rest) ↔ a = bs ∧ rest = bs := by
  simp [ahead, eq_comm]

end QuicTransport.Reader
