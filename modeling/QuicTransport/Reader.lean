import QuicTransport.VarInt

set_option autoImplicit false

/-! # Readers

A reader takes what it needs from the front of a byte string and hands on the rest. Readers are
chained with `do`; the first that fails decides the error. Each of the basic readers is told which
error to give when its bytes are not there, because the same bytes are missed for different reasons
in a frame and in a header.

What a reader hands on is always the end of what it was given. That is stated once for each basic
reader and once for chaining (`Reader.Sound`), and it is why a loop over a byte string ends. -/

namespace QuicTransport

/-- A step that takes something from the front of a byte string. -/
def Reader (α : Type) : Type := Bytes → Result (α × Bytes)

namespace Reader

variable {α β : Type}

/-- Take nothing. -/
def done (a : α) : Reader α := fun bs => .ok (a, bs)

/-- Read, then go on with what was read. -/
def andThen (r : Reader α) (next : α → Reader β) : Reader β := fun bs =>
  match r bs with
  | .ok (a, rest) => next a rest
  | .error e => .error e

instance : Monad Reader where
  pure := done
  bind := andThen

/-- Fail. -/
def fail (e : Error) : Reader α := fun _ => .error e

/-- A result that was found without reading. -/
def lift : Result α → Reader α
  | .ok a => done a
  | .error e => fail e

/-- Go on only if a condition holds. -/
def require (condition : Bool) (e : Error) : Reader Unit :=
  if condition then done () else fail e

/-! ## Basic readers -/

/-- The next byte. -/
def byte (missing : Error) : Reader UInt8
  | [] => .error missing
  | b :: rest => .ok (b, rest)

/-- The next `n` bytes. -/
def bytes (n : Nat) (missing : Error) : Reader Bytes := fun bs =>
  match Bytes.split? n bs with
  | some (front, rest) => .ok (front, rest)
  | none => .error missing

/-- The next `n` bytes, with their number in the type. -/
def fixed (n : Nat) (missing : Error) : Reader (FixedBytes n) := fun bs =>
  match h : Bytes.split? n bs with
  | some (front, rest) => .ok (⟨front, (Bytes.split?_eq_some_iff.1 h).2⟩, rest)
  | none => .error missing

/-- All that is left. -/
def remainder : Reader Bytes := fun bs => .ok (bs, [])

/-- All that is left, without taking it. -/
def ahead : Reader Bytes := fun bs => .ok (bs, bs)

/-- Take nothing, but fail if fewer than `n` bytes are left. -/
def atLeast (n : Nat) (missing : Error) : Reader Unit := fun bs =>
  if (bs.take n).length < n then .error missing else .ok ((), bs)

/-- The next variable-length integer. -/
def varInt (missing : Error) : Reader Nat := fun bs =>
  match VarInt.decode? bs with
  | some (v, rest) => .ok (v.value, rest)
  | none => .error missing

/-- The next bytes as long as they meet a condition. -/
def takeWhile (p : UInt8 → Bool) : Reader Bytes := fun bs => .ok (bs.takeWhile p, bs.dropWhile p)

/-! ## What is handed on -/

/-- A reader hands on the end of what it was given. -/
def Sound (r : Reader α) : Prop :=
  ∀ {bs : Bytes} {a : α} {rest : Bytes}, r bs = .ok (a, rest) → rest <:+ bs

theorem sound_pure (a : α) : Sound (pure a : Reader α) := by
  intro bs b rest h
  injection h with h
  injection h with _ hrest
  exact hrest ▸ List.suffix_refl _

theorem sound_fail (e : Error) : Sound (fail e : Reader α) := by
  intro bs a rest h
  cases h

theorem sound_bind {r : Reader α} {next : α → Reader β} (hr : Sound r)
    (hnext : ∀ a, Sound (next a)) : Sound (r >>= next) := by
  intro bs b rest h
  change andThen r next bs = _ at h
  unfold andThen at h
  split at h
  · next a middle hmiddle => exact (hnext a h).trans (hr hmiddle)
  · cases h

theorem sound_map (f : α → β) {r : Reader α} (h : Sound r) : Sound (f <$> r) :=
  sound_bind h fun _ => sound_pure _

theorem sound_lift (result : Result α) : Sound (lift result) := by
  cases result with
  | ok a => exact sound_pure a
  | error e => exact sound_fail e

theorem sound_require (condition : Bool) (e : Error) : Sound (require condition e) := by
  unfold require
  split
  · exact sound_pure ()
  · exact sound_fail e

theorem sound_byte (missing : Error) : Sound (byte missing) := by
  intro bs b rest h
  cases bs with
  | nil => cases h
  | cons c bs =>
    simp only [byte, Except.ok.injEq, Prod.mk.injEq] at h
    exact h.2 ▸ List.suffix_cons c bs

theorem sound_bytes (n : Nat) (missing : Error) : Sound (bytes n missing) := by
  intro bs front rest h
  unfold bytes at h
  split at h
  · next f r hsplit =>
    simp only [Except.ok.injEq, Prod.mk.injEq] at h
    obtain ⟨rfl, rfl⟩ := h
    exact ⟨f, (Bytes.split?_eq_some_iff.1 hsplit).1.symm⟩
  · cases h

theorem sound_fixed (n : Nat) (missing : Error) : Sound (fixed n missing) := by
  intro bs front rest h
  unfold fixed at h
  split at h
  · next f r hsplit =>
    simp only [Except.ok.injEq, Prod.mk.injEq] at h
    obtain ⟨_, rfl⟩ := h
    exact ⟨f, (Bytes.split?_eq_some_iff.1 hsplit).1.symm⟩
  · cases h

theorem sound_remainder : Sound remainder := by
  intro bs a rest h
  simp only [remainder, Except.ok.injEq, Prod.mk.injEq] at h
  exact h.2 ▸ List.nil_suffix

theorem sound_ahead : Sound ahead := by
  intro bs a rest h
  simp only [ahead, Except.ok.injEq, Prod.mk.injEq] at h
  exact h.2 ▸ List.suffix_refl _

theorem sound_atLeast (n : Nat) (missing : Error) : Sound (atLeast n missing) := by
  intro bs a rest h
  unfold atLeast at h
  split at h
  · cases h
  · simp only [Except.ok.injEq, Prod.mk.injEq] at h
    exact h.2 ▸ List.suffix_refl _

/-- A variable-length integer takes at least one byte. -/
theorem varInt_shortens {missing : Error} {bs : Bytes} {n : Nat} {rest : Bytes}
    (h : varInt missing bs = .ok (n, rest)) : rest.length < bs.length := by
  unfold varInt at h
  split at h
  · next v r hdecode =>
    simp only [Except.ok.injEq, Prod.mk.injEq] at h
    exact h.2 ▸ VarInt.length_lt_of_decode? hdecode
  · cases h

theorem sound_varInt (missing : Error) : Sound (varInt missing) := by
  intro bs n rest h
  unfold varInt at h
  split at h
  · next v r hdecode =>
    simp only [Except.ok.injEq, Prod.mk.injEq] at h
    exact h.2 ▸ VarInt.suffix_of_decode? hdecode
  · cases h

theorem sound_takeWhile (p : UInt8 → Bool) : Sound (takeWhile p) := by
  intro bs a rest h
  simp only [takeWhile, Except.ok.injEq, Prod.mk.injEq] at h
  exact h.2 ▸ List.dropWhile_suffix p

end Reader

end QuicTransport
