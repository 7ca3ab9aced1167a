import Mathlib.Data.List.DropRight
import QuicTransport.Directive
import QuicTransport.Proofs.KeyDerivation

set_option autoImplicit false

/-! # Keys are installed once

The keys of an epoch are two registers that can be written once: `sealer` for the keys of what this
endpoint sends, and `opener` for those of what the peer sends. The first installation for a register
that succeeds writes it, all that come later for the same register are refused, and dropping the
keys makes both writable again. So what is in a register can be read off the calls and their answers
(`Protector.slots_of_calls`): it is what the first successful installation since the keys were last
dropped put there.

An installation fails because its slot is taken, because the version has no rules, or because the
secret is too short, and in this order. `InstallStep` says once what it can do; whatever fails leaves
the protector as it was. `Protector.installIn` is the same operation on the protector itself, with
the two registers apart: it writes only after all that can fail. -/

namespace QuicTransport

/-! ## Slots -/

namespace KeySlot

/-- Whether a slot is for what this endpoint sends. -/
def isOwn : KeySlot → Bool
  | .sealer => true
  | .opener => false

theorem ofAuthor_eq_iff {author ours : Side} {s : KeySlot} :
    ofAuthor author ours = s ↔ decide (author = ours) = s.isOwn := by
  cases s <;> by_cases h : author = ours <;> simp [ofAuthor, isOwn, h]

theorem text_ofAuthor (author ours : Side) :
    (ofAuthor author ours).text = if author = ours then "sealer" else "opener" := by
  unfold ofAuthor
  split <;> rfl

end KeySlot

namespace Protector

theorem slot_ofAuthor (p : Protector) (author ours : Side) :
    p.slot (.ofAuthor author ours) = if author = ours then p.sealer else p.opener := by
  unfold KeySlot.ofAuthor
  split <;> rfl

theorem slot_fill (p : Protector) (keys : PacketKeys) (s s' : KeySlot) :
    (p.fill keys s).slot s' = if s' = s then some keys else p.slot s' := by
  cases s <;> cases s' <;> rfl

@[simp] theorem epoch_fill (p : Protector) (keys : PacketKeys) (s : KeySlot) :
    (p.fill keys s).epoch = p.epoch := by
  cases s <;> rfl

@[simp] theorem slot_dropKeys (p : Protector) (s : KeySlot) : p.dropKeys.slot s = none := by
  cases s <;> rfl

@[simp] theorem slot_empty (epoch : Epoch) (version : Version) (s : KeySlot) :
    (empty epoch version).slot s = none := by
  cases s <;> rfl

/-! ## Calls -/

/-- What can be done to the keys of an epoch. -/
inductive KeyCall where
  | install (suite : CipherSuite) (secret : Bytes) (author ours : Side)
  | drop
deriving DecidableEq, Repr

/-- Whether the call drops the keys. -/
def KeyCall.isDrop : KeyCall → Bool
  | .install .. => false
  | .drop => true

/-- One call, with its answer and the protector that it leaves behind. -/
def call (p : Protector) : KeyCall → Outcome Protector Unit
  | .install suite secret author ours =>
    match p.install suite secret author ours with
    | .ok filled => (.ok (), filled)
    | .error e => (.error e, p)
  | .drop => (.ok (), p.dropKeys)

/-- Install keys in the protector itself: those for what this endpoint sends into `sealer`, and
those for what the peer sends into `opener`. -/
def installIn (p : Protector) (suite : CipherSuite) (secret : Bytes) (author ours : Side) :
    Outcome Protector Unit :=
  if author = ours then
    if p.sealer.isSome then (.error (.crypto (.keyAlreadyInstalled "sealer")), p)
    else
      match PacketKeys.derive suite secret p.version with
      | .ok keys => (.ok (), { p with sealer := some keys })
      | .error e => (.error e, p)
  else
    if p.opener.isSome then (.error (.crypto (.keyAlreadyInstalled "opener")), p)
    else
      match PacketKeys.derive suite secret p.version with
      | .ok keys => (.ok (), { p with opener := some keys })
      | .error e => (.error e, p)

/-- The protector after some calls. -/
def run (p : Protector) (calls : List KeyCall) : Protector :=
  calls.foldl (fun q c => (q.call c).2) p

/-- The calls with their answers. -/
def history (p : Protector) : List KeyCall → List (KeyCall × Result Unit)
  | [] => []
  | c :: calls => (c, (p.call c).1) :: history (p.call c).2 calls

/-- What an installation can do: it is refused for one of three reasons and changes nothing, or it
fills its slot. -/
inductive InstallStep (p : Protector) (suite : CipherSuite) (secret : Bytes) (author ours : Side) :
    Prop
  | occupied {keys : PacketKeys} (hslot : p.slot (.ofAuthor author ours) = some keys)
    (hstep : p.call (.install suite secret author ours) =
      (.error (.crypto (.keyAlreadyInstalled (KeySlot.ofAuthor author ours).text)), p)) :
    InstallStep p suite secret author ours
  | unsupported (hslot : p.slot (.ofAuthor author ours) = none)
    (hversion : p.version.isSupported = false)
    (hstep : p.call (.install suite secret author ours) =
      (.error (.unsupportedVersion p.version.word), p)) : InstallStep p suite secret author ours
  | short (hslot : p.slot (.ofAuthor author ours) = none) (hversion : p.version.isSupported = true)
    (hsecret : secret.length < suite.secretLength)
    (hstep : p.call (.install suite secret author ours) =
      (.error (.crypto (.keyDerivation "secret shorter than hash output")), p)) :
    InstallStep p suite secret author ours
  | filled {keys : PacketKeys} (hslot : p.slot (.ofAuthor author ours) = none)
    (hversion : p.version.isSupported = true) (hsecret : suite.secretLength ≤ secret.length)
    (hkeys : PacketKeys.derive suite secret p.version = .ok keys)
    (hstep : p.call (.install suite secret author ours) =
      (.ok (), p.fill keys (.ofAuthor author ours))) : InstallStep p suite secret author ours

theorem install_of_error {p : Protector} {suite : CipherSuite} {secret : Bytes}
    {author ours : Side} {e : Error} (hempty : p.slot (.ofAuthor author ours) = none)
    (hkeys : PacketKeys.derive suite secret p.version = .error e) :
    p.install suite secret author ours = .error e := by
  rw [install, hempty, if_neg (by decide), hkeys]
  rfl

theorem call_install_of_error {p : Protector} {suite : CipherSuite} {secret : Bytes}
    {author ours : Side} {e : Error} (h : p.install suite secret author ours = .error e) :
    p.call (.install suite secret author ours) = (.error e, p) := by
  rw [call, h]

theorem installStep (p : Protector) (suite : CipherSuite) (secret : Bytes) (author ours : Side) :
    InstallStep p suite secret author ours := by
  cases hslot : p.slot (.ofAuthor author ours) with
  | some keys =>
    refine .occupied hslot (call_install_of_error ?_)
    rw [install, hslot, Option.isSome_some, if_pos rfl]
  | none =>
    cases hversion : p.version.isSupported with
    | false =>
      have hkeys := PacketKeys.derive_of_unsupported suite secret hversion
      exact .unsupported hslot hversion (call_install_of_error (install_of_error hslot hkeys))
    | true =>
      rcases Nat.lt_or_ge secret.length suite.secretLength with hshort | hlong
      · have hkeys := PacketKeys.derive_of_short hversion hshort
        exact .short hslot hversion hshort (call_install_of_error (install_of_error hslot hkeys))
      · obtain ⟨keys, hkeys⟩ := PacketKeys.exists_derive hlong hversion
        refine .filled hslot hversion hlong hkeys ?_
        rw [call, install_of_derive hslot hkeys]

/-! ## What is in a slot -/

/-- The keys that a call put into place, as far as its answer tells: those in the secret, if it was
an installation that succeeded. They are for our own data if the author of the data is this
endpoint, and for the peer's if it is not. -/
def installed? (version : Version) (own : Bool) : KeyCall × Result Unit → Option PacketKeys
  | (.install suite secret author ours, .ok ()) =>
    if decide (author = ours) = own then (PacketKeys.derive suite secret version).toOption
    else none
  | _ => none

/-- The calls since the keys were last dropped. -/
def sinceDrop (entries : List (KeyCall × Result Unit)) : List (KeyCall × Result Unit) :=
  entries.rtakeWhile fun entry => !entry.1.isDrop

/-- A slot that is taken is kept, and one that is not takes what is installed. -/
theorem slot_call_install (p : Protector) (suite : CipherSuite) (secret : Bytes)
    (author ours : Side) (s : KeySlot) :
    (p.call (.install suite secret author ours)).2.slot s =
      (p.slot s).or (installed? p.version s.isOwn (.install suite secret author ours,
        (p.call (.install suite secret author ours)).1)) := by
  cases installStep p suite secret author ours with
  | occupied _ hstep => simp [hstep, installed?]
  | unsupported _ _ hstep => simp [hstep, installed?]
  | short _ _ _ hstep => simp [hstep, installed?]
  | filled hslot _ _ hkeys hstep =>
    rw [hstep]
    by_cases hs : KeySlot.ofAuthor author ours = s
    · rw [installed?, if_pos (KeySlot.ofAuthor_eq_iff.1 hs), slot_fill, if_pos hs.symm, ← hs, hslot,
        hkeys]
      rfl
    · rw [installed?, if_neg (mt KeySlot.ofAuthor_eq_iff.2 hs), slot_fill, if_neg (Ne.symm hs),
        Option.or_none]

theorem version_call (p : Protector) (c : KeyCall) : (p.call c).2.version = p.version := by
  cases c with
  | install suite secret author ours =>
    cases installStep p suite secret author ours <;> simp [*]
  | drop => rfl

theorem epoch_call (p : Protector) (c : KeyCall) : (p.call c).2.epoch = p.epoch := by
  cases c with
  | install suite secret author ours =>
    cases installStep p suite secret author ours <;> simp [*]
  | drop => rfl

/-! ## Runs -/

@[simp] theorem run_concat (p : Protector) (calls : List KeyCall) (c : KeyCall) :
    p.run (calls ++ [c]) = ((p.run calls).call c).2 := by
  simp [run]

theorem history_concat (p : Protector) (calls : List KeyCall) (c : KeyCall) :
    p.history (calls ++ [c]) = p.history calls ++ [(c, ((p.run calls).call c).1)] := by
  induction calls generalizing p with
  | nil => rfl
  | cons d calls ih => simp [history, run, ih]

theorem version_run (p : Protector) (calls : List KeyCall) :
    (p.run calls).version = p.version := by
  induction calls using List.reverseRecOn with
  | nil => rfl
  | append_singleton calls c ih => rw [run_concat, version_call, ih]

theorem epoch_run (p : Protector) (calls : List KeyCall) : (p.run calls).epoch = p.epoch := by
  induction calls using List.reverseRecOn with
  | nil => rfl
  | append_singleton calls c ih => rw [run_concat, epoch_call, ih]

theorem sinceDrop_concat (entries : List (KeyCall × Result Unit)) (c : KeyCall)
    (answer : Result Unit) :
    sinceDrop (entries ++ [(c, answer)]) =
      if c.isDrop then [] else sinceDrop entries ++ [(c, answer)] := by
  cases hc : c.isDrop <;> simp [sinceDrop, hc]

theorem slot_run (epoch : Epoch) (version : Version) (calls : List KeyCall) (s : KeySlot) :
    ((empty epoch version).run calls).slot s =
      (sinceDrop ((empty epoch version).history calls)).findSome?
        (installed? version s.isOwn) := by
  induction calls using List.reverseRecOn with
  | nil => exact slot_empty epoch version s
  | append_singleton calls c ih =>
    rw [run_concat, history_concat, sinceDrop_concat]
    cases c with
    | drop => exact slot_dropKeys _ s
    | install suite secret author ours =>
      have hversion : ((empty epoch version).run calls).version = version := version_run _ calls
      rw [slot_call_install, ih, hversion]
      simp [KeyCall.isDrop, List.findSome?_append]

/-! ## Registers that are written once -/

theorem call_install_eq (p : Protector) (suite : CipherSuite) (secret : Bytes)
    (author ours : Side) :
    p.call (.install suite secret author ours) = p.installIn suite secret author ours := by
  by_cases hown : author = ours
  · simp only [call, install, installIn, KeySlot.ofAuthor, if_pos hown, slot, fill]
    cases p.sealer with
    | some keys => rfl
    | none => cases PacketKeys.derive suite secret p.version <;> rfl
  · simp only [call, install, installIn, KeySlot.ofAuthor, if_neg hown, slot, fill]
    cases p.opener with
    | some keys => rfl
    | none => cases PacketKeys.derive suite secret p.version <;> rfl

/-- How the calls on a protector are answered, and what they change. -/
structure WritesOnce (p : Protector) : Prop where
  /-- An installation writes one of the two registers, and only after all that can fail. -/
  installs : ∀ (suite : CipherSuite) (secret : Bytes) (author ours : Side),
    p.call (.install suite secret author ours) = p.installIn suite secret author ours
  /-- A register that is taken is the only reason to say so, whatever the secret. -/
  refused_iff : ∀ (suite : CipherSuite) (secret : Bytes) (author ours : Side) (name : String),
    (p.call (.install suite secret author ours)).1 =
        .error (.crypto (.keyAlreadyInstalled name)) ↔
      (if author = ours then p.sealer else p.opener).isSome = true
        ∧ name = if author = ours then "sealer" else "opener"
  succeeds_iff : ∀ (suite : CipherSuite) (secret : Bytes) (author ours : Side),
    (p.call (.install suite secret author ours)).1 = .ok () ↔
      (if author = ours then p.sealer else p.opener) = none ∧ p.version.isSupported = true
        ∧ suite.secretLength ≤ secret.length
  /-- What fails changes nothing. -/
  unchanged : ∀ (c : KeyCall) (e : Error), (p.call c).1 = .error e → (p.call c).2 = p
  drop_drop : ((p.call .drop).2.call .drop).2 = (p.call .drop).2

theorem writesOnce (p : Protector) : p.WritesOnce where
  installs := p.call_install_eq
  refused_iff suite secret author ours name := by
    rw [← slot_ofAuthor, ← KeySlot.text_ofAuthor]
    cases installStep p suite secret author ours with
    | occupied hslot hstep => simp [hstep, hslot, eq_comm]
    | unsupported hslot _ hstep => simp [hstep, hslot]
    | short hslot _ _ hstep => simp [hstep, hslot]
    | filled hslot _ _ _ hstep => simp [hstep, hslot]
  succeeds_iff suite secret author ours := by
    rw [← slot_ofAuthor]
    cases installStep p suite secret author ours with
    | occupied hslot hstep => simp [hstep, hslot]
    | unsupported _ hversion hstep => simp [hstep, hversion]
    | short _ _ hsecret hstep => simp [hstep, Nat.not_le.2 hsecret]
    | filled hslot hversion hsecret _ hstep => simp [hstep, hslot, hversion, hsecret]
  unchanged c e h := by
    cases c with
    | install suite secret author ours =>
      cases installStep p suite secret author ours with
      | occupied _ hstep => rw [hstep]
      | unsupported _ _ hstep => rw [hstep]
      | short _ _ _ hstep => rw [hstep]
      | filled _ _ _ _ hstep =>
        rw [hstep] at h
        cases h
    | drop => cases h
  drop_drop := rfl

/-- Whatever is called on a protector without keys, `sealer` holds what the first installation for
our own data that succeeded since the keys were last dropped put there, or nothing, and `opener`
what the first one for the peer's data put there. At any time an installation is told that its
register is taken exactly if it is, and what fails changes nothing. The epoch and the version
stay. -/
theorem slots_of_calls (epoch : Epoch) (version : Version) (calls : List KeyCall) :
    ((empty epoch version).run calls).sealer =
        (sinceDrop ((empty epoch version).history calls)).findSome? (installed? version true)
      ∧ ((empty epoch version).run calls).opener =
        (sinceDrop ((empty epoch version).history calls)).findSome? (installed? version false)
      ∧ ((empty epoch version).run calls).WritesOnce
      ∧ ((empty epoch version).run calls).epoch = epoch
      ∧ ((empty epoch version).run calls).version = version :=
  ⟨slot_run epoch version calls .sealer, slot_run epoch version calls .opener, writesOnce _,
    epoch_run _ calls, version_run _ calls⟩

end Protector

end QuicTransport
