import QuicTransport.Error
import QuicTransport.Hash.Hmac

set_option autoImplicit false

/-! # Key derivation

A secret is extracted once from raw material and a salt. From the secret, key material of any length
is expanded: a chain of keyed digests, each of them over the one before, a description of the
purpose and a counter. The counter is one byte, so there is an end to it. -/

namespace QuicTransport.HashFunction

/-- The secret in raw material. -/
def extract (h : HashFunction) (salt material : Bytes) : Bytes := h.keyedDigest salt material

@[simp] theorem length_extract (h : HashFunction) (salt material : Bytes) :
    (h.extract salt material).length = h.digestLength :=
  h.length_keyedDigest _ _

/-- `count` blocks of key material, the first of them with the given counter. -/
def expandBlocks (h : HashFunction) (secret info : Bytes) :
    (count counter : Nat) → (previous : Bytes) → Bytes
  | 0, _, _ => []
  | count + 1, counter, previous =>
    let block := h.keyedDigest secret (previous ++ info ++ [UInt8.ofNat counter])
    block ++ expandBlocks h secret info count (counter + 1) block

theorem length_expandBlocks (h : HashFunction) (secret info : Bytes) (count counter : Nat)
    (previous : Bytes) :
    (h.expandBlocks secret info count counter previous).length = count * h.digestLength := by
  induction count generalizing counter previous with
  | zero => simp [expandBlocks]
  | succ count ih =>
    rw [expandBlocks, List.length_append, length_keyedDigest, ih, Nat.succ_mul, Nat.add_comm]

/-- The number of digests that hold `length` bytes. -/
def blockCount (h : HashFunction) (length : Nat) : Nat :=
  (length + h.digestLength - 1) / h.digestLength

/-- Key material of the given length. The secret has to be as long as a digest, and at most 255
digests can be had from it. -/
def expand (h : HashFunction) (secret info : Bytes) (length : Nat) : Result Bytes :=
  if secret.length < h.digestLength then
    .error (.crypto (.keyDerivation "secret shorter than hash output"))
  else if 255 * h.digestLength < length then
    .error (.crypto (.keyDerivation "HKDF output too long"))
  else .ok ((h.expandBlocks secret info (h.blockCount length) 1 []).take length)

/-- Key material has the length that was asked for. -/
theorem length_of_expand {h : HashFunction} {secret info bs : Bytes} {length : Nat}
    (hexpand : h.expand secret info length = .ok bs) : bs.length = length := by
  unfold expand at hexpand
  split at hexpand
  · cases hexpand
  · split at hexpand
    · cases hexpand
    · next hlimit =>
      injection hexpand with hexpand
      rw [← hexpand, List.length_take, length_expandBlocks, Nat.min_eq_left]
      have hdigest : 0 < h.digestLength ∨ length = 0 := by
        cases hd : h.digestLength with
        | zero =>
          rw [hd] at hlimit
          omega
        | succ d => exact Or.inl (Nat.succ_pos d)
      rcases hdigest with hpos | rfl
      · have hdiv := Nat.div_add_mod (length + h.digestLength - 1) h.digestLength
        have hmod := Nat.mod_lt (length + h.digestLength - 1) hpos
        rw [Nat.mul_comm] at hdiv
        simp only [blockCount]
        omega
      · exact Nat.zero_le _

end QuicTransport.HashFunction
