import QuicTransport.Bytes

set_option autoImplicit false

/-! # Encrypt, then authenticate

Both authenticated ciphers of packet protection have the same shape. Under one key and one nonce
they give a keystream, which is added to the plaintext without carry, and a tag over the associated
data and the ciphertext, which is put behind it. The receiver computes the tag anew and gives up the
plaintext only if it agrees.

The main statements say that this is an exact correspondence: what was encrypted is given up again
(`decrypt?_encrypt`), and whatever is given up encrypts to what was received
(`encrypt_of_decrypt?`). -/

namespace QuicTransport

/-- The length of the tag that authenticates a packet. -/
def tagLength : Nat := 16

/-- A cipher under one key and one nonce. -/
structure EncryptThenMac where
  /-- At least so many bytes of keystream. -/
  keystream : (length : Nat) → Bytes
  /-- The tag over associated data and ciphertext. -/
  tag : (associated ciphertext : Bytes) → Bytes
  /-- The keystream is long enough. -/
  length_keystream : ∀ length, length ≤ (keystream length).length
  /-- Every tag has that length. -/
  length_tag : ∀ associated ciphertext, (tag associated ciphertext).length = tagLength

namespace EncryptThenMac

/-- Add the keystream. -/
def crypt (c : EncryptThenMac) (text : Bytes) : Bytes := Bytes.xor text (c.keystream text.length)

/-- The ciphertext with its tag behind it. -/
def encrypt (c : EncryptThenMac) (associated plaintext : Bytes) : Bytes :=
  let ciphertext := c.crypt plaintext
  ciphertext ++ c.tag associated ciphertext

/-- The plaintext, if the tag is there and agrees. -/
def decrypt? (c : EncryptThenMac) (associated received : Bytes) : Option Bytes :=
  if received.length < tagLength then none
  else
    let ciphertext := received.take (received.length - tagLength)
    if c.tag associated ciphertext = received.drop (received.length - tagLength) then
      some (c.crypt ciphertext)
    else none

@[simp] theorem length_crypt (c : EncryptThenMac) (text : Bytes) :
    (c.crypt text).length = text.length := by
  rw [crypt, Bytes.length_xor]
  exact Nat.min_eq_left (c.length_keystream _)

/-- Adding the keystream twice changes nothing. -/
theorem crypt_crypt (c : EncryptThenMac) (text : Bytes) : c.crypt (c.crypt text) = text := by
  rw [crypt, length_crypt, crypt]
  exact Bytes.xor_xor_cancel _ _ (c.length_keystream _)

@[simp] theorem length_encrypt (c : EncryptThenMac) (associated plaintext : Bytes) :
    (c.encrypt associated plaintext).length = plaintext.length + tagLength := by
  simp [encrypt, c.length_tag]

theorem decrypt?_encrypt (c : EncryptThenMac) (associated plaintext : Bytes) :
    c.decrypt? associated (c.encrypt associated plaintext) = some plaintext := by
  have hlen : (c.encrypt associated plaintext).length - tagLength = (c.crypt plaintext).length := by
    rw [length_encrypt, length_crypt, Nat.add_sub_cancel]
  rw [decrypt?, if_neg (by rw [length_encrypt]; omega)]
  simp only [hlen]
  simp only [encrypt, List.take_left, List.drop_left, if_true, crypt_crypt]

theorem encrypt_of_decrypt? {c : EncryptThenMac} {associated received plaintext : Bytes}
    (h : c.decrypt? associated received = some plaintext) :
    c.encrypt associated plaintext = received := by
  unfold decrypt? at h
  split at h
  · cases h
  · simp only at h
    split at h
    · next htag =>
      injection h with h
      rw [← h, encrypt]
      simp only [crypt_crypt, htag, List.take_append_drop]
    · cases h

end EncryptThenMac

end QuicTransport
