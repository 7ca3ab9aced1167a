import QuicTransport.Cipher.ChaCha20
import QuicTransport.Cipher.EncryptThenMac

set_option autoImplicit false

/-! # Poly1305 and ChaCha20-Poly1305

The tag of a message is the value of a polynomial modulo the prime `2^130 - 5`, masked with the
second half of a key that is used once. The coefficients are the blocks of the message, each with a
one bit above it; the argument is the first half of the key with some bits cleared.

With ChaCha20 the one-time key is the first block of keystream, and the text starts with
the second. -/

namespace QuicTransport

namespace Poly1305

/-- The modulus. -/
def modulus : Nat := 1 <<< 130 - 5

/-- The bits that the argument of the polynomial may have. -/
def clamp : Nat := 0x0ffffffc0ffffffc0ffffffc0fffffff

/-- The tag of a message under a one-time key of thirty-two bytes. -/
def tag (key message : Bytes) : Bytes :=
  let r := Bytes.ofLittleEndian (key.take 16) &&& clamp
  let s := Bytes.ofLittleEndian (key.drop 16)
  let value := (Bytes.chunks 16 message).foldl
    (fun sum bs => (sum + Bytes.ofLittleEndian (bs ++ [1])) * r % modulus) 0
  Bytes.littleEndian 16 (value + s)

end Poly1305

namespace ChaCha20

/-- A byte string filled up with zero bytes to whole blocks of sixteen. -/
def wholeBlocks (bs : Bytes) : Bytes := Bytes.padRight ((bs.length + 15) / 16 * 16) bs

/-- The message over which a tag is computed: associated data, ciphertext and both lengths. -/
def tagged (associated ciphertext : Bytes) : Bytes :=
  wholeBlocks associated ++ wholeBlocks ciphertext
    ++ Bytes.littleEndian 8 associated.length ++ Bytes.littleEndian 8 ciphertext.length

/-- ChaCha20-Poly1305 under one key and one nonce. -/
def withPoly1305 (key nonce : Bytes) : EncryptThenMac where
  keystream length := keystream key 1 nonce length
  tag associated ciphertext :=
    Poly1305.tag ((block key 0 nonce).take 32) (tagged associated ciphertext)
  length_keystream length := length_keystream key 1 nonce length
  length_tag associated ciphertext := by simp [Poly1305.tag, tagLength]

/-- The most bytes that a plaintext may have: the counter of the last block must not wrap. -/
def limit : Nat := 64 * (UInt32.size - 1) - 1

end ChaCha20

end QuicTransport
