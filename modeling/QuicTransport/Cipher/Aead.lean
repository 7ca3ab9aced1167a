import QuicTransport.Cipher.Gcm
import QuicTransport.Cipher.Poly1305
import QuicTransport.Error

set_option autoImplicit false

/-! # The ciphers of packet protection

An `Aead` is an authenticated cipher that has its key. Packet protection knows no more of it than
how to encrypt and decrypt under a nonce, so any cipher can take its place. Three algorithms are
implemented here.

A `HeaderMask` is the second, smaller cipher that goes with it: it turns a sample of ciphertext into
a mask for the header. -/

namespace QuicTransport

/-! ## Authenticated encryption -/

/-- The length of a nonce. -/
def nonceLength : Nat := 12

/-- The authenticated ciphers. -/
inductive AeadAlgorithm where
  | aes128Gcm
  | aes256Gcm
  | chaCha20Poly1305
deriving DecidableEq, Repr

namespace AeadAlgorithm

/-- The length of a key. -/
def keyLength : AeadAlgorithm → Nat
  | .aes128Gcm => 16
  | .aes256Gcm => 32
  | .chaCha20Poly1305 => 32

/-- The name of an algorithm. -/
def text : AeadAlgorithm → String
  | .aes128Gcm => "Aes128Gcm"
  | .aes256Gcm => "Aes256Gcm"
  | .chaCha20Poly1305 => "ChaCha20Poly1305"

/-- Whether texts of these lengths are within what the cipher is safe for. -/
def admits (a : AeadAlgorithm) (associatedLength plaintextLength : Nat) : Bool :=
  match a with
  | .chaCha20Poly1305 => plaintextLength ≤ ChaCha20.limit
  | _ => decide (associatedLength ≤ Gcm.limit) && decide (plaintextLength ≤ Gcm.limit)

end AeadAlgorithm

/-- An authenticated cipher with its key. -/
structure Aead where
  algorithm : AeadAlgorithm
  /-- Encrypt a plaintext and authenticate it together with associated data. -/
  encrypt : (nonce : FixedBytes nonceLength) → (associated plaintext : Bytes) → Result Bytes
  /-- Decrypt what was received, if it authenticates. -/
  decrypt : (nonce : FixedBytes nonceLength) → (associated received : Bytes) → Result Bytes

namespace Aead

/-- The cipher that is `under` each nonce, within the limits of an algorithm. -/
def ofStreams (algorithm : AeadAlgorithm) (under : Bytes → EncryptThenMac) : Aead where
  algorithm := algorithm
  encrypt nonce associated plaintext :=
    if algorithm.admits associated.length plaintext.length then
      .ok ((under nonce.val).encrypt associated plaintext)
    else .error (.crypto (.keyDerivation "AEAD seal"))
  decrypt nonce associated received :=
    if algorithm.admits associated.length (received.length - tagLength) then
      match (under nonce.val).decrypt? associated received with
      | some plaintext => .ok plaintext
      | none => .error (.crypto .authenticationFailed)
    else .error (.crypto .authenticationFailed)

/-- The cipher with a key, refused if the key does not have the right length. -/
def ofKey (algorithm : AeadAlgorithm) (key : Bytes) : Result Aead :=
  if key.length = algorithm.keyLength then
    .ok (ofStreams algorithm (match algorithm with
      | .chaCha20Poly1305 => ChaCha20.withPoly1305 key
      | _ => Gcm.under (Aes.roundKeys key)))
  else .error (.crypto (.invalidKeyLength "AEAD"))

end Aead

/-! ## Header protection -/

/-- The ciphers that mask headers. -/
inductive MaskAlgorithm where
  | aes128
  | aes256
  | chaCha20
deriving DecidableEq, Repr

namespace MaskAlgorithm

/-- The length of a key. -/
def keyLength : MaskAlgorithm → Nat
  | .aes128 => 16
  | .aes256 => 32
  | .chaCha20 => 32

/-- The name of an algorithm. -/
def text : MaskAlgorithm → String
  | .aes128 => "Aes128"
  | .aes256 => "Aes256"
  | .chaCha20 => "ChaCha20"

end MaskAlgorithm

/-- The cipher that masks headers beside an authenticated cipher. -/
def AeadAlgorithm.headerMask : AeadAlgorithm → MaskAlgorithm
  | .aes128Gcm => .aes128
  | .aes256Gcm => .aes256
  | .chaCha20Poly1305 => .chaCha20

/-- A mask for one header. -/
structure Mask where
  /-- What covers the first byte. -/
  first : UInt8
  /-- What covers the packet number, however wide it is. -/
  number : FixedBytes 4
deriving DecidableEq

namespace Mask

/-- The mask in the first five bytes of a longer string. -/
def ofBytes (bs : Bytes) (h : 5 ≤ bs.length) : Mask :=
  ⟨bs.headD 0, (bs.drop 1).take 4, by rw [List.length_take, List.length_drop]; omega⟩

/-- The mask as five bytes. -/
def bytes (m : Mask) : Bytes := m.first :: m.number.val

end Mask

/-- A cipher that masks headers, with its key. -/
structure HeaderMask where
  algorithm : MaskAlgorithm
  /-- The mask for a sample of ciphertext. -/
  mask : (sample : FixedBytes 16) → Mask

namespace HeaderMask

/-- Encrypt the sample with AES. -/
def aesMask (key : Bytes) : (sample : FixedBytes 16) → Mask :=
  let keys := Aes.roundKeys key
  fun sample => Mask.ofBytes (Aes.encryptBytes keys sample.val) (by simp)

/-- ChaCha20 keystream, with the sample as counter and nonce. -/
def chaChaMask (key : Bytes) (sample : FixedBytes 16) : Mask :=
  Mask.ofBytes (ChaCha20.block key (Bytes.ofLittleEndian (sample.val.take 4)) (sample.val.drop 4))
    (by simp)

/-- The cipher with a key, refused if the key does not have the right length. -/
def ofKey (algorithm : MaskAlgorithm) (key : Bytes) : Result HeaderMask :=
  if key.length = algorithm.keyLength then
    .ok ⟨algorithm, match algorithm with
      | .chaCha20 => chaChaMask key
      | _ => aesMask key⟩
  else .error (.crypto (.invalidKeyLength "header protection"))

end HeaderMask

end QuicTransport
