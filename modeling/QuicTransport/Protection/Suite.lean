import QuicTransport.Cipher.Aead
import QuicTransport.Hash.Hkdf

set_option autoImplicit false

/-! # Cipher suites

A suite names an authenticated cipher and a hash function. The hash function derives keys: key
material is expanded from a secret for a label and a context.

The description handed to key derivation holds the length of the material, the label and the
context, each of the latter after its own length, so that no two purposes share one description. All
of them carry the same mark in front of the label. -/

namespace QuicTransport

/-- The suites in use. -/
inductive CipherSuite where
  | aes128GcmSha256
  | aes256GcmSha384
  | chaCha20Poly1305Sha256
deriving DecidableEq, Repr

namespace CipherSuite

/-- The number of a suite. -/
def code : CipherSuite → UInt16
  | .aes128GcmSha256 => 0x1301
  | .aes256GcmSha384 => 0x1302
  | .chaCha20Poly1305Sha256 => 0x1303

/-- The suite with a number. -/
def ofCode (n : UInt16) : Result CipherSuite :=
  match [aes128GcmSha256, aes256GcmSha384, chaCha20Poly1305Sha256].find? fun s => s.code == n with
  | some s => .ok s
  | none => .error (.crypto (.unsupportedCipherSuite n))

/-- The authenticated cipher. -/
def aead : CipherSuite → AeadAlgorithm
  | .aes128GcmSha256 => .aes128Gcm
  | .aes256GcmSha384 => .aes256Gcm
  | .chaCha20Poly1305Sha256 => .chaCha20Poly1305

/-- The hash function. -/
def hash : CipherSuite → HashFunction
  | .aes128GcmSha256 => .sha256
  | .aes256GcmSha384 => .sha384
  | .chaCha20Poly1305Sha256 => .sha256

/-- The length of a secret: that of a digest. -/
def secretLength (s : CipherSuite) : Nat := s.hash.digestLength

end CipherSuite

/-! ## Labels -/

/-- The mark in front of every label. -/
def labelMark : Bytes := asciiBytes "tls13 "

/-- The description of key material, refused if one of its parts is too long for its
length field. -/
def labelInfo (label context : Bytes) (length : Nat) : Result Bytes :=
  let marked := labelMark ++ label
  if length < UInt16.size ∧ marked.length < UInt8.size ∧ context.length < UInt8.size then
    .ok (Bytes.bigEndian 2 length
      ++ UInt8.ofNat marked.length :: marked
      ++ UInt8.ofNat context.length :: context)
  else .error (.crypto (.keyDerivation "HKDF label field too long"))

namespace CipherSuite

/-- Key material for a label and a context. -/
def expandLabel (s : CipherSuite) (secret label context : Bytes) (length : Nat) : Result Bytes := do
  let info ← labelInfo label context length
  s.hash.expand secret info length

/-- Key material has the length that was asked for. -/
theorem length_of_expandLabel {s : CipherSuite} {secret label context bs : Bytes} {length : Nat}
    (h : s.expandLabel secret label context length = .ok bs) : bs.length = length := by
  unfold expandLabel at h
  cases hinfo : labelInfo label context length with
  | error e =>
    rw [hinfo] at h
    cases h
  | ok info =>
    rw [hinfo] at h
    exact HashFunction.length_of_expand h

/-- Key material for a label alone, with its length in the type. -/
def expandFixed (s : CipherSuite) (secret label : Bytes) (length : Nat) :
    Result (FixedBytes length) :=
  match h : s.expandLabel secret label [] length with
  | .ok bs => .ok ⟨bs, length_of_expandLabel h⟩
  | .error e => .error e

end CipherSuite

end QuicTransport
