import QuicTransport.Error

set_option autoImplicit false

/-! # Versions

A version is a 32-bit word. Two of them have rules here, version 1 and version 2. They differ in the
salt of the Initial secrets, in the labels of key derivation and in the numbering of the long-header
packet types, and in nothing else; the numbering is in `PacketType`.

Zero is no version: it marks a Version Negotiation packet. Words of the form `0x?a?a?a?a` are kept
free so that peers get used to unknown versions. -/

namespace QuicTransport

/-- A version number. -/
structure Version where
  /-- The word on the wire. -/
  word : UInt32
deriving DecidableEq, Repr

namespace Version

/-- Version 1. -/
def v1 : Version := ⟨1⟩

/-- Version 2. -/
def v2 : Version := ⟨0x6b3343cf⟩

/-- The word that marks a Version Negotiation packet. -/
def negotiation : Version := ⟨0⟩

/-- Whether the word marks a Version Negotiation packet. -/
def isNegotiation (v : Version) : Bool := v.word == 0

/-- Whether the word is one of those kept free. -/
def isReserved (v : Version) : Bool := v.word &&& 0x0f0f0f0f == 0x0a0a0a0a

/-- Whether there are rules for the version. -/
def isSupported (v : Version) : Bool := v == v1 || v == v2

/-- The version as eight hexadecimal digits. -/
def text (v : Version) : String := s!"0x{Hex.padded 8 v.word.toNat}"

/-- The word in network byte order. -/
def bytes (v : Version) : Bytes := Bytes.bigEndian 4 v.word.toNat

/-- The version that four bytes denote. -/
def ofBytes (bs : Bytes) : Version := ⟨UInt32.ofNat (Bytes.ofBigEndian bs)⟩

/-! ## What depends on the version -/

/-- The labels that tell one derived key from another. -/
structure KeyLabels where
  key : Bytes
  iv : Bytes
  headerProtection : Bytes
deriving DecidableEq, Repr

/-- Everything that is particular to one version. -/
structure Rules where
  initialSalt : Bytes
  labels : KeyLabels
  /-- How far the numbers of the long-header packet types are shifted. -/
  typeShift : Nat
deriving DecidableEq, Repr

/-- The rules of version 1. -/
def rulesV1 : Rules where
  initialSalt := [0x38, 0x76, 0x2c, 0xf7, 0xf5, 0x59, 0x34, 0xb3, 0x4d, 0x17, 0x9a, 0xe6, 0xa4,
    0xc8, 0x0c, 0xad, 0xcc, 0xbb, 0x7f, 0x0a]
  labels := ⟨asciiBytes "quic key", asciiBytes "quic iv", asciiBytes "quic hp"⟩
  typeShift := 0

/-- The rules of version 2. -/
def rulesV2 : Rules where
  initialSalt := [0x0d, 0xed, 0xe3, 0xde, 0xf7, 0x00, 0xa6, 0xdb, 0x81, 0x93, 0x81, 0xbe, 0x6e,
    0x26, 0x9d, 0xcb, 0xf9, 0xbd, 0x2e, 0xd9]
  labels := ⟨asciiBytes "quicv2 key", asciiBytes "quicv2 iv", asciiBytes "quicv2 hp"⟩
  typeShift := 1

/-- The rules of a version, refused if there are none. -/
def rules (v : Version) : Result Rules :=
  if v = v1 then .ok rulesV1
  else if v = v2 then .ok rulesV2
  else .error (.unsupportedVersion v.word)

/-- Only two versions have rules. -/
theorem rules_eq_ok {v : Version} {rules : Rules} (h : v.rules = .ok rules) :
    v = .v1 ∧ rules = rulesV1 ∨ v = .v2 ∧ rules = rulesV2 := by
  unfold Version.rules at h
  split at h
  · next hv => exact Or.inl ⟨hv, (Except.ok.inj h).symm⟩
  · split at h
    · next hv => exact Or.inr ⟨hv, (Except.ok.inj h).symm⟩
    · cases h

/-- The salt of the Initial secrets. -/
def initialSalt (v : Version) : Result Bytes := v.rules.map Rules.initialSalt

/-- The labels of key derivation. -/
def keyLabels (v : Version) : Result KeyLabels := v.rules.map Rules.labels

end Version

end QuicTransport
