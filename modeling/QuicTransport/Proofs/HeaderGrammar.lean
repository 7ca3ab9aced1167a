import QuicTransport.Datagram
import QuicTransport.Proofs.FirstByte
import QuicTransport.Proofs.Reading

set_option autoImplicit false

/-! # The grammar of headers

Before any key is used, a packet is read as far as its packet number. This file says which byte
strings can be read in this way. A `Segment` is the bytes of one packet together with the fields
that they spell out: the first byte, the version, the identifiers with their lengths, the token with
its length, and the length of what is left. The fields are written as a writer writes them, except
that a length may be written at any width that has room for it. What the fields have to satisfy is
part of the type.

The reader finds a packet at the front of a datagram exactly if a segment stands there
(`Datagram.readPacket_eq_ok`). The segment decides what is found. What follows it plays no role,
but only behind a long header with a length may anything follow at all. -/

namespace QuicTransport

/-! ## Versions -/

namespace Version

/-- The type bits that a version gives to a kind of packet mean that kind in the version. -/
theorem packetType_of_typeBits {v : Version} {type : PacketType} {bits : Nat}
    (h : v.typeBits type = .ok bits) :
    v.isSupported = true ∧ bits < 4 ∧ v.packetType bits = .ok type := by
  obtain ⟨rules, hrules, hbits⟩ := Result.bind_eq_ok.1 h
  rcases rules_eq_ok hrules with ⟨rfl, rfl⟩ | ⟨rfl, rfl⟩ <;>
    cases type <;> cases hbits <;> exact ⟨by decide, by decide, rfl⟩

/-- Two bits mean one kind of packet only, and it is given these bits. -/
theorem typeBits_of_packetType {v : Version} {type : PacketType} {bits : Nat} (hbits : bits < 4)
    (h : v.packetType bits = .ok type) : v.typeBits type = .ok bits := by
  obtain ⟨rules, hrules, htype⟩ := Result.bind_eq_ok.1 h
  have hcases : bits = 0 ∨ bits = 1 ∨ bits = 2 ∨ bits = 3 := by omega
  rcases rules_eq_ok hrules with ⟨rfl, rfl⟩ | ⟨rfl, rfl⟩ <;>
    rcases hcases with rfl | rfl | rfl | rfl <;> cases htype <;> rfl

theorem ofBytes_bytes (v : Version) : ofBytes v.bytes = v := by
  have hword : v.word.toNat < Bytes.span 4 := v.word.toNat_lt
  rw [ofBytes, bytes, Bytes.ofBigEndian_bigEndian hword, UInt32.ofNat_toNat]

theorem bytes_ofBytes {bs : Bytes} (h : bs.length = 4) : (ofBytes bs).bytes = bs := by
  have hlt : Bytes.ofBigEndian bs < 2 ^ 32 := by
    have hspan := Bytes.ofBigEndian_lt bs
    rw [h] at hspan
    exact hspan
  rw [bytes, ofBytes, UInt32.toNat_ofNat', Nat.mod_eq_of_lt hlt, ← h, Bytes.bigEndian_ofBigEndian]

theorem isNegotiation_of_isSupported {v : Version} (h : v.isSupported = true) :
    v.isNegotiation = false := by
  rw [isSupported, Bool.or_eq_true, beq_iff_eq, beq_iff_eq] at h
  rcases h with rfl | rfl <;> decide

theorem isNegotiation_iff {v : Version} : v.isNegotiation = true ↔ v = .negotiation := by
  obtain ⟨word⟩ := v
  simp [isNegotiation, negotiation]

end Version

namespace Datagram

/-! ## Segments -/

/-- What a packet of some kind says about its token. Only an Initial packet has a token, with its
length in front. A Retry packet is not read. -/
def IsTokenField : PacketType → (token field : Bytes) → Prop
  | .initial, token, field => ∃ length, VarInt.IsCode token.length length ∧ field = length ++ token
  | .retry, _, _ => False
  | _, token, field => token = [] ∧ field = []

/-- A packet with a short header. -/
structure ShortSegment (config : Config) where
  first : UInt8
  dcid : ConnectionId
  /-- The packet number and the payload, under protection. -/
  body : Bytes
  /-- The high bit is zero, and the fixed bit below it is one. -/
  form : first.toNat.testBit 7 = false
  isFixed : first.toNat.testBit 6 = true
  /-- The reader has to know the length of the identifier. -/
  length_dcid : dcid.length = config.shortHeaderDcidLength

/-- A Version Negotiation packet. -/
structure NegotiationSegment (config : Config) where
  first : UInt8
  dcid : ConnectionId
  scid : ConnectionId
  list : Bytes
  /-- The high bit is one. Of the other bits nothing is asked. -/
  form : first.toNat.testBit 7 = true
  length_dcid_le : dcid.length ≤ config.longHeaderCidLimit
  length_scid_le : scid.length ≤ config.longHeaderCidLimit
  /-- There are four bytes to a version. -/
  length_list : list.length % 4 = 0

/-- A numbered packet with a long header. -/
structure LongSegment (config : Config) where
  first : UInt8
  version : Version
  dcid : ConnectionId
  scid : ConnectionId
  type : PacketType
  token : Bytes
  tokenField : Bytes
  lengthField : Bytes
  /-- The packet number and the payload, under protection. -/
  body : Bytes
  /-- The high bit is one, and so is the fixed bit below it. -/
  form : first.toNat.testBit 7 = true
  isFixed : first.toNat.testBit 6 = true
  isSupported : version.isSupported = true
  /-- The next two bits are those that the version gives to the kind of the packet. -/
  typeBits : version.typeBits type = .ok (first.toNat / 0x10 % 4)
  length_dcid_le : dcid.length ≤ config.longHeaderCidLimit
  length_scid_le : scid.length ≤ config.longHeaderCidLimit
  isTokenField : IsTokenField type token tokenField
  /-- The header says how long the rest of the packet is. -/
  isCode_length : VarInt.IsCode body.length lengthField

variable {config : Config}

namespace ShortSegment

/-- All of the packet. -/
def bytes (s : ShortSegment config) : Bytes := s.first :: s.dcid.bytes ++ s.body

/-- What a reader without keys finds. -/
def packet (s : ShortSegment config) : ProtectedPacket where
  type := .oneRtt
  version := none
  dcid := s.dcid
  scid := none
  token := []
  numberOffset := 1 + s.dcid.length
  bytes := s.bytes

end ShortSegment

namespace NegotiationSegment

/-- All of the packet. -/
def bytes (s : NegotiationSegment config) : Bytes :=
  invariantBytes s.first .negotiation s.dcid s.scid ++ s.list

/-- What a reader finds. -/
def packet (s : NegotiationSegment config) : VersionNegotiation :=
  ⟨s.dcid, s.scid, Version.listOfBytes s.list⟩

end NegotiationSegment

namespace LongSegment

/-- The header up to the packet number. -/
def header (s : LongSegment config) : Bytes :=
  invariantBytes s.first s.version s.dcid s.scid ++ s.tokenField ++ s.lengthField

/-- All of the packet. -/
def bytes (s : LongSegment config) : Bytes := s.header ++ s.body

/-- What a reader without keys finds. -/
def packet (s : LongSegment config) : ProtectedPacket where
  type := s.type
  version := some s.version
  dcid := s.dcid
  scid := some s.scid
  token := s.token
  numberOffset := s.header.length
  bytes := s.bytes

end LongSegment

/-- One packet of a datagram. -/
inductive Segment (config : Config) where
  | short (segment : ShortSegment config)
  | negotiation (segment : NegotiationSegment config)
  | long (segment : LongSegment config)

namespace Segment

/-- All of the packet. -/
def bytes : Segment config → Bytes
  | .short s => s.bytes
  | .negotiation s => s.bytes
  | .long s => s.bytes

/-- Whether the packet is of a kind that is passed over. -/
def isSkipped : Segment config → Bool
  | .long s => s.type == .zeroRtt
  | _ => false

/-- What comes of the packet. -/
def item? : Segment config → Option Item
  | .short s => some (.packet s.packet)
  | .negotiation s => some (.negotiation s.packet)
  | .long s => if s.type = .zeroRtt then none else some (.packet s.packet)

/-- Whether the packet tells where it ends. If it does not, it reaches to the end of the
datagram. -/
def isDelimited : Segment config → Bool
  | .long _ => true
  | _ => false

end Segment

/-! ## Fields -/

section Fields

variable {bs rest : Bytes}

theorem readVersion_eq_ok {v : Version} :
    readVersion bs = .ok (v, rest) ↔ bs = v.bytes ++ rest := by
  unfold readVersion
  rw [Reader.map_eq_ok]
  constructor
  · rintro ⟨word, hword, rfl⟩
    obtain ⟨hlength, rfl⟩ := Reader.bytes_eq_ok.1 hword
    rw [Version.bytes_ofBytes hlength]
  · rintro rfl
    exact ⟨v.bytes, Reader.bytes_eq_ok.2 ⟨Bytes.length_bigEndian _ _, rfl⟩, v.ofBytes_bytes.symm⟩

theorem readCidOf_eq_ok {length : Nat} {cid : ConnectionId} :
    readCidOf length bs = .ok (cid, rest) ↔ cid.length = length ∧ bs = cid.bytes ++ rest := by
  unfold readCidOf
  rw [Reader.bind_eq_ok]
  constructor
  · rintro ⟨found, middle, hfound, hcid⟩
    obtain ⟨hlength, rfl⟩ := Reader.bytes_eq_ok.1 hfound
    cases hc : ConnectionId.ofBytes? found with
    | none =>
      rw [hc] at hcid
      cases hcid
    | some c =>
      rw [hc] at hcid
      obtain ⟨rfl, rfl⟩ := Reader.pure_eq_ok.1 hcid
      obtain rfl := ConnectionId.ofBytes?_eq_some_iff.1 hc
      exact ⟨hlength, rfl⟩
  · rintro ⟨rfl, rfl⟩
    refine ⟨cid.bytes, rest, Reader.bytes_eq_ok.2 ⟨rfl, rfl⟩, ?_⟩
    rw [ConnectionId.ofBytes?_bytes]
    rfl

theorem readCid_eq_ok {limit : Nat} {cid : ConnectionId} :
    readCid limit bs = .ok (cid, rest) ↔
      cid.length ≤ limit ∧ bs = UInt8.ofNat cid.length :: cid.bytes ++ rest := by
  unfold readCid
  simp only [Reader.bind_eq_ok, readByte, Reader.byte_eq_ok, Reader.require_eq_ok, readCidOf_eq_ok,
    decide_eq_true_eq]
  constructor
  · rintro ⟨length, _, rfl, _, _, ⟨hle, rfl⟩, hlength, rfl⟩
    rw [hlength]
    exact ⟨hle, by simp⟩
  · rintro ⟨hle, rfl⟩
    exact ⟨UInt8.ofNat cid.length, cid.bytes ++ rest, rfl, (), cid.bytes ++ rest,
      ⟨cid.toNat_ofNat_length.symm ▸ hle, rfl⟩, cid.toNat_ofNat_length.symm, rfl⟩

theorem readToken_eq_ok {type : PacketType} {token : Bytes} :
    readToken type bs = .ok (token, rest) ↔
      ∃ field, IsTokenField type token field ∧ bs = field ++ rest := by
  have hnone : (pure [] : Reader Bytes) bs = .ok (token, rest) ↔
      ∃ field, (token = [] ∧ field = []) ∧ bs = field ++ rest := by
    rw [Reader.pure_eq_ok]
    constructor
    · rintro ⟨rfl, rfl⟩
      exact ⟨[], ⟨rfl, rfl⟩, rfl⟩
    · rintro ⟨_, ⟨rfl, rfl⟩, rfl⟩
      exact ⟨rfl, rfl⟩
  cases type with
  | initial =>
    simp only [readToken, readNumber, readBytes, Reader.bind_eq_ok, Reader.varInt_eq_ok,
      Reader.bytes_eq_ok, IsTokenField]
    constructor
    · rintro ⟨_, _, ⟨code, hcode, rfl⟩, rfl, rfl⟩
      exact ⟨code ++ token, ⟨code, hcode, rfl⟩, (List.append_assoc _ _ _).symm⟩
    · rintro ⟨_, ⟨code, hcode, rfl⟩, rfl⟩
      exact ⟨token.length, token ++ rest, ⟨code, hcode, List.append_assoc _ _ _⟩, rfl, rfl⟩
  | retry => exact iff_of_false nofun fun ⟨_, hfield, _⟩ => hfield
  | _ => exact hnone

end Fields

/-! ## Packets -/

theorem invariantBytes_append (first : UInt8) (version : Version) (dcid scid : ConnectionId)
    (rest : Bytes) :
    invariantBytes first version dcid scid ++ rest =
      first :: (version.bytes ++ (UInt8.ofNat dcid.length :: dcid.bytes
        ++ (UInt8.ofNat scid.length :: scid.bytes ++ rest))) := by
  simp [invariantBytes]

theorem readShort_eq_ok {whole bs rest : Bytes} {item : Item} :
    readShort config whole bs = .ok (item, rest) ↔
      ∃ (dcid : ConnectionId) (body : Bytes), dcid.length = config.shortHeaderDcidLength
        ∧ bs = dcid.bytes ++ body ∧ rest = []
        ∧ item = .packet ⟨.oneRtt, none, dcid, none, [], 1 + dcid.length, whole⟩ := by
  simp only [readShort, Reader.bind_eq_ok, readCidOf_eq_ok, Reader.remainder_eq_ok,
    Reader.pure_eq_ok]
  constructor
  · rintro ⟨dcid, body, ⟨hlength, rfl⟩, _, _, ⟨rfl, rfl⟩, rfl, rfl⟩
    exact ⟨dcid, _, hlength, rfl, rfl, by rw [hlength]⟩
  · rintro ⟨dcid, body, hlength, rfl, rfl, rfl⟩
    exact ⟨dcid, body, ⟨hlength, rfl⟩, body, [], ⟨rfl, rfl⟩, by rw [hlength], rfl⟩

theorem readVersions_eq_ok {dcid scid : ConnectionId} {bs rest : Bytes} {item : Item} :
    readVersions dcid scid bs = .ok (item, rest) ↔
      bs.length % 4 = 0 ∧ rest = [] ∧ item = .negotiation ⟨dcid, scid, Version.listOfBytes bs⟩ := by
  simp only [readVersions, insist, Reader.bind_eq_ok, Reader.remainder_eq_ok, Reader.require_eq_ok,
    Reader.pure_eq_ok, beq_iff_eq]
  constructor
  · rintro ⟨_, _, ⟨rfl, rfl⟩, _, _, ⟨hlength, rfl⟩, rfl, rfl⟩
    exact ⟨hlength, rfl, rfl⟩
  · rintro ⟨hlength, rfl, rfl⟩
    exact ⟨bs, [], ⟨rfl, rfl⟩, (), [], ⟨hlength, rfl⟩, rfl, rfl⟩

/-- What is read behind the identifiers, where `whole` is all that there is. -/
theorem readNumbered_eq_ok {whole bs rest : Bytes} {first : UInt8} {version : Version}
    {dcid scid : ConnectionId} {item : Option Item} :
    readNumbered whole first version dcid scid bs = .ok (item, rest) ↔
      ∃ (type : PacketType) (token tokenField lengthField body : Bytes),
        first.toNat.testBit 6 = true ∧ version.isSupported = true
          ∧ version.packetType (first.toNat / 0x10 % 4) = .ok type
          ∧ IsTokenField type token tokenField ∧ VarInt.IsCode body.length lengthField
          ∧ bs = tokenField ++ (lengthField ++ (body ++ rest))
          ∧ item = if type = .zeroRtt then none else some (.packet ⟨type, some version, dcid,
            some scid, token, whole.length - (body ++ rest).length,
            whole.take (whole.length - (body ++ rest).length + body.length)⟩) := by
  simp only [readNumbered, insist, readNumber, FirstByte.isFixed_eq_testBit,
    FirstByte.typeBits_eq_mod, Reader.bind_eq_ok, Reader.require_eq_ok,
    Reader.lift_eq_ok, readToken_eq_ok, Reader.varInt_eq_ok, Reader.ahead_eq_ok,
    Reader.bytes_eq_ok, Reader.pure_eq_ok]
  constructor
  · rintro ⟨_, _, ⟨hfixed, rfl⟩, _, _, ⟨hversion, rfl⟩, type, _, ⟨htype, rfl⟩, token, _,
      ⟨tokenField, htoken, rfl⟩, _, _, ⟨lengthField, hlength, rfl⟩, _, _, ⟨rfl, rfl⟩, body, _,
      ⟨rfl, rfl⟩, rfl, rfl⟩
    exact ⟨type, token, tokenField, lengthField, body, hfixed, hversion, htype, htoken, hlength,
      rfl, rfl⟩
  · rintro ⟨type, token, tokenField, lengthField, body, hfixed, hversion, htype, htoken, hlength,
      rfl, rfl⟩
    exact ⟨(), _, ⟨hfixed, rfl⟩, (), _, ⟨hversion, rfl⟩, type, _, ⟨htype, rfl⟩, token, _,
      ⟨tokenField, htoken, rfl⟩, body.length, body ++ rest, ⟨lengthField, hlength, rfl⟩, _, _,
      ⟨rfl, rfl⟩, body, rest, ⟨rfl, rfl⟩, rfl, rfl⟩

/-! ## Whole packets -/

theorem readPacket_of_short {first : UInt8} {bs rest : Bytes} {item : Option Item}
    (hform : first.toNat.testBit 7 = false) :
    readPacket config (first :: bs) = .ok (item, rest) ↔
      first.toNat.testBit 6 = true
        ∧ ∃ found, readShort config (first :: bs) bs = .ok (found, rest) ∧ item = some found := by
  have hread : readPacket config (first :: bs) = (do
      insist (FirstByte.isFixed first) "fixed bit not set"
      some <$> readShort config (first :: bs) : Reader (Option Item)) bs := by
    change readAfter config (first :: bs) first bs = _
    rw [readAfter, HeaderForm.ofFirstByte_eq_short_iff.2 hform]
  rw [hread]
  simp only [insist, FirstByte.isFixed_eq_testBit, Reader.bind_eq_ok, Reader.require_eq_ok, Reader.map_eq_ok]
  constructor
  · rintro ⟨_, _, ⟨hfixed, rfl⟩, hfound⟩
    exact ⟨hfixed, hfound⟩
  · rintro ⟨hfixed, hfound⟩
    exact ⟨(), bs, ⟨hfixed, rfl⟩, hfound⟩

theorem readPacket_of_long {first : UInt8} {bs rest : Bytes} {item : Option Item}
    (hform : first.toNat.testBit 7 = true) :
    readPacket config (first :: bs) = .ok (item, rest) ↔
      ∃ (version : Version) (dcid scid : ConnectionId) (after : Bytes),
        dcid.length ≤ config.longHeaderCidLimit ∧ scid.length ≤ config.longHeaderCidLimit
          ∧ first :: bs = invariantBytes first version dcid scid ++ after
          ∧ (if version.isNegotiation then some <$> readVersions dcid scid
            else readNumbered (first :: bs) first version dcid scid) after = .ok (item, rest) := by
  have hread : readPacket config (first :: bs) = readLong config (first :: bs) first bs := by
    change readAfter config (first :: bs) first bs = _
    rw [readAfter, HeaderForm.ofFirstByte_eq_long_iff.2 hform]
  rw [hread]
  simp only [readLong, Reader.bind_eq_ok, readVersion_eq_ok, readCid_eq_ok, invariantBytes_append,
    List.cons.injEq, true_and]
  constructor
  · rintro ⟨version, _, rfl, dcid, _, ⟨hdcid, rfl⟩, scid, after, ⟨hscid, rfl⟩, hfound⟩
    exact ⟨version, dcid, scid, after, hdcid, hscid, rfl, hfound⟩
  · rintro ⟨version, dcid, scid, after, hdcid, hscid, hbs, hfound⟩
    exact ⟨version, _, hbs, dcid, _, ⟨hdcid, rfl⟩, scid, after, ⟨hscid, rfl⟩, hfound⟩

namespace LongSegment

/-- Only two kinds of packets with a long header are not passed over. -/
theorem type_cases (s : LongSegment config) :
    s.type = .zeroRtt ∨ s.type = .initial ∨ s.type = .handshake := by
  have htypeBits := s.typeBits
  have htoken := s.isTokenField
  cases htype : s.type with
  | initial => exact Or.inr (Or.inl rfl)
  | zeroRtt => exact Or.inl rfl
  | handshake => exact Or.inr (Or.inr rfl)
  | retry =>
    rw [htype] at htoken
    cases htoken
  | oneRtt =>
    rw [htype] at htypeBits
    obtain ⟨_, _, hbits⟩ := Result.bind_eq_ok.1 htypeBits
    cases hbits
  | versionNegotiation =>
    rw [htype] at htypeBits
    obtain ⟨_, _, hbits⟩ := Result.bind_eq_ok.1 htypeBits
    cases hbits

theorem bytes_append (s : LongSegment config) (rest : Bytes) :
    s.bytes ++ rest = invariantBytes s.first s.version s.dcid s.scid
      ++ (s.tokenField ++ (s.lengthField ++ (s.body ++ rest))) := by
  simp [bytes, header]

/-- Where the packet ends is known from the length of what comes behind the header. -/
theorem packet_eq (s : LongSegment config) (rest : Bytes) :
    s.packet = ⟨s.type, some s.version, s.dcid, some s.scid, s.token,
      (s.bytes ++ rest).length - (s.body ++ rest).length,
      (s.bytes ++ rest).take
        ((s.bytes ++ rest).length - (s.body ++ rest).length + s.body.length)⟩ := by
  have hlength : s.bytes.length = s.header.length + s.body.length := List.length_append
  have hoffset : (s.bytes ++ rest).length - (s.body ++ rest).length = s.header.length := by
    rw [List.length_append, List.length_append]
    omega
  rw [hoffset, ← hlength, List.take_left]
  rfl

end LongSegment

/-- The bytes of a segment are read as the packet that the segment spells out. -/
theorem readPacket_bytes (s : Segment config) (rest : Bytes)
    (hrest : s.isDelimited = true ∨ rest = []) :
    readPacket config (s.bytes ++ rest) = .ok (s.item?, rest) := by
  cases s with
  | short s =>
    obtain rfl := hrest.resolve_left nofun
    rw [List.append_nil]
    exact (readPacket_of_short s.form).2 ⟨s.isFixed, _,
      readShort_eq_ok.2 ⟨s.dcid, s.body, s.length_dcid, rfl, rfl, rfl⟩, rfl⟩
  | negotiation s =>
    obtain rfl := hrest.resolve_left nofun
    rw [List.append_nil]
    refine (readPacket_of_long s.form).2 ⟨.negotiation, s.dcid, s.scid, s.list, s.length_dcid_le,
      s.length_scid_le, rfl, ?_⟩
    exact Reader.map_eq_ok.2 ⟨_, readVersions_eq_ok.2 ⟨s.length_list, rfl, rfl⟩, rfl⟩
  | long s =>
    refine (readPacket_of_long s.form).2 ⟨s.version, s.dcid, s.scid, _, s.length_dcid_le,
      s.length_scid_le, s.bytes_append rest, ?_⟩
    rw [Version.isNegotiation_of_isSupported s.isSupported]
    refine readNumbered_eq_ok.2 ⟨s.type, s.token, s.tokenField, s.lengthField, s.body, s.isFixed,
      s.isSupported, (Version.packetType_of_typeBits s.typeBits).2.2, s.isTokenField,
      s.isCode_length, rfl, ?_⟩
    exact congrArg (fun q => if s.type = .zeroRtt then none else some (Item.packet q))
      (s.packet_eq rest)

/-- What can be read from the front of a datagram is a segment. -/
theorem exists_segment_of_readPacket {whole rest : Bytes} {item : Option Item}
    (h : readPacket config whole = .ok (item, rest)) :
    ∃ s : Segment config, whole = s.bytes ++ rest ∧ s.item? = item
      ∧ (s.isDelimited = true ∨ rest = []) := by
  cases whole with
  | nil => cases h
  | cons first bs =>
    cases hform : first.toNat.testBit 7 with
    | false =>
      obtain ⟨hfixed, _, hfound, rfl⟩ := (readPacket_of_short hform).1 h
      obtain ⟨dcid, body, hdcid, rfl, rfl, rfl⟩ := readShort_eq_ok.1 hfound
      exact ⟨.short ⟨first, dcid, body, hform, hfixed, hdcid⟩, (List.append_nil _).symm, rfl,
        Or.inr rfl⟩
    | true =>
      obtain ⟨version, dcid, scid, after, hdcid, hscid, hwhole, hfound⟩ :=
        (readPacket_of_long hform).1 h
      split at hfound
      · next hnegotiation =>
        obtain rfl := Version.isNegotiation_iff.1 hnegotiation
        obtain ⟨_, hversions, rfl⟩ := Reader.map_eq_ok.1 hfound
        obtain ⟨hlist, rfl, rfl⟩ := readVersions_eq_ok.1 hversions
        exact ⟨.negotiation ⟨first, dcid, scid, after, hform, hdcid, hscid, hlist⟩,
          hwhole.trans (List.append_nil _).symm, rfl, Or.inr rfl⟩
      · obtain ⟨type, token, tokenField, lengthField, body, hfixed, hversion, htype, htoken,
          hlength, rfl, rfl⟩ := readNumbered_eq_ok.1 hfound
        let s : LongSegment config := ⟨first, version, dcid, scid, type, token, tokenField,
          lengthField, body, hform, hfixed, hversion,
          Version.typeBits_of_packetType (Nat.mod_lt _ (by decide)) htype, hdcid, hscid, htoken,
          hlength⟩
        have hbytes : first :: bs = s.bytes ++ rest := hwhole.trans (s.bytes_append rest).symm
        refine ⟨.long s, hbytes, ?_, Or.inl rfl⟩
        rw [hbytes]
        exact congrArg (fun q => if s.type = .zeroRtt then none else some (Item.packet q))
          (s.packet_eq rest)

/-- A packet can be read from the front of a datagram exactly if a segment stands there. Behind a
segment that does not tell where it ends nothing may follow. -/
theorem readPacket_eq_ok {whole rest : Bytes} {item : Option Item} :
    readPacket config whole = .ok (item, rest) ↔
      ∃ s : Segment config, whole = s.bytes ++ rest ∧ s.item? = item
        ∧ (s.isDelimited = true ∨ rest = []) := by
  constructor
  · exact exists_segment_of_readPacket
  · rintro ⟨s, rfl, rfl, hrest⟩
    exact readPacket_bytes s rest hrest

end Datagram

end QuicTransport
