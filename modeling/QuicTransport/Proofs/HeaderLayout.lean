import QuicTransport.Proofs.SealedPackets
import QuicTransport.Proofs.VarIntPadding

set_option autoImplicit false

/-! # Where the packet number stands

Where the packet number starts is known twice. `Packet.numberOffset` counts it from the fields of
the packet, and `Packet.headerBytes` writes the fields one after the other. Header protection is
laid over the bytes at the counted offset, so the two have to agree for every length of the
identifiers, of the token and of the payload, across all widths of the two lengths that are written
as variable-length integers.

`Packet.Layout` says what stands where in a header, in the terms of a reader: the flags of the first
byte, the type in the numbering of the version, the length, and the low bytes of the number at the
offset. A header has this layout whenever it can be written, and the version alone can keep it from
being written, besides a token of a length that no variable-length integer has room for. -/

namespace QuicTransport

/-! ## What cannot be written -/

/-- Only a number that is too large is not written. -/
theorem VarInt.put_eq_error_iff {n : Nat} {e : Error} :
    VarInt.put n = .error e ↔ ¬ FitsVarInt n ∧ e = .varIntOutOfRange n := by
  by_cases hroom : n < 0x4000000000000000
  · rw [VarInt.put_of_lt hroom]
    exact iff_of_false nofun fun h => h.1 hroom
  · rw [VarInt.put_of_le (Nat.le_of_not_lt hroom), Except.error.injEq, eq_comm]
    exact (and_iff_right hroom).symm

/-- Only the version can be missing for the type bits of a numbered kind of packet. -/
theorem Version.typeBits_eq_error_iff {v : Version} {type : PacketType} {n : Nat}
    (h : type.number? = some n) {e : Error} :
    v.typeBits type = .error e ↔ v.isSupported = false ∧ e = .unsupportedVersion v.word := by
  rw [Version.typeBits, Result.bind_eq_error]
  cases hsupported : v.isSupported with
  | true =>
    obtain ⟨rules, hrules, _⟩ := Version.exists_rules hsupported
    simp [hrules, h]
  | false => simp [Version.rules_of_unsupported hsupported, eq_comm]

namespace Packet

variable {p : Packet} {number payloadLength : Nat} {w : PacketNumber.Width}

theorem lengthField_eq (hnumber : p.number? = some (number, w)) (payloadLength : Nat) :
    p.lengthField payloadLength = w.bytes + payloadLength + 16 := by
  rw [lengthField, hnumber]
  rfl

theorem longHeaderBytes_eq_error_iff {h : LongHeader} {type : PacketType} {own : Result Bytes}
    {n : Nat} (htype : type.number? = some n) {e : Error} :
    longHeaderBytes h type own = .error e ↔
      h.version.isSupported = false ∧ e = .unsupportedVersion h.version.word
        ∨ h.version.isSupported = true ∧ own = .error e := by
  cases hbits : h.version.typeBits type with
  | error e' =>
    obtain ⟨hunsupported, rfl⟩ := (Version.typeBits_eq_error_iff htype).1 hbits
    simp [longHeaderBytes, LongHeader.firstByte, hbits, hunsupported, bind, Except.bind, eq_comm]
  | ok bits =>
    have hsupported := (Version.packetType_of_typeBits hbits).1
    cases own <;>
      simp [longHeaderBytes, LongHeader.firstByte, hbits, hsupported, bind, Except.bind, pure,
        Except.pure]

/-- A header cannot be written if there are no rules for its version, or else if its token is so
long that its length cannot be written. -/
theorem headerBytes_eq_error_iff (hnumber : p.number? = some (number, w))
    (hroom : FitsVarInt (p.lengthField payloadLength)) {e : Error} :
    p.headerBytes payloadLength = .error e ↔
      (∃ v, p.version? = some v ∧ v.isSupported = false ∧ e = .unsupportedVersion v.word)
        ∨ (∀ v, p.version? = some v → v.isSupported = true) ∧ ¬ FitsVarInt p.token.length
          ∧ e = .varIntOutOfRange p.token.length := by
  have hlength := VarInt.put_of_lt hroom
  have hempty : FitsVarInt 0 := show 0 < 0x4000000000000000 by decide
  cases p with
  | initial i =>
    rw [headerBytes, longHeaderBytes_eq_error_iff rfl, Result.bind_eq_error,
      VarInt.put_eq_error_iff]
    simp [version?, token, hlength, bind, Except.bind, pure, Except.pure]
  | handshake h =>
    rw [headerBytes, longHeaderBytes_eq_error_iff rfl, hlength]
    simp [version?, token, hempty]
  | oneRtt s => simp [headerBytes, version?, token, hempty]
  | versionNegotiation v => cases hnumber

/-! ## What is written -/

/-- What stands in a header whose packet number starts at an offset. -/
structure Layout (p : Packet) (number : Nat) (w : PacketNumber.Width) (payloadLength : Nat)
    (first : UInt8) (header : Bytes) (offset : Nat) : Prop where
  head : header.head? = some first
  /-- The high bit is one in a long header only. -/
  form : first.toNat.testBit 7 = p.isLong
  reserved : first &&& (if p.isLong then 0x0c else 0x18) = 0
  width : first.toNat % 4 = w.bytes - 1
  length : header.length = offset + w.bytes
  numberBytes : header.drop offset = Bytes.bigEndian w.bytes number
  /-- A short header has nothing but the identifier in front of the number. -/
  short : p.isLong = false → header.take offset = first :: p.dcid.bytes
  /-- A long header has the fields that all versions share, then the token if the kind of packet has
  one, then the length of all that follows. -/
  long : ∀ v, p.version? = some v → v.packetType (first.toNat / 0x10 % 4) = .ok p.type
    ∧ ∃ scid tokenField start, p.scid? = some scid
      ∧ Datagram.IsTokenField p.type p.token tokenField
      ∧ header.take start = invariantBytes first v p.dcid scid ++ tokenField
      ∧ ∃ length : VarInt, length.value = w.bytes + payloadLength + 16
        ∧ VarInt.decode? (header.drop start) = some (length, header.drop offset)

/-- A long header has its layout whatever fields of its own the packet has. -/
theorem layout_of_long {h : LongHeader} {first : UInt8} {tokenField lengthField : Bytes}
    (hversion : p.version? = some h.version) (hnumber : p.number? = some (h.packetNumber, h.width))
    (hdcid : p.dcid = h.dcid) (hscid : p.scid? = some h.scid) (hlong : p.isLong = true)
    (hfirst : h.firstByte p.type = .ok first)
    (htoken : Datagram.IsTokenField p.type p.token tokenField)
    (hlength : VarInt.put (p.lengthField payloadLength) = .ok lengthField) :
    p.Layout h.packetNumber h.width payloadLength first
      (invariantBytes first h.version h.dcid h.scid ++ (tokenField ++ lengthField)
        ++ PacketNumber.truncate h.width h.packetNumber)
      (h.invariantLength + tokenField.length + lengthField.length) := by
  obtain ⟨bits, hbyte, htypeBits⟩ := firstByte_eq_ok hfirst
  obtain ⟨hroom, rfl⟩ := VarInt.put_eq_ok hlength
  have hfront : (invariantBytes first h.version h.dcid h.scid ++ tokenField).length =
      h.invariantLength + tokenField.length := by
    rw [List.length_append, length_invariantBytes, LongHeader.invariantLength]
  refine ⟨rfl, ?_, ?_, ?_, ?_, ?_, ?_, ?_⟩
  · rw [hlong, ← HeaderForm.ofFirstByte_eq_long_iff, hbyte.form]
  · rw [hlong, if_pos rfl]
    exact hbyte.reserved
  · rw [← hbyte.width, PacketNumber.Width.bytes_ofFirstByte, Nat.add_sub_cancel]
  · rw [← List.append_assoc, List.length_append, List.length_append, hfront,
      PacketNumber.length_truncate]
  · rw [← List.append_assoc, ← hfront, ← List.length_append, List.drop_left]
    rfl
  · intro hshort
    rw [hlong] at hshort
    cases hshort
  · intro v hv
    obtain rfl : h.version = v := Option.some.inj (hversion.symm.trans hv)
    refine ⟨?_, h.scid, tokenField, h.invariantLength + tokenField.length, hscid, htoken, ?_,
      ⟨p.lengthField payloadLength, hroom⟩, ?_, ?_⟩
    · rw [← FirstByte.typeBits_eq_mod, hbyte.typeBits]
      exact (Version.packetType_of_typeBits htypeBits).2.2
    · rw [hdcid, ← hfront, ← List.append_assoc, List.append_assoc, List.take_left]
    · exact lengthField_eq hnumber payloadLength
    · rw [← hfront, ← List.append_assoc, List.append_assoc, List.drop_left, VarInt.decode?_encode,
        ← List.append_assoc, ← List.length_append, List.drop_left]

theorem layout_of_short (s : ShortHeader) (frames : List Frame) :
    (Packet.oneRtt ⟨s, frames⟩).Layout s.packetNumber s.width payloadLength s.firstByte
      (s.firstByte :: s.dcid.bytes ++ PacketNumber.truncate s.width s.packetNumber)
      s.numberOffset := by
  have hbyte := FirstByte.isShort_ofNat s.spin s.keyPhase s.width
  have hfront : (s.firstByte :: s.dcid.bytes).length = s.numberOffset := by
    rw [ShortHeader.numberOffset, List.length_cons, ConnectionId.length, Nat.add_comm]
  refine ⟨rfl, HeaderForm.ofFirstByte_eq_short_iff.1 hbyte.form, hbyte.reserved, ?_, ?_, ?_, ?_, ?_⟩
  · rw [← hbyte.width, PacketNumber.Width.bytes_ofFirstByte, Nat.add_sub_cancel]
    rfl
  · rw [List.length_append, hfront, PacketNumber.length_truncate]
  · rw [← hfront, List.drop_left]
    rfl
  · intro _
    rw [← hfront, List.take_left]
    rfl
  · intro v hv
    cases hv

/-- The counted offset is the one where the packet number is written. -/
theorem exists_layout (hnumber : p.number? = some (number, w)) (payloadLength : Nat) :
    ∃ offset, p.numberOffset payloadLength = .ok offset
      ∧ ∀ header, p.headerBytes payloadLength = .ok header →
        ∃ first, p.Layout number w payloadLength first header offset := by
  cases p with
  | initial i =>
    refine ⟨_, rfl, fun header hheader => ?_⟩
    cases hnumber
    obtain ⟨first, middle, hfirst, hmiddle, rfl⟩ := longHeaderBytes_eq_ok hheader
    obtain ⟨tokenLength, htokenLength, hmiddle⟩ := Result.bind_eq_ok.1 hmiddle
    obtain ⟨lengthField, hlength, ⟨⟩⟩ := Result.bind_eq_ok.1 hmiddle
    have hlayout := layout_of_long (p := .initial i) rfl rfl rfl rfl rfl hfirst
      ⟨tokenLength, VarInt.isCode_of_put htokenLength, rfl⟩ hlength
    rw [List.length_append, VarInt.length_of_put htokenLength, VarInt.length_of_put hlength,
      ← Nat.add_assoc] at hlayout
    exact ⟨first, hlayout⟩
  | handshake h =>
    refine ⟨_, rfl, fun header hheader => ?_⟩
    cases hnumber
    obtain ⟨first, lengthField, hfirst, hlength, rfl⟩ := longHeaderBytes_eq_ok hheader
    have hlayout := layout_of_long (p := .handshake h) rfl rfl rfl rfl rfl hfirst ⟨rfl, rfl⟩ hlength
    rw [VarInt.length_of_put hlength] at hlayout
    exact ⟨first, hlayout⟩
  | oneRtt s =>
    refine ⟨_, rfl, fun header hheader => ?_⟩
    cases hnumber
    cases hheader
    exact ⟨_, layout_of_short s.header s.frames⟩
  | versionNegotiation v => cases hnumber

/-- Counting and writing agree. If the length of what follows can be written, a header is refused
for a version without rules, and with rules only for a token of 2^62 bytes or more, which nobody
has. Every other header has its layout around the counted offset. -/
theorem headerBytes_exact (hnumber : p.number? = some (number, w))
    (hroom : FitsVarInt (w.bytes + payloadLength + 16)) :
    (∀ e, p.headerBytes payloadLength = .error e ↔
      (∃ v, p.version? = some v ∧ v.isSupported = false ∧ e = .unsupportedVersion v.word)
        ∨ (∀ v, p.version? = some v → v.isSupported = true) ∧ ¬ FitsVarInt p.token.length
          ∧ e = .varIntOutOfRange p.token.length)
      ∧ ∃ offset, p.numberOffset payloadLength = .ok offset
        ∧ ∀ header, p.headerBytes payloadLength = .ok header →
          ∃ first, p.Layout number w payloadLength first header offset := by
  rw [← lengthField_eq hnumber payloadLength] at hroom
  exact ⟨fun e => headerBytes_eq_error_iff hnumber hroom, exists_layout hnumber payloadLength⟩

/-- The header of an Initial packet whose token and payload both take a wider length, and a packet
of an unknown version. -/
theorem headerBytes_exact_wide :
    (∃ header first,
      headerBytes (.initial ⟨⟨.v2, .empty, .empty, 0x1234567, .three⟩, List.replicate 70 7, []⟩)
        20000 = .ok header
      ∧ header.length = 86 ∧ header.drop 83 = [0x23, 0x45, 0x67]
      ∧ header.head? = some first ∧ first.toNat % 4 = 2
      ∧ Version.v2.packetType (first.toNat / 0x10 % 4) = .ok .initial)
      ∧ headerBytes (.handshake ⟨⟨⟨5⟩, .empty, .empty, 0, .one⟩, []⟩) 20000 =
        .error (.unsupportedVersion 5) := by
  constructor
  · obtain ⟨_, offset, hoffset, hlayout⟩ := headerBytes_exact
      (p := .initial ⟨⟨.v2, .empty, .empty, 0x1234567, .three⟩, List.replicate 70 7, []⟩) rfl
      (show 3 + 20000 + 16 < 0x4000000000000000 by decide)
    obtain rfl : 83 = offset := by injection hoffset
    obtain ⟨first, hfirst⟩ := hlayout _ rfl
    exact ⟨_, first, rfl, hfirst.length, hfirst.numberBytes, hfirst.head, hfirst.width,
      (hfirst.long _ rfl).1⟩
  · obtain ⟨hrefused, _⟩ := headerBytes_exact
      (p := .handshake ⟨⟨⟨5⟩, .empty, .empty, 0, .one⟩, []⟩) rfl
      (show 1 + 20000 + 16 < 0x4000000000000000 by decide)
    exact (hrefused _).2 (.inl ⟨⟨5⟩, rfl, by decide, rfl⟩)

end Packet

end QuicTransport
