import QuicTransport.Proofs.FrameSequence
import QuicTransport.Proofs.KeyDerivation
import QuicTransport.Proofs.PacketProtection
import QuicTransport.Proofs.PacketSplitting
import QuicTransport.Protection.PacketOpening

set_option autoImplicit false

/-! # What is sealed can be opened

A packet goes through a writer, through header protection, through a reader without keys and through
the keys again. What ties the stages together is one place: the end of the fields that are read
without keys, where the packet number starts. The writer computes it from its own fields, and the
reader from what it has read (`Packet.Located`).

The identity holds for every packet that can be sealed. What comes back are the frames as a reader
of the payload sees them, with the padding that was added and without the choices that a payload
does not show. -/

namespace QuicTransport

/-! ## What is read without keys -/

/-- The identifiers of a packet are no longer than a reader accepts; a short header leaves no
choice. -/
def Config.Admits (config : Config) : Packet → Prop
  | .initial p =>
    p.header.dcid.length ≤ config.maxConnectionIdLength
      ∧ p.header.scid.length ≤ config.maxConnectionIdLength
  | .handshake p =>
    p.header.dcid.length ≤ config.maxConnectionIdLength
      ∧ p.header.scid.length ≤ config.maxConnectionIdLength
  | .oneRtt p => config.shortHeaderDcidLength = p.header.dcid.length
  | .versionNegotiation _ => True

theorem Config.length_le_longHeaderCidLimit {config : Config} {cid : ConnectionId}
    (h : cid.length ≤ config.maxConnectionIdLength) : cid.length ≤ config.longHeaderCidLimit :=
  Nat.le_min.2 ⟨h, cid.length_le⟩

namespace Packet

def version? : Packet → Option Version
  | .initial p => some p.header.version
  | .handshake p => some p.header.version
  | .oneRtt _ => none
  | .versionNegotiation _ => none

/-- The token of an Initial packet, or nothing. -/
def token : Packet → Bytes
  | .initial p => p.token
  | _ => []

/-- The packet with other frames. -/
def withFrames (frames : List Frame) : Packet → Packet
  | .initial p => .initial { p with frames }
  | .handshake p => .handshake { p with frames }
  | .oneRtt p => .oneRtt { p with frames }
  | .versionNegotiation p => .versionNegotiation p

/-- What a reader without keys finds of a packet. -/
def found (p : Packet) (offset : Nat) (bytes : Bytes) : ProtectedPacket where
  type := p.type
  version := p.version?
  dcid := p.dcid
  scid := p.scid?
  token := p.token
  numberOffset := offset
  bytes

/-- The header up to the packet number is a first byte and what follows it. The first byte tells
what has to be known to open the packet, and any mask over it leaves what is read without keys. -/
structure Located (p : Packet) (payloadLength : Nat) (first : UInt8) (front : Bytes) : Prop where
  reserved : FirstByte.checkReserved first = .ok ()
  /-- The width of the packet number is the one that was written. -/
  width : p.number?.map Prod.snd = some (PacketNumber.Width.ofFirstByte first)
  /-- The packet is found whatever its packet number and payload look like. Only behind a long
  header may there be more. -/
  read : ∀ (config : Config) (mask : Mask) (body rest : Bytes), config.Admits p →
    body.length = p.lengthField payloadLength → p.isLong = true ∨ rest = [] →
    Datagram.readPacket config (HeaderMask.coverFirst first mask :: front ++ body ++ rest) =
      .ok (some (.packet (p.found (front.length + 1)
        (HeaderMask.coverFirst first mask :: front ++ body))), rest)
  /-- With the packet number and the frames the packet is complete. -/
  rebuild : ∀ (bytes : Bytes) (opened : OpenedPacket) (frames : List Frame),
    p.number? = some (opened.packetNumber, opened.width) →
    (p.found (front.length + 1) bytes).rebuild opened first frames = .ok (p.withFrames frames)

/-- What is found without keys lacks only the packet number, the frames and, behind a short header,
the two bits of the first byte. -/
theorem rebuild_found {p : Packet} {offset : Nat} {bytes : Bytes} {opened : OpenedPacket}
    {first : UInt8} {frames : List Frame}
    (hnumber : p.number? = some (opened.packetNumber, opened.width))
    (hbits : ∀ q, p = .oneRtt q →
      FirstByte.spin first = q.header.spin ∧ FirstByte.keyPhase first = q.header.keyPhase) :
    (p.found offset bytes).rebuild opened first frames = .ok (p.withFrames frames) := by
  cases p with
  | initial p =>
    injection hnumber with hnumber
    injection hnumber with hnumber hwidth
    simp only [ProtectedPacket.rebuild, found, type, version?, dcid, scid?, token, ← hnumber,
      ← hwidth]
    rfl
  | handshake p =>
    injection hnumber with hnumber
    injection hnumber with hnumber hwidth
    simp only [ProtectedPacket.rebuild, found, type, version?, dcid, scid?, token, ← hnumber,
      ← hwidth]
    rfl
  | oneRtt p =>
    obtain ⟨hspin, hphase⟩ := hbits p rfl
    injection hnumber with hnumber
    injection hnumber with hnumber hwidth
    simp only [ProtectedPacket.rebuild, found, type, version?, dcid, scid?, token, ← hnumber,
      ← hwidth, hspin, hphase]
    rfl
  | versionNegotiation p => cases hnumber

theorem Located.width_eq {p : Packet} {payloadLength number : Nat} {first : UInt8} {front : Bytes}
    {w : PacketNumber.Width} (h : p.Located payloadLength first front)
    (hnumber : p.number? = some (number, w)) : PacketNumber.Width.ofFirstByte first = w := by
  have hw := h.width
  rw [hnumber] at hw
  injection hw with hw
  exact hw.symm

/-! ## Headers -/

theorem longHeaderBytes_eq_ok {h : LongHeader} {type : PacketType} {own : Result Bytes}
    {header : Bytes} (hheader : longHeaderBytes h type own = .ok header) :
    ∃ first middle, h.firstByte type = .ok first ∧ own = .ok middle
      ∧ header = invariantBytes first h.version h.dcid h.scid ++ middle
        ++ PacketNumber.truncate h.width h.packetNumber := by
  obtain ⟨first, hfirst, hheader⟩ := Result.bind_eq_ok.1 hheader
  obtain ⟨middle, hmiddle, hheader⟩ := Result.bind_eq_ok.1 hheader
  injection hheader with hheader
  exact ⟨first, middle, hfirst, hmiddle, hheader.symm⟩

theorem firstByte_eq_ok {h : LongHeader} {type : PacketType} {first : UInt8}
    (hfirst : h.firstByte type = .ok first) :
    ∃ bits, FirstByte.IsLong first bits h.width ∧ h.version.typeBits type = .ok bits := by
  obtain ⟨bits, hbits, hfirst⟩ := Result.bind_eq_ok.1 hfirst
  obtain ⟨_, hlt, _⟩ := Version.packetType_of_typeBits hbits
  injection hfirst with hfirst
  exact ⟨bits, hfirst ▸ FirstByte.isLong_ofNat hlt h.width, hbits⟩

/-- The mask over a long header does not reach what is read without keys. -/
theorem readPacket_coverFirst {h : LongHeader} {type : PacketType} {first : UInt8} {bits : Nat}
    {tokenField token lengthField front body : Bytes} {config : Config}
    (hfirst : FirstByte.IsLong first bits h.width) (htype : h.version.typeBits type = .ok bits)
    (hnumbered : type ≠ .zeroRtt) (htoken : Datagram.IsTokenField type token tokenField)
    (hlength : VarInt.put body.length = .ok lengthField)
    (hfront : ∀ b, b :: front = invariantBytes b h.version h.dcid h.scid
      ++ (tokenField ++ lengthField))
    (hdcid : h.dcid.length ≤ config.maxConnectionIdLength)
    (hscid : h.scid.length ≤ config.maxConnectionIdLength) (mask : Mask) (rest : Bytes) :
    Datagram.readPacket config (HeaderMask.coverFirst first mask :: front ++ body ++ rest) =
      .ok (some (.packet ⟨type, some h.version, h.dcid, some h.scid, token, front.length + 1,
        HeaderMask.coverFirst first mask :: front ++ body⟩), rest) := by
  let s : Datagram.LongSegment config := {
    first := HeaderMask.coverFirst first mask
    version := h.version
    dcid := h.dcid
    scid := h.scid
    type
    token
    tokenField
    lengthField
    body
    form := by
      rw [← HeaderForm.ofFirstByte_eq_long_iff, HeaderMask.ofFirstByte_coverFirst, hfirst.form]
    isFixed := by
      rw [← FirstByte.isFixed_eq_testBit, HeaderMask.isFixed_coverFirst, hfirst.isFixed]
    isSupported := (Version.packetType_of_typeBits htype).1
    typeBits := by
      rw [← FirstByte.typeBits_eq_mod, HeaderMask.typeBits_coverFirst hfirst.form, hfirst.typeBits,
        htype]
    length_dcid_le := Config.length_le_longHeaderCidLimit hdcid
    length_scid_le := Config.length_le_longHeaderCidLimit hscid
    isTokenField := htoken
    isCode_length := VarInt.isCode_of_put hlength }
  have hheader : s.header = HeaderMask.coverFirst first mask :: front := by
    rw [hfront, ← List.append_assoc]
    rfl
  have hbytes : s.bytes = HeaderMask.coverFirst first mask :: front ++ body := by
    rw [Datagram.LongSegment.bytes, hheader]
  have hitem : (Datagram.Segment.long s).item? = some (.packet ⟨type, some h.version, h.dcid,
      some h.scid, token, front.length + 1,
      HeaderMask.coverFirst first mask :: front ++ body⟩) := by
    have hoffset : s.header.length = front.length + 1 := congrArg List.length hheader
    rw [Datagram.Segment.item?, if_neg hnumbered, Datagram.LongSegment.packet, hbytes, hoffset]
  have hread := Datagram.readPacket_bytes (.long s) rest (Or.inl rfl)
  rwa [Datagram.Segment.bytes, hbytes, hitem] at hread

/-- The first byte and what follows it in the part that all versions share. -/
theorem exists_tail (version : Version) (dcid scid : ConnectionId) :
    ∃ tail, tail.length = 6 + dcid.length + scid.length
      ∧ ∀ b, invariantBytes b version dcid scid = b :: tail := by
  refine ⟨(invariantBytes 0 version dcid scid).tail, ?_, fun b => rfl⟩
  rw [List.length_tail, length_invariantBytes]
  omega

theorem exists_located_initial {p : InitialPacket} {payloadLength offset : Nat} {header : Bytes}
    (hheader : (Packet.initial p).headerBytes payloadLength = .ok header)
    (hoffset : (Packet.initial p).numberOffset payloadLength = .ok offset) :
    ∃ first front, (Packet.initial p).Located payloadLength first front
      ∧ header = first :: front ++ PacketNumber.truncate p.header.width p.header.packetNumber
      ∧ offset = front.length + 1 := by
  obtain ⟨first, middle, hfirst, hmiddle, rfl⟩ := longHeaderBytes_eq_ok hheader
  obtain ⟨bits, hlong, htype⟩ := firstByte_eq_ok hfirst
  obtain ⟨tokenLength, htokenLength, hmiddle⟩ := Result.bind_eq_ok.1 hmiddle
  obtain ⟨length, hlength, hmiddle⟩ := Result.bind_eq_ok.1 hmiddle
  injection hmiddle with hmiddle
  obtain ⟨tail, htailLength, htail⟩ :=
    exists_tail p.header.version p.header.dcid p.header.scid
  refine ⟨first, tail ++ middle, ⟨hlong.checkReserved, ?_, ?_, ?_⟩, ?_, ?_⟩
  · exact congrArg some hlong.width.symm
  · intro config mask body rest hconfig hbody _
    -- the length field speaks of whatever follows it
    rw [← hbody] at hlength
    refine readPacket_coverFirst hlong htype (by decide)
      ⟨tokenLength, VarInt.isCode_of_put htokenLength, rfl⟩ hlength ?_ hconfig.1 hconfig.2 mask rest
    intro b
    rw [htail, ← hmiddle]
    rfl
  · intro bytes opened frames hnumber
    exact rebuild_found hnumber fun q hq => by cases hq
  · rw [htail]
    rfl
  · injection hoffset with hoffset
    rw [← hoffset, LongHeader.invariantLength, List.length_append, htailLength, ← hmiddle,
      List.length_append, List.length_append, VarInt.length_of_put htokenLength,
      VarInt.length_of_put hlength]
    omega

theorem exists_located_handshake {p : HandshakePacket} {payloadLength offset : Nat}
    {header : Bytes} (hheader : (Packet.handshake p).headerBytes payloadLength = .ok header)
    (hoffset : (Packet.handshake p).numberOffset payloadLength = .ok offset) :
    ∃ first front, (Packet.handshake p).Located payloadLength first front
      ∧ header = first :: front ++ PacketNumber.truncate p.header.width p.header.packetNumber
      ∧ offset = front.length + 1 := by
  obtain ⟨first, length, hfirst, hlength, rfl⟩ := longHeaderBytes_eq_ok hheader
  obtain ⟨bits, hlong, htype⟩ := firstByte_eq_ok hfirst
  obtain ⟨tail, htailLength, htail⟩ :=
    exists_tail p.header.version p.header.dcid p.header.scid
  refine ⟨first, tail ++ length, ⟨hlong.checkReserved, ?_, ?_, ?_⟩, ?_, ?_⟩
  · exact congrArg some hlong.width.symm
  · intro config mask body rest hconfig hbody _
    rw [← hbody] at hlength
    refine readPacket_coverFirst hlong htype (by decide) ⟨rfl, rfl⟩ hlength ?_ hconfig.1 hconfig.2
      mask rest
    intro b
    rw [htail]
    rfl
  · intro bytes opened frames hnumber
    exact rebuild_found hnumber fun q hq => by cases hq
  · rw [htail]
    rfl
  · injection hoffset with hoffset
    rw [← hoffset, LongHeader.invariantLength, List.length_append, htailLength,
      VarInt.length_of_put hlength]
    omega

theorem exists_located_oneRtt {p : OneRttPacket} {payloadLength offset : Nat} {header : Bytes}
    (hheader : (Packet.oneRtt p).headerBytes payloadLength = .ok header)
    (hoffset : (Packet.oneRtt p).numberOffset payloadLength = .ok offset) :
    ∃ first front, (Packet.oneRtt p).Located payloadLength first front
      ∧ header = first :: front ++ PacketNumber.truncate p.header.width p.header.packetNumber
      ∧ offset = front.length + 1 := by
  injection hheader with hheader
  injection hoffset with hoffset
  have hshort := FirstByte.isShort_ofNat p.header.spin p.header.keyPhase p.header.width
  refine ⟨p.header.firstByte, p.header.dcid.bytes, ⟨hshort.checkReserved, ?_, ?_, ?_⟩,
    hheader.symm, ?_⟩
  · exact congrArg some hshort.width.symm
  · intro config mask body rest hconfig hbody hlast
    obtain rfl : rest = [] := hlast.resolve_left Bool.false_ne_true
    have hform : (HeaderMask.coverFirst p.header.firstByte mask).toNat.testBit 7 = false := by
      rw [← HeaderForm.ofFirstByte_eq_short_iff, HeaderMask.ofFirstByte_coverFirst]
      exact hshort.form
    have hfixed : (HeaderMask.coverFirst p.header.firstByte mask).toNat.testBit 6 = true := by
      rw [← FirstByte.isFixed_eq_testBit, HeaderMask.isFixed_coverFirst]
      exact hshort.isFixed
    have hread := Datagram.readPacket_bytes
      (.short ⟨_, p.header.dcid, body, hform, hfixed, hconfig.symm⟩) [] (Or.inr rfl)
    rw [Datagram.Segment.item?, Datagram.ShortSegment.packet, Nat.add_comm] at hread
    exact hread
  · intro bytes opened frames hnumber
    refine rebuild_found hnumber fun q hq => ?_
    cases hq
    exact ⟨hshort.spin, hshort.keyPhase⟩
  · rw [← hoffset, ShortHeader.numberOffset, Nat.add_comm]
    rfl

theorem exists_located {p : Packet} {number payloadLength offset : Nat} {w : PacketNumber.Width}
    {header : Bytes} (hnumber : p.number? = some (number, w))
    (hheader : p.headerBytes payloadLength = .ok header)
    (hoffset : p.numberOffset payloadLength = .ok offset) :
    ∃ first front, p.Located payloadLength first front
      ∧ header = first :: front ++ PacketNumber.truncate w number ∧ offset = front.length + 1 := by
  cases p with
  | initial p =>
    cases hnumber
    exact exists_located_initial hheader hoffset
  | handshake p =>
    cases hnumber
    exact exists_located_handshake hheader hoffset
  | oneRtt p =>
    cases hnumber
    exact exists_located_oneRtt hheader hoffset
  | versionNegotiation p => cases hnumber

/-! ## Payloads -/

theorem leastPayload_le_of_numberedPayload {epoch : Epoch} {w : PacketNumber.Width}
    {frames : List Frame} {payload : Bytes} (h : numberedPayload epoch w frames = .ok payload) :
    leastPayload w ≤ payload.length := by
  unfold numberedPayload at h
  cases hframes : framesPayload epoch frames with
  | error e =>
    rw [hframes] at h
    cases h
  | ok written =>
    rw [hframes] at h
    injection h with h
    rw [← h, padTo, List.length_append, List.length_replicate]
    omega

theorem leastPayload_le {p : Packet} {number : Nat} {w : PacketNumber.Width} {payload : Bytes}
    (hnumber : p.number? = some (number, w)) (h : p.payloadBytes = .ok payload) :
    leastPayload w ≤ payload.length := by
  cases p with
  | initial p =>
    cases hnumber
    exact leastPayload_le_of_numberedPayload h
  | handshake p =>
    cases hnumber
    exact leastPayload_le_of_numberedPayload h
  | oneRtt p =>
    cases hnumber
    exact leastPayload_le_of_numberedPayload h
  | versionNegotiation p => cases hnumber

/-! ## Packets -/

/-- The reader is where the number of the packet can be recovered. -/
def NumberNear (p : Packet) (seen : Option Nat) : Prop :=
  ∀ number w, p.number? = some (number, w) →
    number ≤ PacketNumber.largest ∧ PacketNumber.Near seen w number

/-- A packet that opens, once its parts have been found, is what its frames make of it. -/
theorem openWith_found {p : Packet} {offset number : Nat} {bytes payload header : Bytes}
    {w : PacketNumber.Width} {protector : Protector} {keys : PacketKeys} {seen : Option Nat}
    (hepoch : p.epoch? = some protector.epoch) (hopener : protector.opener = some keys)
    (hopen : keys.openBytes bytes offset seen = .ok ⟨header, payload, number, w⟩)
    (hreserved : FirstByte.checkReserved (header.headD 0) = .ok ()) (hpayload : payload ≠ [])
    (hrebuild : ∀ frames, (p.found offset bytes).rebuild ⟨header, payload, number, w⟩
      (header.headD 0) frames = .ok (p.withFrames frames)) :
    (p.found offset bytes).openWith protector seen =
      (Frame.decodeAll payload).map p.withFrames := by
  have hprotector : protector.openBytes bytes offset seen = .ok ⟨header, payload, number, w⟩ := by
    rw [Protector.openBytes, Protector.keys, Protector.slot, hopener]
    exact hopen
  have htype : ¬ (p.found offset bytes).type.epoch? ≠ some protector.epoch := fun h => h hepoch
  have hstart : (p.found offset bytes).openWith protector seen = (do
      let frames ← Frame.decodeAll payload
      if frames.isEmpty then
        throw (.protocolViolation "packet carries no frames")
      (p.found offset bytes).rebuild ⟨header, payload, number, w⟩ (header.headD 0) frames) := by
    rw [ProtectedPacket.openWith, if_neg htype]
    simp only [hprotector, hreserved, bind, Except.bind, found]
  rw [hstart]
  cases hframes : Frame.decodeAll payload with
  | error e => rfl
  | ok frames =>
    -- a payload that is there has at least one frame in it
    have hsome := Frame.isEmpty_of_decodeAll hpayload hframes
    change (if frames.isEmpty then _ else _) = _
    rw [hsome]
    exact hrebuild frames

theorem sealWith_eq_ok {p : Packet} {keys : PacketKeys} {sealed : SealedPacket} :
    p.sealWith keys = .ok sealed ↔
      ∃ number w payload header offset, p.number? = some (number, w)
        ∧ p.payloadBytes = .ok payload ∧ p.headerBytes payload.length = .ok header
        ∧ p.numberOffset payload.length = .ok offset
        ∧ keys.sealBytes header offset number payload = .ok sealed := by
  constructor
  · intro h
    unfold sealWith at h
    split at h
    · cases h
    · next number w hnumber =>
      obtain ⟨payload, hpayload, h⟩ := Result.bind_eq_ok.1 h
      obtain ⟨header, hheader, h⟩ := Result.bind_eq_ok.1 h
      obtain ⟨offset, hoffset, h⟩ := Result.bind_eq_ok.1 h
      exact ⟨number, w, payload, header, offset, hnumber, hpayload, hheader, hoffset, h⟩
  · rintro ⟨number, w, payload, header, offset, hnumber, hpayload, hheader, hoffset, hseal⟩
    rw [sealWith, hnumber]
    exact Result.bind_eq_ok.2 ⟨payload, hpayload, Result.bind_eq_ok.2 ⟨header, hheader,
      Result.bind_eq_ok.2 ⟨offset, hoffset, hseal⟩⟩⟩

/-- A packet that can be written and encrypted is sealed, and its header keeps its length. -/
theorem sealWith_of_encryptPayload {keys : PacketKeys} (hkeys : keys.aead.AppendsTag) {p : Packet}
    {number offset : Nat} {w : PacketNumber.Width} {payload header ciphertext : Bytes}
    (hnumber : p.number? = some (number, w)) (hpayload : p.payloadBytes = .ok payload)
    (hheader : p.headerBytes payload.length = .ok header)
    (hoffset : p.numberOffset payload.length = .ok offset)
    (hencrypt : keys.encryptPayload number header payload = .ok ciphertext) :
    ∃ covered, p.sealWith keys = .ok ⟨covered, ciphertext⟩ ∧ covered.length = header.length := by
  obtain ⟨first, front, hlocated, hsplit, hplace⟩ := exists_located hnumber hheader hoffset
  have hleast : sampleOffset - w.bytes ≤ payload.length :=
    Nat.le_trans (Nat.le_max_left _ 1) (leastPayload_le hnumber hpayload)
  rw [hsplit] at hencrypt
  obtain ⟨covered, hseal, hlength⟩ := PacketKeys.exists_sealBytes_of_encryptPayload hkeys
    (hlocated.width_eq hnumber) (by omega) hencrypt
  rw [← hsplit] at hseal hlength
  rw [← hplace] at hseal
  exact ⟨covered, sealWith_eq_ok.2
    ⟨number, w, payload, header, offset, hnumber, hpayload, hheader, hoffset, hseal⟩, hlength⟩

/-- A packet that can be written can be sealed, if the cipher admits one of its length. -/
theorem exists_sealWith {suite : CipherSuite} {secret : Bytes} {version : Version}
    {keys : PacketKeys} (hkeys : PacketKeys.derive suite secret version = .ok keys) {p : Packet}
    {number offset : Nat} {w : PacketNumber.Width} {payload header : Bytes}
    (hnumber : p.number? = some (number, w)) (hpayload : p.payloadBytes = .ok payload)
    (hheader : p.headerBytes payload.length = .ok header)
    (hoffset : p.numberOffset payload.length = .ok offset)
    (hadmits : suite.aead.admits header.length payload.length = true) :
    ∃ sealed, p.sealWith keys = .ok sealed := by
  obtain ⟨ciphertext, hencrypt⟩ := PacketKeys.exists_encryptPayload hkeys number hadmits
  have hk : keys.aead.AppendsTag := (PacketKeys.lawful_of_derive hkeys).appendsTag
  obtain ⟨covered, hseal, _⟩ :=
    sealWith_of_encryptPayload hk hnumber hpayload hheader hoffset hencrypt
  exact ⟨_, hseal⟩

/-- A sealed packet as it was written: what is read without keys, under a mask, and what follows it.
The keys need only append a tag. -/
theorem exists_located_of_sealWith {keys : PacketKeys} (hkeys : keys.aead.AppendsTag) {p : Packet}
    {sealed : SealedPacket} (h : p.sealWith keys = .ok sealed) :
    ∃ number w payload first front mask body, p.number? = some (number, w)
      ∧ p.payloadBytes = .ok payload ∧ p.numberOffset payload.length = .ok (front.length + 1)
      ∧ p.Located payload.length first front
      ∧ keys.sealBytes (first :: front ++ PacketNumber.truncate w number) (front.length + 1) number
        payload = .ok sealed
      ∧ body.length = p.lengthField payload.length
      ∧ sealed.bytes = HeaderMask.coverFirst first mask :: front ++ body := by
  obtain ⟨number, w, payload, header, offset, hnumber, hpayload, hheader, hoffset, hseal⟩ :=
    sealWith_eq_ok.1 h
  obtain ⟨first, front, hlocated, rfl, rfl⟩ := exists_located hnumber hheader hoffset
  have hwidth := hlocated.width_eq hnumber
  obtain ⟨_, mask, hencrypt, _, _, hcovered⟩ := PacketKeys.exists_mask_of_sealBytes hwidth hseal
  have hlength : sealed.payload.length = payload.length + tagLength := hkeys hencrypt
  have htruncated : (PacketNumber.truncate w number).length =
      (PacketNumber.Width.ofFirstByte first).bytes := by
    rw [hwidth, PacketNumber.length_truncate]
  refine ⟨number, w, payload, first, front, mask,
    Bytes.xor (PacketNumber.truncate w number) mask.number.val ++ sealed.payload, hnumber,
    hpayload, hoffset, hlocated, hseal, ?_, ?_⟩
  · rw [List.length_append, HeaderMask.length_xor_number htruncated mask, hwidth, hlength,
      lengthField, hnumber, Nat.add_assoc]
    rfl
  · rw [SealedPacket.bytes, hcovered, List.append_assoc]

/-- What a sealed packet is for a reader who has the keys and for one who does not. -/
theorem exists_split_of_sealWith {keys : PacketKeys} (hkeys : keys.aead.Lawful) {p : Packet}
    {sealed : SealedPacket} (h : p.sealWith keys = .ok sealed) :
    ∃ payload offset, p.payloadBytes = .ok payload
      ∧ (∀ config : Config, config.Admits p →
        Datagram.split config sealed.bytes = .ok [.packet (p.found offset sealed.bytes)])
      ∧ ∀ (protector : Protector) (seen : Option Nat), p.epoch? = some protector.epoch →
        protector.opener = some keys → p.NumberNear seen →
        (p.found offset sealed.bytes).openWith protector seen =
          (Frame.decodeAll payload).map p.withFrames := by
  obtain ⟨number, w, payload, first, front, mask, body, hnumber, hpayload, _, hlocated, hseal,
    hbody, hbytes⟩ := exists_located_of_sealWith hkeys.appendsTag h
  refine ⟨payload, front.length + 1, hpayload, ?_, ?_⟩
  · -- the reader without keys does not notice the mask
    intro config hconfig
    have hread := hlocated.read config mask body [] hconfig hbody (Or.inr rfl)
    rw [← hbytes, List.append_nil] at hread
    rw [Datagram.split_of_readPacket hread, Datagram.split_nil]
    rfl
  · intro protector seen hepoch hopener hnear
    obtain ⟨hlargest, hnear⟩ := hnear number w hnumber
    have hpresent : payload ≠ [] := by
      have hleast : 1 ≤ payload.length :=
        Nat.le_trans (Nat.le_max_right _ _) (leastPayload_le hnumber hpayload)
      exact List.length_pos_iff.1 hleast
    have hopen := PacketKeys.openBytes_of_sealBytes hkeys (hlocated.width_eq hnumber) hseal hnear
      hlargest
    exact openWith_found hepoch hopener hopen hlocated.reserved hpresent
      fun frames => hlocated.rebuild _ _ frames hnumber

/-- Sealing, splitting and opening give a packet back, with its payload as its frames. Both
Initial protectors of a connection have the keys for it. -/
theorem openWith_of_sealWith :
    (∀ {suite : CipherSuite} {secret : Bytes} {version : Version} {keys : PacketKeys},
      PacketKeys.derive suite secret version = .ok keys →
      ∀ {p : Packet} {sealed : SealedPacket}, p.sealWith keys = .ok sealed →
      ∀ {config : Config}, config.Admits p →
      ∃ payload q, p.payloadBytes = .ok payload
        ∧ Datagram.split config sealed.bytes = .ok [.packet q]
        ∧ ∀ (protector : Protector) (seen : Option Nat), p.epoch? = some protector.epoch →
          protector.opener = some keys → p.NumberNear seen →
          q.openWith protector seen = (Frame.decodeAll payload).map p.withFrames)
    ∧ ∀ (dcid : ConnectionId) {version : Version}, version.isSupported = true →
      ∀ side : Side, ∃ sender receiver secret keys,
        Protector.initial dcid version side = .ok sender
        ∧ Protector.initial dcid version side.opposite = .ok receiver
        ∧ PacketKeys.derive InitialSecrets.suite secret version = .ok keys
        ∧ sender.epoch = .initial ∧ receiver.epoch = .initial
        ∧ sender.sealer = some keys ∧ receiver.opener = some keys := by
  constructor
  · intro suite secret version keys hkeys p sealed hseal config hconfig
    obtain ⟨payload, offset, hpayload, hsplit, hopen⟩ :=
      exists_split_of_sealWith (PacketKeys.lawful_of_derive hkeys) hseal
    exact ⟨payload, p.found offset sealed.bytes, hpayload, hsplit config hconfig, hopen⟩
  · intro dcid version hversion side
    exact Protector.initial_opposite dcid hversion side

/-- A Handshake packet with nothing but a PING in it is filled up and comes back with padding. The
Initial keys are there on both sides before any packet. -/
theorem openWith_of_sealWith_ping :
    ∃ keys sealed q,
      PacketKeys.derive .aes128GcmSha256 (List.replicate 32 7) .v1 = .ok keys
      ∧ (Packet.handshake ⟨⟨.v1, .empty, .empty, 300, .one⟩, [.ping]⟩).sealWith keys = .ok sealed
      ∧ Datagram.split {} sealed.bytes = .ok [.packet q]
      ∧ q.openWith { epoch := .handshake, version := .v1, opener := some keys } (some 298) =
        .ok (.handshake ⟨⟨.v1, .empty, .empty, 300, .one⟩, [.ping, .padding 2]⟩)
      ∧ ∃ sender receiver, Protector.initial .empty .v1 .client = .ok sender
        ∧ Protector.initial .empty .v1 .server = .ok receiver
        ∧ sender.sealer = receiver.opener := by
  have hdigest : CipherSuite.aes128GcmSha256.secretLength ≤
      (List.replicate 32 (7 : UInt8)).length := by decide
  obtain ⟨keys, hkeys⟩ := PacketKeys.exists_derive hdigest
    (show Version.v1.isSupported = true by decide)
  have hpayload : (Packet.handshake ⟨⟨.v1, .empty, .empty, 300, .one⟩, [.ping]⟩).payloadBytes =
      .ok [1, 0, 0] := rfl
  have hheader : (Packet.handshake ⟨⟨.v1, .empty, .empty, 300, .one⟩, [.ping]⟩).headerBytes 3 =
      .ok [0xe0, 0, 0, 0, 1, 0, 0, 20, 44] := rfl
  have hoffset : (Packet.handshake ⟨⟨.v1, .empty, .empty, 300, .one⟩, [.ping]⟩).numberOffset 3 =
      .ok 8 := rfl
  obtain ⟨sealed, hseal⟩ := exists_sealWith hkeys rfl hpayload hheader hoffset (by decide)
  have hconfig : Config.Admits {}
      (Packet.handshake ⟨⟨.v1, .empty, .empty, 300, .one⟩, [.ping]⟩) := ⟨by decide, by decide⟩
  obtain ⟨payload, q, hfound, hsplit, hopen⟩ := openWith_of_sealWith.1 hkeys hseal hconfig
  have hnear : (Packet.handshake ⟨⟨.v1, .empty, .empty, 300, .one⟩, [.ping]⟩).NumberNear
      (some 298) := by
    intro number w h
    cases h
    exact ⟨by decide, by decide, by decide⟩
  have hframes : Frame.decodeAll payload = .ok [.ping, .padding 2] := by
    rw [hpayload] at hfound
    injection hfound with hfound
    rw [← hfound]
    exact Frame.decodeAll_of_decode rfl (Frame.decodeAll_of_decode rfl Frame.decodeAll_nil)
  have hback := hopen { epoch := .handshake, version := .v1, opener := some keys } (some 298) rfl
    rfl hnear
  rw [hframes] at hback
  obtain ⟨sender, receiver, _, _, hsender, hreceiver, _, _, _, hsealer, hopener⟩ :=
    openWith_of_sealWith.2 .empty (show Version.v1.isSupported = true by decide) .client
  exact ⟨keys, sealed, q, hkeys, hseal, hsplit, hback, sender, receiver, hsender, hreceiver,
    hsealer.trans hopener.symm⟩

end Packet

end QuicTransport
