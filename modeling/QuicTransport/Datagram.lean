import QuicTransport.Packet
import QuicTransport.Reader

set_option autoImplicit false

/-! # Datagrams

A datagram holds one packet or several. A long header tells how long its packet is, so another
packet may follow; a packet with a short header and a Version Negotiation packet reach to the end.

`Datagram.split` finds the packets and reads of each what can be read without keys, up to the place
where the packet number starts. The rest of the header stays under protection. 0-RTT packets are
passed over. A packet that cannot be read spoils the datagram. -/

namespace QuicTransport

/-- A packet as it was received, with protection in place. -/
structure ProtectedPacket where
  type : PacketType
  version : Option Version
  dcid : ConnectionId
  /-- The identifier of the sender in a long header. -/
  scid : Option ConnectionId
  /-- The token of an Initial packet, or nothing. -/
  token : Bytes
  /-- Where the packet number starts. -/
  numberOffset : Nat
  bytes : Bytes
deriving DecidableEq, Repr

namespace Datagram

/-- What a datagram can hold. -/
inductive Item where
  | packet (packet : ProtectedPacket)
  | negotiation (packet : VersionNegotiation)
deriving DecidableEq, Repr

/-! ## Fields -/

/-- Refuse a packet unless a condition holds. -/
def insist (condition : Bool) (what : String) : Reader Unit :=
  Reader.require condition (.malformedPacket what)

/-- The next byte of a header. -/
def readByte : Reader UInt8 := Reader.byte (.malformedPacket "truncated header")

/-- The next `n` bytes of a header. -/
def readBytes (n : Nat) : Reader Bytes := Reader.bytes n (.malformedPacket "field exceeds datagram")

/-- The next number of a header. -/
def readNumber : Reader Nat := Reader.varInt (.malformedPacket "truncated varint")

/-- The version. -/
def readVersion : Reader Version :=
  Version.ofBytes <$> Reader.bytes 4 (.malformedPacket "truncated version")

/-- A connection identifier of a known length. -/
def readCidOf (length : Nat) : Reader ConnectionId := do
  let bs ← readBytes length
  match ConnectionId.ofBytes? bs with
  | some cid => return cid
  | none => Reader.fail (.invalidConnectionIdLength length)

/-- A connection identifier with its length in front. -/
def readCid (limit : Nat) : Reader ConnectionId := do
  let length ← readByte
  Reader.require (length.toNat ≤ limit) (.invalidConnectionIdLength length.toNat)
  readCidOf length.toNat

/-- The token of an Initial packet. Other packets have none, and a Retry packet is refused here. -/
def readToken : PacketType → Reader Bytes
  | .initial => do
    let length ← readNumber
    readBytes length
  | .retry => Reader.fail (.malformedPacket "retry packets are not supported")
  | _ => pure []

/-! ## Packets -/

/-- What follows the first byte of a short header. -/
def readShort (config : Config) (whole : Bytes) : Reader Item := do
  let dcid ← readCidOf config.shortHeaderDcidLength
  let _ ← Reader.remainder
  return .packet {
    type := .oneRtt
    version := none
    dcid
    scid := none
    token := []
    numberOffset := 1 + config.shortHeaderDcidLength
    bytes := whole }

/-- The list of a Version Negotiation packet. -/
def readVersions (dcid scid : ConnectionId) : Reader Item := do
  let list ← Reader.remainder
  insist (list.length % 4 == 0) "version list not a multiple of 4"
  return .negotiation ⟨dcid, scid, Version.listOfBytes list⟩

/-- What follows the identifiers in a long header of a numbered packet; nothing comes of a 0-RTT
packet. -/
def readNumbered (whole : Bytes) (first : UInt8) (version : Version) (dcid scid : ConnectionId) :
    Reader (Option Item) := do
  insist (FirstByte.isFixed first) "fixed bit not set"
  Reader.require version.isSupported (.unsupportedVersion version.word)
  let type ← Reader.lift (version.packetType (FirstByte.typeBits first))
  let token ← readToken type
  let length ← readNumber
  let left ← Reader.ahead
  let numberOffset := whole.length - left.length
  let _ ← Reader.bytes length (.malformedPacket "length exceeds datagram")
  return if type = .zeroRtt then none else some (.packet {
    type
    version := some version
    dcid
    scid := some scid
    token
    numberOffset
    bytes := whole.take (numberOffset + length) })

/-- What follows the first byte of a long header. -/
def readLong (config : Config) (whole : Bytes) (first : UInt8) : Reader (Option Item) := do
  let version ← readVersion
  let dcid ← readCid config.longHeaderCidLimit
  let scid ← readCid config.longHeaderCidLimit
  if version.isNegotiation then some <$> readVersions dcid scid
  else readNumbered whole first version dcid scid

/-- What follows the first byte. -/
def readAfter (config : Config) (whole : Bytes) (first : UInt8) : Reader (Option Item) :=
  match HeaderForm.ofFirstByte first with
  | .short => do
    insist (FirstByte.isFixed first) "fixed bit not set"
    some <$> readShort config whole
  | .long => readLong config whole first

/-- One packet from the front of a datagram. -/
def readPacket (config : Config) : Reader (Option Item) := fun whole =>
  (readByte >>= readAfter config whole) whole

/-! ## What is left of a datagram -/

private theorem sound_insist (condition : Bool) (what : String) : (insist condition what).Sound :=
  Reader.sound_require _ _

private theorem sound_readCidOf (length : Nat) : (readCidOf length).Sound := by
  refine Reader.sound_bind (Reader.sound_bytes _ _) fun bs => ?_
  split
  · exact Reader.sound_pure _
  · exact Reader.sound_fail _

private theorem sound_readCid (limit : Nat) : (readCid limit).Sound :=
  Reader.sound_bind (Reader.sound_byte _) fun _ => Reader.sound_bind (Reader.sound_require _ _)
    fun _ => sound_readCidOf _

private theorem sound_readToken (type : PacketType) : (readToken type).Sound := by
  unfold readToken
  split
  · exact Reader.sound_bind (Reader.sound_varInt _) fun _ => Reader.sound_bytes _ _
  · exact Reader.sound_fail _
  · exact Reader.sound_pure _

private theorem sound_readShort (config : Config) (whole : Bytes) :
    (readShort config whole).Sound :=
  Reader.sound_bind (sound_readCidOf _) fun _ => Reader.sound_bind Reader.sound_remainder
    fun _ => Reader.sound_pure _

private theorem sound_readVersions (dcid scid : ConnectionId) : (readVersions dcid scid).Sound :=
  Reader.sound_bind Reader.sound_remainder fun _ => Reader.sound_bind (sound_insist _ _)
    fun _ => Reader.sound_pure _

private theorem sound_readNumbered (whole : Bytes) (first : UInt8) (version : Version)
    (dcid scid : ConnectionId) : (readNumbered whole first version dcid scid).Sound :=
  Reader.sound_bind (sound_insist _ _) fun _ => Reader.sound_bind (Reader.sound_require _ _)
    fun _ => Reader.sound_bind (Reader.sound_lift _) fun _ => Reader.sound_bind (sound_readToken _)
    fun _ => Reader.sound_bind (Reader.sound_varInt _) fun _ => Reader.sound_bind
    Reader.sound_ahead fun _ => Reader.sound_bind (Reader.sound_bytes _ _)
    fun _ => Reader.sound_pure _

private theorem sound_readLong (config : Config) (whole : Bytes) (first : UInt8) :
    (readLong config whole first).Sound := by
  refine Reader.sound_bind (Reader.sound_map _ (Reader.sound_bytes _ _)) fun version =>
    Reader.sound_bind (sound_readCid _) fun dcid => Reader.sound_bind (sound_readCid _)
    fun scid => ?_
  split
  · exact Reader.sound_map _ (sound_readVersions _ _)
  · exact sound_readNumbered _ _ _ _ _

/-- What follows the first byte is read from the front. -/
theorem sound_readAfter (config : Config) (whole : Bytes) (first : UInt8) :
    (readAfter config whole first).Sound := by
  unfold readAfter
  split
  · exact Reader.sound_bind (sound_insist _ _) fun _ => Reader.sound_map _ (sound_readShort _ _)
  · exact sound_readLong _ _ _

/-- A packet takes at least one byte. -/
theorem readPacket_shortens {config : Config} {whole : Bytes} {item : Option Item} {rest : Bytes}
    (h : readPacket config whole = .ok (item, rest)) : rest.length < whole.length := by
  cases whole with
  | nil => cases h
  | cons first after =>
    have hsuffix : rest <:+ after := sound_readAfter config (first :: after) first h
    have hle := hsuffix.length_le
    rw [List.length_cons]
    omega

/-! ## Datagrams -/

/-- The packets of a datagram in order. -/
def split (config : Config) (datagram : Bytes) : Result (List Item) :=
  match datagram with
  | [] => .ok []
  | b :: bs =>
    match _h : readPacket config (b :: bs) with
    | .ok (item, rest) => (split config rest).map (item.toList ++ ·)
    | .error e => .error e
termination_by datagram.length
decreasing_by exact readPacket_shortens ‹_›

end Datagram

end QuicTransport
