import QuicTransport.Config
import QuicTransport.Header

set_option autoImplicit false

/-! # Version Negotiation

A server that does not know the version of a packet answers with the versions it knows. The answer
is a long header with the version word zero, followed by the list. It has no number and no
protection; its first byte is always the same on the way out and is not looked at on the way in. -/

namespace QuicTransport

/-- A Version Negotiation packet. -/
structure VersionNegotiation where
  dcid : ConnectionId
  scid : ConnectionId
  versions : List Version
deriving DecidableEq, Repr

namespace Version

/-- A list of versions, four bytes each. -/
def listBytes (versions : List Version) : Bytes := versions.flatMap Version.bytes

/-- The versions in a byte string, four bytes each. Up to three bytes at the end are left out. -/
def listOfBytes : Bytes → List Version
  | a :: b :: c :: d :: rest => Version.ofBytes [a, b, c, d] :: listOfBytes rest
  | _ => []

end Version

namespace VersionNegotiation

/-- The packet that offers the versions of a configuration under the given identifiers. -/
def ofConfig (dcid scid : ConnectionId) (config : Config) : VersionNegotiation :=
  ⟨dcid, scid, config.supportedVersions⟩

/-- The first byte that is written. -/
def firstByte : UInt8 := 0xc0

/-- Everything before the list. -/
def headerBytes (p : VersionNegotiation) : Bytes :=
  invariantBytes firstByte .negotiation p.dcid p.scid

/-- The list. -/
def payloadBytes (p : VersionNegotiation) : Bytes := Version.listBytes p.versions

/-- The whole packet. -/
def encode (p : VersionNegotiation) : Bytes := p.headerBytes ++ p.payloadBytes

/-- The length of the whole packet. -/
def encodedLength (p : VersionNegotiation) : Nat :=
  7 + p.dcid.length + p.scid.length + 4 * p.versions.length

/-- The first of the preferred versions that is on offer and has rules here. -/
def select? (p : VersionNegotiation) (preferred : List Version) : Option Version :=
  preferred.find? fun v => v.isSupported && p.versions.contains v

end VersionNegotiation

end QuicTransport
