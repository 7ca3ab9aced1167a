import QuicTransport.ConnectionId
import QuicTransport.Version

set_option autoImplicit false

/-! # Configuration

One configuration serves all connections of an endpoint. It may be written by hand, so it can be
wrong in several ways at once; `Config.problems` lists all of them, in a fixed order, and
`Config.check` reports them together. -/

namespace QuicTransport

/-- The settings of an endpoint. -/
structure Config where
  /-- Versions offered in Version Negotiation, most preferred first. -/
  supportedVersions : List Version := [.v1, .v2]
  /-- The longest connection identifier accepted from a peer. -/
  maxConnectionIdLength : Nat := 20
  /-- The length of the token that a server issues when the handshake is complete. -/
  newTokenLength : Nat := 32
  /-- How many inbound packets may wait. -/
  maxBufferedPackets : Nat := 256
  /-- How many bytes of CRYPTO data may wait. -/
  maxCryptoBuffer : Nat := 65536
  /-- The length of the connection identifiers that this endpoint issues. A short header does not
  tell it, so a reader has to know. -/
  shortHeaderDcidLength : Nat := 8
  /-- The name of the congestion controller; nothing here depends on it. -/
  congestionControl : String := "none"
  /-- The flow control limit of a connection; nothing here depends on it. -/
  initialMaxData : Nat := 1048576
deriving DecidableEq, Repr

/-- One thing that is wrong with a configuration. -/
inductive ConfigProblem where
  | noVersions
  | negotiationVersion
  | reservedVersion (version : Version)
  | connectionIdTooLong (length : Nat)
  | shortHeaderDcidTooLong (length limit : Nat)
  | emptyToken
  | noBuffer
deriving DecidableEq, Repr

/-- The text of a problem. -/
def ConfigProblem.message : ConfigProblem → String
  | .noVersions => "supported_versions must not be empty"
  | .negotiationVersion => "supported_versions must not contain 0"
  | .reservedVersion version => s!"supported_versions contains reserved version {version.text}"
  | .connectionIdTooLong length =>
    s!"max_connection_id_length {length} exceeds {ConnectionId.maxLength}"
  | .shortHeaderDcidTooLong length limit =>
    s!"short_header_dcid_length {length} exceeds max_connection_id_length {limit}"
  | .emptyToken => "new_token_length must be greater than 0"
  | .noBuffer => "max_buffered_packets must be greater than 0"

namespace Config

/-- What is wrong with one of the offered versions. -/
def versionProblem? (v : Version) : Option ConfigProblem :=
  if v.isNegotiation then some .negotiationVersion
  else if v.isReserved then some (.reservedVersion v)
  else none

/-- A problem, if a condition holds. -/
def problemIf (condition : Bool) (problem : ConfigProblem) : List ConfigProblem :=
  if condition then [problem] else []

/-- Everything that is wrong with a configuration: first the versions, in their order, then the
lengths. -/
def problems (c : Config) : List ConfigProblem :=
  problemIf c.supportedVersions.isEmpty .noVersions
    ++ c.supportedVersions.filterMap versionProblem?
    ++ problemIf (ConnectionId.maxLength < c.maxConnectionIdLength)
      (.connectionIdTooLong c.maxConnectionIdLength)
    ++ problemIf (c.maxConnectionIdLength < c.shortHeaderDcidLength)
      (.shortHeaderDcidTooLong c.shortHeaderDcidLength c.maxConnectionIdLength)
    ++ problemIf (c.newTokenLength == 0) .emptyToken
    ++ problemIf (c.maxBufferedPackets == 0) .noBuffer

/-- Refuse a configuration with a problem, naming all of them. -/
def check (c : Config) : Result Unit :=
  match c.problems with
  | [] => .ok ()
  | ps => .error (.invalidConfig ("; ".intercalate (ps.map ConfigProblem.message)))

/-- The longest connection identifier that a long header may carry here. -/
def longHeaderCidLimit (c : Config) : Nat := min c.maxConnectionIdLength ConnectionId.maxLength

end Config

end QuicTransport
