import QuicTransport.ConnectionId
import QuicTransport.Endpoint
import QuicTransport.Protection.Suite
import QuicTransport.Version

set_option autoImplicit false

/-! # From secrets to keys

Each side of each epoch has a secret. From it come the key and the initialisation vector of the
authenticated cipher and the key of header protection, under labels that belong to the version.

The secrets of the Initial epoch are no secrets: both sides compute them from the connection
identifier that the client chose for the server, and the first suite is used with them. -/

namespace QuicTransport

/-- The key and the initialisation vector of an authenticated cipher. -/
structure PacketKey where
  key : Bytes
  /-- The initialisation vector, to which packet numbers are added. -/
  iv : FixedBytes nonceLength
deriving DecidableEq

/-- A packet key for logs, without the key. -/
def PacketKey.describe (k : PacketKey) : String :=
  s!"PacketKey \x7b key_len: {k.key.length}, .. \x7d"

namespace CipherSuite

/-- The packet key in a secret. -/
def packetKey (s : CipherSuite) (secret : Bytes) (version : Version) : Result PacketKey := do
  let labels ← version.keyLabels
  let key ← s.expandFixed secret labels.key s.aead.keyLength
  let iv ← s.expandFixed secret labels.iv nonceLength
  return ⟨key.val, iv⟩

/-- The header protection key in a secret. -/
def headerKey (s : CipherSuite) (secret : Bytes) (version : Version) : Result Bytes := do
  let labels ← version.keyLabels
  let key ← s.expandFixed secret labels.headerProtection s.aead.headerMask.keyLength
  return key.val

end CipherSuite

/-! ## Initial secrets -/

/-- The secrets of both sides in the Initial epoch. -/
structure InitialSecrets where
  client : Bytes
  server : Bytes
deriving DecidableEq, Repr

namespace InitialSecrets

/-- The suite of the Initial epoch. -/
def suite : CipherSuite := .aes128GcmSha256

/-- What both secrets are derived from. -/
def common (dcid : ConnectionId) (version : Version) : Result Bytes := do
  let salt ← version.initialSalt
  return suite.hash.extract salt dcid.bytes

/-- The secrets for the identifier that the client chose for the server. -/
def derive (dcid : ConnectionId) (version : Version) : Result InitialSecrets := do
  let secret ← common dcid version
  let client ← suite.expandLabel secret (asciiBytes "client in") [] suite.secretLength
  let server ← suite.expandLabel secret (asciiBytes "server in") [] suite.secretLength
  return ⟨client, server⟩

/-- The secret of one side. -/
def of (s : InitialSecrets) : Side → Bytes
  | .client => s.client
  | .server => s.server

/-- Initial secrets for logs. -/
def describe (_ : InitialSecrets) : String := "InitialSecrets(..)"

end InitialSecrets

end QuicTransport
