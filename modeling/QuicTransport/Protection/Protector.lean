import QuicTransport.Protection.PacketKeys

set_option autoImplicit false

/-! # The keys of an epoch

A `Protector` has two slots: keys for what this endpoint sends and keys for what it receives. Keys
are installed once, under the side whose data they protect. A slot that is taken stays as it is, and
an installation that fails changes nothing. Dropping the keys empties both slots. -/

namespace QuicTransport

/-- The two slots of a protector. -/
inductive KeySlot where
  | sealer
  | opener
deriving DecidableEq, Repr

namespace KeySlot

/-- The slot for the data of a side. -/
def ofAuthor (author ours : Side) : KeySlot := if author = ours then .sealer else .opener

/-- The name of a slot. -/
def text : KeySlot → String
  | .sealer => "sealer"
  | .opener => "opener"

/-- The name of a slot with a capital. -/
def title : KeySlot → String
  | .sealer => "Sealer"
  | .opener => "Opener"

end KeySlot

/-- The keys of one epoch. -/
structure Protector where
  epoch : Epoch
  /-- The version whose labels the keys are derived under. -/
  version : Version
  /-- The keys for what this endpoint sends. -/
  sealer : Option PacketKeys := none
  /-- The keys for what this endpoint receives. -/
  opener : Option PacketKeys := none

namespace Protector

/-- A protector with both slots empty. -/
def empty (epoch : Epoch) (version : Version) : Protector := { epoch, version }

/-- What is in a slot. -/
def slot (p : Protector) : KeySlot → Option PacketKeys
  | .sealer => p.sealer
  | .opener => p.opener

/-- Put keys into a slot. -/
def fill (p : Protector) (keys : PacketKeys) : KeySlot → Protector
  | .sealer => { p with sealer := some keys }
  | .opener => { p with opener := some keys }

/-- The keys in a slot, refused if there are none. -/
def keys (p : Protector) (s : KeySlot) : Result PacketKeys :=
  match p.slot s with
  | some k => .ok k
  | none => .error (.crypto (.missingKeys s.text))

/-- Install the keys in the secret of one side. -/
def install (p : Protector) (suite : CipherSuite) (secret : Bytes) (author ours : Side) :
    Result Protector :=
  let s := KeySlot.ofAuthor author ours
  if (p.slot s).isSome then .error (.crypto (.keyAlreadyInstalled s.text))
  else do
    let keys ← PacketKeys.derive suite secret p.version
    return p.fill keys s

/-- Drop the keys. -/
def dropKeys (p : Protector) : Protector := { p with sealer := none, opener := none }

/-- The protector of the Initial epoch, with the keys of both sides. -/
def initial (dcid : ConnectionId) (version : Version) (ours : Side) : Result Protector := do
  let secrets ← InitialSecrets.derive dcid version
  let p ← (empty .initial version).install InitialSecrets.suite secrets.client .client ours
  p.install InitialSecrets.suite secrets.server .server ours

/-- The keys in a slot for logs. -/
def describeKeys (s : KeySlot) (k : PacketKeys) : String :=
  s!"{s.title} \x7b aead: {k.aead.algorithm.text}, .. \x7d"

/-- Take the protection off a packet. -/
def openBytes (p : Protector) (packet : Bytes) (offset : Nat) (seen : Option Nat) :
    Result OpenedPacket := do
  let k ← p.keys .opener
  k.openBytes packet offset seen

end Protector

end QuicTransport
