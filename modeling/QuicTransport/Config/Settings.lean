import QuicTransport.Config

set_option autoImplicit false

/-! # Configurations as settings

A configuration file is a list of settings, each a value under a name. Settings that are not given
keep their defaults, and names that are not known are passed over. A value of the wrong kind, or a
number too large for its place, spoils the file.

`Config.settings` writes every setting out, in the order in which the fields are declared, and
reading them back gives the configuration again as long as its numbers
fit (`ofSettings?_settings`). -/

namespace QuicTransport

/-- The value of a setting. -/
inductive Setting where
  | number (n : Nat)
  | numbers (ns : List Nat)
  | text (s : String)
  /-- A value that no setting has. -/
  | other
deriving DecidableEq, Repr

namespace Setting

/-- The value as a length, a count or a limit. -/
def asCount? : Setting → Option Nat
  | .number n => if n < UInt64.size then some n else none
  | _ => none

/-- The value as a text. -/
def asText? : Setting → Option String
  | .text s => some s
  | _ => none

/-- A number as a version. -/
def versionOf? (n : Nat) : Option Version :=
  if n < UInt32.size then some ⟨UInt32.ofNat n⟩ else none

/-- The value as a list of versions. -/
def asVersions? : Setting → Option (List Version)
  | .numbers ns => ns.mapM versionOf?
  | _ => none

end Setting

namespace Config

/-- The names of the settings, in the order of declaration. -/
def settingNames : List String :=
  ["supported_versions", "max_connection_id_length", "new_token_length", "max_buffered_packets",
    "max_crypto_buffer", "short_header_dcid_length", "congestion_control", "initial_max_data"]

/-- Change one setting. -/
def change (c : Config) (name : String) (value : Setting) : Option Config :=
  match name with
  | "supported_versions" => value.asVersions?.map fun vs => { c with supportedVersions := vs }
  | "max_connection_id_length" =>
    value.asCount?.map fun n => { c with maxConnectionIdLength := n }
  | "new_token_length" => value.asCount?.map fun n => { c with newTokenLength := n }
  | "max_buffered_packets" => value.asCount?.map fun n => { c with maxBufferedPackets := n }
  | "max_crypto_buffer" => value.asCount?.map fun n => { c with maxCryptoBuffer := n }
  | "short_header_dcid_length" =>
    value.asCount?.map fun n => { c with shortHeaderDcidLength := n }
  | "congestion_control" => value.asText?.map fun s => { c with congestionControl := s }
  | "initial_max_data" => value.asCount?.map fun n => { c with initialMaxData := n }
  | _ => some c

/-- The configuration with the given settings; `none` if one of them is spoilt. -/
def ofSettings? (settings : List (String × Setting)) : Option Config :=
  settings.foldlM (fun c s => c.change s.1 s.2) {}

/-- All settings of a configuration. -/
def settings (c : Config) : List (String × Setting) :=
  [("supported_versions", .numbers (c.supportedVersions.map fun v => v.word.toNat)),
    ("max_connection_id_length", .number c.maxConnectionIdLength),
    ("new_token_length", .number c.newTokenLength),
    ("max_buffered_packets", .number c.maxBufferedPackets),
    ("max_crypto_buffer", .number c.maxCryptoBuffer),
    ("short_header_dcid_length", .number c.shortHeaderDcidLength),
    ("congestion_control", .text c.congestionControl),
    ("initial_max_data", .number c.initialMaxData)]

/-- Whether every number of a configuration fits its place. -/
def Fits (c : Config) : Prop :=
  c.maxConnectionIdLength < UInt64.size ∧ c.newTokenLength < UInt64.size
    ∧ c.maxBufferedPackets < UInt64.size ∧ c.maxCryptoBuffer < UInt64.size
    ∧ c.shortHeaderDcidLength < UInt64.size ∧ c.initialMaxData < UInt64.size

private theorem versionOf?_word (v : Version) : Setting.versionOf? v.word.toNat = some v := by
  have hlt : v.word.toNat < UInt32.size := v.word.toNat_lt_size
  rw [Setting.versionOf?, if_pos hlt, UInt32.ofNat_toNat]

private theorem asVersions?_words (vs : List Version) :
    (Setting.numbers (vs.map fun v => v.word.toNat)).asVersions? = some vs := by
  induction vs with
  | nil => rfl
  | cons v vs ih =>
    simp only [Setting.asVersions?] at ih ⊢
    rw [List.map_cons, List.mapM_cons, versionOf?_word, ih]
    rfl

/-- Settings written out are read back. -/
theorem ofSettings?_settings (c : Config) (h : c.Fits) : ofSettings? c.settings = some c := by
  obtain ⟨h1, h2, h3, h4, h5, h6⟩ := h
  simp only [ofSettings?, settings, List.foldlM_cons, List.foldlM_nil, change, asVersions?_words,
    Setting.asCount?, Setting.asText?, h1, h2, h3, h4, h5, h6, if_true, Option.map_some,
    Option.bind_eq_bind, Option.bind_some]
  rfl

end Config

end QuicTransport
