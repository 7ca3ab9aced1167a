import QuicTransport.Proofs.KeySeparation
import QuicTransport.Protection.Protector

set_option autoImplicit false

/-! # Keys can be derived

Key derivation refuses a secret that is too short, a label that is too long and a version without
rules. None of this happens to a secret of the right length under a supported version, and the
Initial secrets have the right length whatever connection identifier they come from. So both sides
of a connection have the Initial keys, and what one seals with is what the other opens with
(`Protector.initial_opposite`). -/

namespace QuicTransport

/-! ## Key material -/

namespace CipherSuite

theorem digestLength_pos (s : CipherSuite) : 32 ≤ s.hash.digestLength := by
  cases s <;> decide

/-- A short label and a short length are within the limits. -/
theorem exists_labelInfo {label : Bytes} {length : Nat} (hlabel : label.length ≤ 10)
    (hlength : length ≤ 48) : ∃ info, labelInfo label [] length = .ok info := by
  have hfits : (⟨label, [], length⟩ : Purpose).Fits :=
    ⟨Nat.le_trans hlength (by decide), Nat.le_trans hlabel (by decide), Nat.zero_le _⟩
  exact ⟨_, Purpose.info_eq_ok.2 ⟨hfits, rfl⟩⟩

theorem exists_expandLabel {s : CipherSuite} {secret label : Bytes} {length : Nat}
    (hsecret : s.secretLength ≤ secret.length) (hlabel : label.length ≤ 10)
    (hlength : length ≤ 48) : ∃ bs, s.expandLabel secret label [] length = .ok bs := by
  have hdigest : 32 ≤ s.secretLength := s.digestLength_pos
  obtain ⟨info, hinfo⟩ := exists_labelInfo hlabel hlength
  have hpurpose : (⟨label, [], length⟩ : Purpose).info = .ok info := hinfo
  exact ⟨_, (Purpose.expandLabel_eq_ok hpurpose).2 ⟨hsecret, by dsimp only; omega, rfl⟩⟩

/-- Nothing is expanded from a secret that is shorter than a digest. -/
theorem expandLabel_of_short {s : CipherSuite} {secret label : Bytes} {length : Nat}
    (hsecret : secret.length < s.secretLength) (hlabel : label.length ≤ 10)
    (hlength : length ≤ 48) :
    s.expandLabel secret label [] length =
      .error (.crypto (.keyDerivation "secret shorter than hash output")) := by
  obtain ⟨info, hinfo⟩ := exists_labelInfo hlabel hlength
  exact Result.bind_eq_error.2 (Or.inr ⟨info, hinfo, if_pos hsecret⟩)

theorem exists_expandFixed {s : CipherSuite} {secret label : Bytes} {length : Nat}
    (hsecret : s.secretLength ≤ secret.length) (hlabel : label.length ≤ 10)
    (hlength : length ≤ 48) : ∃ bs, s.expandFixed secret label length = .ok bs := by
  obtain ⟨found, hfound⟩ := exists_expandLabel hsecret hlabel hlength
  unfold expandFixed
  split
  · exact ⟨_, rfl⟩
  · next e herror =>
    rw [hfound] at herror
    cases herror

theorem expandFixed_of_error {s : CipherSuite} {secret label : Bytes} {length : Nat} {e : Error}
    (h : s.expandLabel secret label [] length = .error e) :
    s.expandFixed secret label length = .error e := by
  unfold expandFixed
  split
  · next bs hbs =>
    rw [h] at hbs
    cases hbs
  · next e' herror =>
    rw [h] at herror
    cases herror
    rfl

end CipherSuite

/-! ## Versions -/

namespace Version

/-- A supported version has rules, and its labels are short. -/
theorem exists_rules {v : Version} (h : v.isSupported = true) :
    ∃ rules, v.rules = .ok rules ∧ rules.labels.key.length ≤ 10 ∧ rules.labels.iv.length ≤ 10
      ∧ rules.labels.headerProtection.length ≤ 10 := by
  rw [isSupported, Bool.or_eq_true, beq_iff_eq, beq_iff_eq] at h
  rcases h with rfl | rfl
  · exact ⟨rulesV1, rfl, by decide, by decide, by decide⟩
  · exact ⟨rulesV2, rfl, by decide, by decide, by decide⟩

theorem rules_of_unsupported {v : Version} (h : v.isSupported = false) :
    v.rules = .error (.unsupportedVersion v.word) := by
  rw [isSupported, Bool.or_eq_false_iff, beq_eq_false_iff_ne, beq_eq_false_iff_ne] at h
  rw [rules, if_neg h.1, if_neg h.2]

end Version

/-! ## Packet keys -/

/-- Every secret of the right length has keys in it. -/
theorem PacketKeys.exists_derive {suite : CipherSuite} {secret : Bytes} {version : Version}
    (hsecret : suite.secretLength ≤ secret.length) (hversion : version.isSupported = true) :
    ∃ keys, PacketKeys.derive suite secret version = .ok keys := by
  obtain ⟨rules, hrules, hkey, hiv, hmask⟩ := Version.exists_rules hversion
  have hlabels : version.keyLabels = .ok rules.labels := by
    rw [Version.keyLabels, hrules]
    rfl
  obtain ⟨key, hexpandKey⟩ := CipherSuite.exists_expandFixed hsecret hkey
    (show suite.aead.keyLength ≤ 48 by cases suite <;> decide)
  obtain ⟨iv, hexpandIv⟩ := CipherSuite.exists_expandFixed hsecret hiv
    (show nonceLength ≤ 48 by decide)
  obtain ⟨maskKey, hexpandMask⟩ := CipherSuite.exists_expandFixed hsecret hmask
    (show suite.aead.headerMask.keyLength ≤ 48 by cases suite <;> decide)
  have hpacketKey : suite.packetKey secret version = .ok ⟨key.val, iv⟩ := by
    simp only [CipherSuite.packetKey, hlabels, hexpandKey, hexpandIv, bind, Except.bind]
    rfl
  have hheaderKey : suite.headerKey secret version = .ok maskKey.val := by
    simp only [CipherSuite.headerKey, hlabels, hexpandMask, bind, Except.bind]
    rfl
  simp only [PacketKeys.derive, hpacketKey, hheaderKey, Aead.ofKey, HeaderMask.ofKey, key.property,
    maskKey.property, if_true, bind, Except.bind]
  exact ⟨_, rfl⟩

/-- Only the versions with rules have keys. -/
theorem PacketKeys.derive_of_unsupported (suite : CipherSuite) (secret : Bytes) {version : Version}
    (h : version.isSupported = false) :
    PacketKeys.derive suite secret version = .error (.unsupportedVersion version.word) := by
  have hlabels : version.keyLabels = .error (.unsupportedVersion version.word) := by
    rw [Version.keyLabels, Version.rules_of_unsupported h]
    rfl
  exact Result.bind_eq_error.2 (Or.inl (Result.bind_eq_error.2 (Or.inl hlabels)))

/-- A secret that is shorter than a digest has no keys in it. -/
theorem PacketKeys.derive_of_short {suite : CipherSuite} {secret : Bytes} {version : Version}
    (hversion : version.isSupported = true) (hsecret : secret.length < suite.secretLength) :
    PacketKeys.derive suite secret version =
      .error (.crypto (.keyDerivation "secret shorter than hash output")) := by
  obtain ⟨rules, hrules, hkey, _⟩ := Version.exists_rules hversion
  have hlabels : version.keyLabels = .ok rules.labels := by
    rw [Version.keyLabels, hrules]
    rfl
  have hexpand := CipherSuite.expandFixed_of_error (CipherSuite.expandLabel_of_short hsecret hkey
    (show suite.aead.keyLength ≤ 48 by cases suite <;> decide))
  exact Result.bind_eq_error.2 (Or.inl (Result.bind_eq_error.2
    (Or.inr ⟨rules.labels, hlabels, Result.bind_eq_error.2 (Or.inl hexpand)⟩)))

/-! ## Initial keys -/

namespace InitialSecrets

theorem exists_derive (dcid : ConnectionId) {version : Version}
    (hversion : version.isSupported = true) :
    ∃ secrets, InitialSecrets.derive dcid version = .ok secrets
      ∧ ∀ side, suite.secretLength ≤ (secrets.of side).length := by
  obtain ⟨rules, hrules, _⟩ := Version.exists_rules hversion
  have hcommon : common dcid version = .ok (suite.hash.extract rules.initialSalt dcid.bytes) := by
    simp only [common, Version.initialSalt, hrules, Except.map, bind, Except.bind]
    rfl
  have hlength : suite.secretLength ≤ (suite.hash.extract rules.initialSalt dcid.bytes).length :=
    Nat.le_of_eq (HashFunction.length_extract _ _ _).symm
  obtain ⟨client, hclient⟩ := CipherSuite.exists_expandLabel hlength
    (show (asciiBytes "client in").length ≤ 10 by decide) (show suite.secretLength ≤ 48 by decide)
  obtain ⟨server, hserver⟩ := CipherSuite.exists_expandLabel hlength
    (show (asciiBytes "server in").length ≤ 10 by decide) (show suite.secretLength ≤ 48 by decide)
  refine ⟨⟨client, server⟩, ?_, ?_⟩
  · simp only [derive, hcommon, hclient, hserver, bind, Except.bind]
    rfl
  · intro side
    cases side with
    | client => exact Nat.le_of_eq (CipherSuite.length_of_expandLabel hclient).symm
    | server => exact Nat.le_of_eq (CipherSuite.length_of_expandLabel hserver).symm

end InitialSecrets

namespace Protector

@[simp] theorem version_fill (p : Protector) (keys : PacketKeys) (s : KeySlot) :
    (p.fill keys s).version = p.version := by
  cases s <;> rfl

/-- A slot that is filled is the slot of the side whose data the keys protect. -/
theorem install_of_derive {p : Protector} {suite : CipherSuite} {secret : Bytes}
    {keys : PacketKeys} {author ours : Side}
    (hempty : p.slot (KeySlot.ofAuthor author ours) = none)
    (hkeys : PacketKeys.derive suite secret p.version = .ok keys) :
    p.install suite secret author ours = .ok (p.fill keys (KeySlot.ofAuthor author ours)) := by
  rw [install, hempty, if_neg (by decide), hkeys]
  rfl

/-- Both sides have Initial keys for each other: what one seals with, the other opens with. -/
theorem initial_opposite (dcid : ConnectionId) {version : Version}
    (hversion : version.isSupported = true) (side : Side) :
    ∃ sender receiver secret keys, Protector.initial dcid version side = .ok sender
      ∧ Protector.initial dcid version side.opposite = .ok receiver
      ∧ PacketKeys.derive InitialSecrets.suite secret version = .ok keys
      ∧ sender.epoch = .initial ∧ receiver.epoch = .initial
      ∧ sender.sealer = some keys ∧ receiver.opener = some keys := by
  obtain ⟨secrets, hsecrets, hlength⟩ := InitialSecrets.exists_derive dcid hversion
  obtain ⟨client, hclient⟩ := PacketKeys.exists_derive (hlength .client) hversion
  obtain ⟨server, hserver⟩ := PacketKeys.exists_derive (hlength .server) hversion
  have hinitial : ∀ ours : Side, Protector.initial dcid version ours =
      .ok (((empty .initial version).fill client (.ofAuthor .client ours)).fill server
        (.ofAuthor .server ours)) := by
    intro ours
    have hfirst : (empty .initial version).install InitialSecrets.suite secrets.client .client
        ours = .ok ((empty .initial version).fill client (.ofAuthor .client ours)) :=
      install_of_derive (by cases ours <;> rfl) hclient
    exact Result.bind_eq_ok.2 ⟨secrets, hsecrets, Result.bind_eq_ok.2 ⟨_, hfirst,
      install_of_derive (by cases ours <;> rfl) (by rw [version_fill]; exact hserver)⟩⟩
  refine ⟨_, _, secrets.of side, if side = .client then client else server, hinitial side,
    hinitial side.opposite, ?_⟩
  cases side with
  | client => exact ⟨hclient, rfl, rfl, rfl, rfl⟩
  | server => exact ⟨hserver, rfl, rfl, rfl, rfl⟩

end Protector

end QuicTransport
