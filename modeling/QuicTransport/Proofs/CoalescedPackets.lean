import Mathlib.Data.List.Forall2
import QuicTransport.Proofs.SealedPackets

set_option autoImplicit false

/-! # Coalesced packets are told apart

A sender may put several sealed packets into one datagram, one behind the other. The reader has no
keys at this point and no list of lengths. What separates two packets is the length field of the
first, which the sender has computed before it encrypted anything, so all depends on the ciphertext
having the length that was foreseen: the cipher appends its tag and does nothing else to the length.

A packet with a short header has no length field. It reaches to the end, so it has to come last. -/

namespace QuicTransport

/-- A packet that has been sealed, with keys of which only the length of the tag is known. -/
structure Sealing where
  packet : Packet
  keys : PacketKeys
  sealed : SealedPacket
  appendsTag : keys.aead.AppendsTag
  isSealed : packet.sealWith keys = .ok sealed

namespace Sealing

/-- What is found in a datagram is the sealed packet, with the fields that are read without keys and
the place of its packet number. -/
structure Matches (s : Sealing) (q : ProtectedPacket) : Prop where
  bytes : q.bytes = s.sealed.bytes
  type : q.type = s.packet.type
  version : q.version = s.packet.version?
  dcid : q.dcid = s.packet.dcid
  scid : q.scid = s.packet.scid?
  token : q.token = s.packet.token
  numberOffset : ∃ payload, s.packet.payloadBytes = .ok payload
    ∧ s.packet.numberOffset payload.length = .ok q.numberOffset

/-- A sealed packet is found at the front of a datagram. Behind a short header nothing may
follow. -/
theorem exists_readPacket (s : Sealing) :
    ∃ q, s.Matches q ∧ ∀ (config : Config) (rest : Bytes), config.Admits s.packet →
      s.packet.isLong = true ∨ rest = [] →
      Datagram.readPacket config (s.sealed.bytes ++ rest) = .ok (some (.packet q), rest) := by
  obtain ⟨_, _, payload, first, front, mask, body, _, hpayload, hoffset, hlocated, _, hbody,
    hbytes⟩ := Packet.exists_located_of_sealWith s.appendsTag s.isSealed
  refine ⟨s.packet.found (front.length + 1) s.sealed.bytes,
    ⟨rfl, rfl, rfl, rfl, rfl, rfl, payload, hpayload, hoffset⟩, ?_⟩
  intro config rest hadmits hlast
  have hread := hlocated.read config mask body rest hadmits hbody hlast
  rwa [← hbytes] at hread

/-- A packet that can be written can be sealed with the keys of any suite, if the cipher admits one
of its length. -/
theorem exists_of_payloadBytes (suite : CipherSuite) (version : Version) (p : Packet)
    (payload : Bytes) {number offset : Nat} {w : PacketNumber.Width} {header : Bytes}
    (hversion : version.isSupported = true) (hnumber : p.number? = some (number, w))
    (hpayload : p.payloadBytes = .ok payload) (hheader : p.headerBytes payload.length = .ok header)
    (hoffset : p.numberOffset payload.length = .ok offset)
    (hadmits : suite.aead.admits header.length payload.length = true) :
    ∃ s : Sealing, s.packet = p := by
  have hsecret : suite.secretLength ≤ (List.replicate 48 (0 : UInt8)).length := by
    cases suite <;> decide
  obtain ⟨keys, hkeys⟩ := PacketKeys.exists_derive hsecret hversion
  obtain ⟨sealed, hseal⟩ :=
    Packet.exists_sealWith hkeys hnumber hpayload hheader hoffset hadmits
  exact ⟨⟨p, keys, sealed, (PacketKeys.lawful_of_derive hkeys).appendsTag, hseal⟩, rfl⟩

end Sealing

namespace Datagram

/-- A datagram of sealed packets is split into these packets, in their order. All of them but the
last must have long headers; then it does not matter how many there are, of what versions, and with
what keys they were sealed. -/
theorem split_flatMap_sealed {config : Config} {sealings : List Sealing}
    (hadmits : ∀ s ∈ sealings, config.Admits s.packet)
    (hlong : ∀ s ∈ sealings.dropLast, s.packet.isLong = true) :
    ∃ qs : List ProtectedPacket,
      split config (sealings.flatMap fun s => s.sealed.bytes) = .ok (qs.map .packet)
        ∧ List.Forall₂ Sealing.Matches sealings qs := by
  induction sealings with
  | nil => exact ⟨[], by simp [split_nil], .nil⟩
  | cons s rest ih =>
    obtain ⟨q, hmatches, hread⟩ := s.exists_readPacket
    have hmore : ∀ t ∈ rest.dropLast, t.packet.isLong = true := by
      intro t ht
      cases rest with
      | nil => simp at ht
      | cons t' ts => exact hlong t (by simp [ht])
    obtain ⟨qs, hsplit, hqs⟩ := ih (fun t ht => hadmits t (List.mem_cons_of_mem s ht)) hmore
    -- a packet that is not the last has a long header, and behind the last nothing is left
    have hlast : s.packet.isLong = true ∨ (rest.flatMap fun t => t.sealed.bytes) = [] := by
      cases rest with
      | nil => exact Or.inr rfl
      | cons t ts => exact Or.inl (hlong s (by simp))
    have hfront := hread config _ (hadmits s List.mem_cons_self) hlast
    refine ⟨q :: qs, ?_, .cons hmatches hqs⟩
    rw [List.flatMap_cons, split_of_readPacket hfront, hsplit]
    rfl

/-- An Initial packet of version 1 with a token, a Handshake packet of version 2 and a 1-RTT packet
travel in one datagram, under keys of three suites. -/
theorem split_flatMap_sealed_of_three :
    ∃ (sealings : List Sealing) (qs : List ProtectedPacket),
      sealings.map Sealing.packet =
        [.initial ⟨⟨.v1, ⟨[1, 2], by decide⟩, .empty, 0, .one⟩, [9, 9, 9], [.ping]⟩,
          .handshake ⟨⟨.v2, .empty, ⟨[3], by decide⟩, 7, .two⟩, [.crypto 0 [1, 0, 0, 0]]⟩,
          .oneRtt ⟨⟨⟨[1, 2, 3, 4, 5, 6, 7, 8], by decide⟩, true, false, 300, .four⟩, [.ping]⟩]
        ∧ split {} (sealings.flatMap fun s => s.sealed.bytes) = .ok (qs.map .packet)
        ∧ List.Forall₂ Sealing.Matches sealings qs := by
  obtain ⟨s, hs⟩ := Sealing.exists_of_payloadBytes .aes128GcmSha256 .v1
    (.initial ⟨⟨.v1, ⟨[1, 2], by decide⟩, .empty, 0, .one⟩, [9, 9, 9], [.ping]⟩) [1, 0, 0]
    (by decide) rfl rfl rfl rfl (by decide)
  obtain ⟨t, ht⟩ := Sealing.exists_of_payloadBytes .aes256GcmSha384 .v2
    (.handshake ⟨⟨.v2, .empty, ⟨[3], by decide⟩, 7, .two⟩, [.crypto 0 [1, 0, 0, 0]]⟩)
    [6, 0, 4, 1, 0, 0, 0] (by decide) rfl rfl rfl rfl (by decide)
  obtain ⟨u, hu⟩ := Sealing.exists_of_payloadBytes .chaCha20Poly1305Sha256 .v1
    (.oneRtt ⟨⟨⟨[1, 2, 3, 4, 5, 6, 7, 8], by decide⟩, true, false, 300, .four⟩, [.ping]⟩) [1]
    (by decide) rfl rfl rfl rfl (by decide)
  have hadmits : ∀ x ∈ [s, t, u], Config.Admits {} x.packet := by
    simp only [List.mem_cons, List.not_mem_nil, or_false, forall_eq_or_imp, forall_eq, hs, ht, hu]
    exact ⟨⟨by decide, by decide⟩, ⟨by decide, by decide⟩, rfl⟩
  have hlong : ∀ x ∈ [s, t, u].dropLast, x.packet.isLong = true := by
    simp [hs, ht, Packet.isLong, Packet.type, PacketType.isLong]
  obtain ⟨qs, hsplit, hmatches⟩ := split_flatMap_sealed hadmits hlong
  exact ⟨[s, t, u], qs, by simp [hs, ht, hu], hsplit, hmatches⟩

end Datagram

end QuicTransport
