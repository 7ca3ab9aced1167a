import QuicTransport.Proofs.KeyDerivation
import QuicTransport.Proofs.PacketProtection

set_option autoImplicit false

/-! # What is opened was sealed

Opening takes any bytes, and whoever sends them may have made them up. What it accepts is still
nothing else than what sealing makes: the keys turn the opened header, number and payload into the
very bytes that were received. So there is only one way to protect a packet under given keys, and
nobody can change the bytes of a packet without changing what it opens to.

The receiver works with what it has uncovered itself: the width of the packet number tells where
the header ends, and the header and the number decide whether the payload authenticates. The sender
starts from these results, and has to find the same sample and the same mask again. The first byte
is enough for that, since the width in it gives the place of the packet number back
(`HeaderMask.remove_eq_ok`). -/

namespace QuicTransport

/-! ## Ciphers -/

namespace Aead

/-- What is decrypted encrypts to what was received. This is all that is needed of a cipher here. -/
def Canonical (a : Aead) : Prop :=
  ∀ {nonce : FixedBytes nonceLength} {associated received plaintext : Bytes},
    a.decrypt nonce associated received = .ok plaintext →
      a.encrypt nonce associated plaintext = .ok received

theorem canonical_ofStreams (algorithm : AeadAlgorithm) (under : Bytes → EncryptThenMac) :
    (ofStreams algorithm under).Canonical := by
  intro nonce associated received plaintext h
  unfold ofStreams at h
  dsimp only at h
  split at h
  · next hadmits =>
    split at h
    · next found hfound =>
      injection h with h
      subst h
      have hencrypt := EncryptThenMac.encrypt_of_decrypt? hfound
      have hlength : found.length = received.length - tagLength := by
        rw [← hencrypt, EncryptThenMac.length_encrypt, Nat.add_sub_cancel]
      rw [ofStreams_encrypt_of_admits (hlength ▸ hadmits), hencrypt]
    · cases h
  · cases h

end Aead

theorem PacketKeys.canonical_of_derive {suite : CipherSuite} {secret : Bytes} {version : Version}
    {keys : PacketKeys} (h : derive suite secret version = .ok keys) : keys.aead.Canonical := by
  obtain ⟨under, haead⟩ := aead_of_derive h
  rw [haead]
  exact Aead.canonical_ofStreams _ _

/-! ## Packets -/

namespace PacketKeys

variable {k : PacketKeys} {packet : Bytes} {offset : Nat} {seen : Option Nat}
  {opened : OpenedPacket}

/-- What opening finds in a packet: the mask over a header that ends with its packet number, and a
ciphertext behind it that holds the sample. -/
theorem exists_mask_of_openBytes (hoffset : 1 ≤ offset)
    (h : k.openBytes packet offset seen = .ok opened) :
    ∃ sample mask first front number ciphertext, offset = front.length + 1
      ∧ number.length = (PacketNumber.Width.ofFirstByte first).bytes
      ∧ opened.header = first :: front ++ number
      ∧ packet = HeaderMask.coverFirst first mask :: front
        ++ Bytes.xor number mask.number.val ++ ciphertext
      ∧ k.headerMask.maskFor sample = .ok mask
      ∧ opened.header.length ≤ offset + sampleOffset
      ∧ sampleAt ciphertext (offset + sampleOffset - opened.header.length) = .ok sample
      ∧ k.decryptPayload opened.packetNumber opened.header ciphertext = .ok opened.payload := by
  obtain ⟨sample, hsample, h⟩ := Result.bind_eq_ok.1 h
  obtain ⟨⟨width, bare⟩, hremove, h⟩ := Result.bind_eq_ok.1 h
  dsimp only at h
  split at h
  · cases h
  · obtain ⟨payload, hdecrypt, h⟩ := Result.bind_eq_ok.1 h
    injection h with h
    subst h
    obtain ⟨first, front, number, after, mask, hmask, rfl, rfl, hnumber, rfl, hfront⟩ :=
      HeaderMask.remove_eq_ok hoffset hremove
    have hlength : (first :: front ++ number).length =
        front.length + 1 + (PacketNumber.Width.ofFirstByte first).bytes := by
      rw [List.length_append, List.length_cons, hnumber]
    rw [← hlength, List.take_left] at hdecrypt ⊢
    dsimp only
    -- the covered header is as long as the one underneath, and what is left is the ciphertext
    have hcovered : (HeaderMask.coverFirst first mask :: front
        ++ Bytes.xor number mask.number.val).length = (first :: front ++ number).length := by
      rw [List.length_append, List.length_append, HeaderMask.length_xor_number hnumber mask,
        hnumber]
      rfl
    obtain ⟨ciphertext, rfl⟩ : ∃ ciphertext, packet = HeaderMask.coverFirst first mask :: front
        ++ Bytes.xor number mask.number.val ++ ciphertext := by
      refine ⟨after ++ packet.drop (front.length + 1 + sampleOffset), ?_⟩
      rw [← List.append_assoc, ← hfront, List.take_append_drop]
    have hroom : (first :: front ++ number).length ≤ front.length + 1 + sampleOffset := by
      have hle := (PacketNumber.Width.ofFirstByte first).bytes_le
      rw [hlength]
      unfold sampleOffset
      omega
    rw [← hcovered] at hroom
    rw [sampleAt_append_eq_ok hroom] at hsample
    rw [← hcovered, List.drop_left] at hdecrypt
    rw [hcovered] at hroom hsample
    exact ⟨sample, mask, first, front, number, ciphertext, rfl, hnumber, rfl, rfl, hmask, hroom,
      hsample, hdecrypt⟩

theorem encryptPayload_of_decryptPayload (hk : k.aead.Canonical) {number : Nat}
    {header received payload : Bytes} (h : k.decryptPayload number header received = .ok payload) :
    k.encryptPayload number header payload = .ok received := by
  unfold decryptPayload at h
  split at h
  · cases h
  · exact hk h

/-- A packet that opens is sealed from what it opens to. -/
theorem exists_sealBytes_of_openBytes (hk : k.aead.Canonical) (hoffset : 1 ≤ offset)
    (h : k.openBytes packet offset seen = .ok opened) :
    ∃ sealed, k.sealBytes opened.header offset opened.packetNumber opened.payload = .ok sealed
      ∧ sealed.bytes = packet := by
  obtain ⟨sample, mask, first, front, number, ciphertext, rfl, hnumber, hheader, hpacket, hmask,
    hroom, hsample, hdecrypt⟩ := exists_mask_of_openBytes hoffset h
  have happly := HeaderMask.apply_eq front hmask hnumber
  rw [← hheader] at happly
  exact ⟨⟨_, ciphertext⟩, sealBytes_eq_ok.2
    ⟨sample, encryptPayload_of_decryptPayload hk hdecrypt, hroom, hsample, happly⟩, hpacket.symm⟩

/-- An opened header ends with the packet number, whose width it tells. So it tells where the number
starts. -/
theorem offset_of_openBytes (hoffset : 1 ≤ offset)
    (h : k.openBytes packet offset seen = .ok opened) :
    offset = opened.header.length
      - (PacketNumber.Width.ofFirstByte (opened.header.headD 0)).bytes := by
  obtain ⟨_, _, first, front, number, _, rfl, hnumber, hheader, _⟩ :=
    exists_mask_of_openBytes hoffset h
  rw [hheader, List.length_append, hnumber]
  exact (Nat.add_sub_cancel _ _).symm

end PacketKeys

/-- Sealing inverts opening on every packet that opens, whatever its bytes and wherever its packet
number is said to start. So no two packets open to the same header, number and payload. The keys
need a cipher that is canonical, and all keys that are derived from a secret have one. -/
theorem PacketKeys.sealBytes_of_openBytes :
    (∀ {suite : CipherSuite} {secret : Bytes} {version : Version} {keys : PacketKeys},
      PacketKeys.derive suite secret version = .ok keys → keys.aead.Canonical)
    ∧ ∀ {keys : PacketKeys}, keys.aead.Canonical →
      ∀ {protector : Protector}, protector.opener = some keys →
      ∀ {packet : Bytes} {offset : Nat} {seen : Option Nat} {opened : OpenedPacket}, 1 ≤ offset →
        protector.openBytes packet offset seen = .ok opened →
        (∃ sealed, keys.sealBytes opened.header offset opened.packetNumber opened.payload =
            .ok sealed
          ∧ sealed.bytes = packet)
        ∧ ∀ {packet' : Bytes} {offset' : Nat} {seen' : Option Nat} {opened' : OpenedPacket},
          1 ≤ offset' → protector.openBytes packet' offset' seen' = .ok opened' →
          opened'.header = opened.header → opened'.packetNumber = opened.packetNumber →
          opened'.payload = opened.payload → packet' = packet := by
  refine ⟨canonical_of_derive, ?_⟩
  intro keys hkeys protector hopener packet offset seen opened hoffset hopen
  have hprotector : ∀ packet offset seen, protector.openBytes packet offset seen =
      keys.openBytes packet offset seen := by
    intro packet offset seen
    simp only [Protector.openBytes, Protector.keys, Protector.slot, hopener]
    rfl
  rw [hprotector] at hopen
  obtain ⟨sealed, hseal, hbytes⟩ := exists_sealBytes_of_openBytes hkeys hoffset hopen
  refine ⟨⟨sealed, hseal, hbytes⟩, ?_⟩
  intro packet' offset' seen' opened' hoffset' hopen' hheader hnumber hpayload
  rw [hprotector] at hopen'
  obtain ⟨sealed', hseal', hbytes'⟩ := exists_sealBytes_of_openBytes hkeys hoffset' hopen'
  have hplace : offset' = offset := by
    rw [offset_of_openBytes hoffset' hopen', hheader, ← offset_of_openBytes hoffset hopen]
  rw [hheader, hnumber, hpayload, hplace, hseal] at hseal'
  injection hseal' with hsame
  rw [← hbytes', ← hsame, hbytes]

/-- A 1-RTT packet with the number 300 is opened by a reader who has seen 298, and sealed
again. -/
theorem PacketKeys.sealBytes_of_openBytes_short :
    ∃ (keys : PacketKeys) (protector : Protector) (packet : Bytes) (sealed : SealedPacket),
      (Protector.empty .application .v1).install .chaCha20Poly1305Sha256 (List.replicate 32 7)
          .server .client = .ok protector
        ∧ protector.openBytes packet 3 (some 298) =
          .ok ⟨[0x40, 1, 2, 44], [1, 0, 0], 300, .one⟩
        ∧ keys.sealBytes [0x40, 1, 2, 44] 3 300 [1, 0, 0] = .ok sealed
        ∧ sealed.bytes = packet := by
  obtain ⟨keys, hkeys⟩ := PacketKeys.exists_derive
    (show CipherSuite.chaCha20Poly1305Sha256.secretLength ≤
      (List.replicate 32 (7 : UInt8)).length by decide)
    (show Version.v1.isSupported = true by decide)
  let protector := (Protector.empty .application .v1).fill keys (.ofAuthor .server .client)
  have hinstall : (Protector.empty .application .v1).install .chaCha20Poly1305Sha256
      (List.replicate 32 7) .server .client = .ok protector :=
    Protector.install_of_derive rfl hkeys
  have hopener : protector.opener = some keys := rfl
  obtain ⟨sealed, hseal⟩ :=
    @exists_sealBytes _ _ _ keys hkeys 0x40 [1, 2] [1, 0, 0] 300 .one rfl (by decide) (by decide)
  have hnear : PacketNumber.Near (some 298) .one 300 := ⟨by decide, by decide⟩
  have hopen : protector.openBytes sealed.bytes 3 (some 298) =
      .ok ⟨[0x40, 1, 2, 44], [1, 0, 0], 300, .one⟩ :=
    openBytes_of_sealBytes (lawful_of_derive hkeys) rfl hseal hnear (by decide)
  obtain ⟨again, hagain, hbytes⟩ := (sealBytes_of_openBytes.2 (sealBytes_of_openBytes.1 hkeys)
    hopener (by decide) hopen).1
  exact ⟨keys, protector, sealed.bytes, again, hinstall, hopen, hagain, hbytes⟩

end QuicTransport
