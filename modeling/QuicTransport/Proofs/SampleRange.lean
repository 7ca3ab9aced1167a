import QuicTransport.Proofs.MaskedHeaders
import QuicTransport.Proofs.SealedPackets

set_option autoImplicit false

/-! # The sample is where it is looked for

The sample for header protection starts four bytes behind the start of the packet number, whatever
the width of the number. The writer counts this place from the ciphertext and the reader from the
packet. The padding of a payload and the tag behind it are made so that the sample is always there:
a packet that can be written is sealed unless the cipher fails
(`Packet.sealWith_of_encryptPayload`).

A reader has bytes from anywhere. If they end before the sample does, it says so. Otherwise
everything else is in its place, with a whole tag behind the header, and only the cipher may still
refuse (`PacketKeys.openBytes_of_le`). `PacketKeys.openSliced?` opens with slices that may be out of
range, and none ever is (`PacketKeys.openSliced?_eq`). -/

namespace QuicTransport

/-! ## Ciphers that only refuse what does not authenticate -/

/-- Whatever is received, decryption has one reason to fail. -/
def Aead.OnlyAuthenticates (a : Aead) : Prop :=
  ∀ {nonce : FixedBytes nonceLength} {associated received : Bytes} {e : Error},
    a.decrypt nonce associated received = .error e → e = .crypto .authenticationFailed

theorem Aead.onlyAuthenticates_ofStreams (algorithm : AeadAlgorithm)
    (under : Bytes → EncryptThenMac) : (Aead.ofStreams algorithm under).OnlyAuthenticates := by
  intro nonce associated received e h
  unfold Aead.ofStreams at h
  dsimp only at h
  split at h
  · split at h <;> simp_all
  · simp_all

namespace HeaderMask

/-- Taking off a mask changes no length, wherever the packet number is taken to be. -/
theorem length_of_remove {m : HeaderMask} {header bare sample : Bytes} {offset : Nat}
    {width : PacketNumber.Width} (h : m.remove header offset sample = .ok (width, bare)) :
    bare.length = header.length := by
  cases header with
  | nil => cases h
  | cons first rest =>
    obtain ⟨mask, hmask, h⟩ := Result.bind_eq_ok.1 h
    obtain ⟨covered, hcover, h⟩ := Result.bind_eq_ok.1 h
    injection h with h
    injection h with _ hbare
    obtain ⟨front, number, after, hheader, _, hnumber, rfl⟩ := coverNumber_eq_ok hcover
    have hxor := length_xor_number hnumber mask
    rw [← hbare, hheader, List.length_modifyHead]
    simp [hxor, hnumber]

/-- A header with room for the widest packet number can be uncovered. -/
theorem exists_remove (m : HeaderMask) {header sample : Bytes} {offset : Nat}
    (hsample : sampleLength ≤ sample.length) (hroom : offset + 4 ≤ header.length) :
    ∃ width bare, m.remove header offset sample = .ok (width, bare) := by
  cases h : m.remove header offset sample with
  | ok found => exact ⟨found.1, found.2, rfl⟩
  | error e =>
    cases remove_eq_error.1 h with
    | emptyHeader hempty => simp [hempty] at hroom
    | shortSample _ hshort => omega
    | @shortHeader _ mask hmask hshort =>
      have hwidest := (PacketNumber.Width.ofFirstByte (coverFirst (header.headD 0) mask)).bytes_le
      omega

end HeaderMask

namespace PacketKeys

theorem onlyAuthenticates_of_derive {suite : CipherSuite} {secret : Bytes} {version : Version}
    {keys : PacketKeys} (h : derive suite secret version = .ok keys) :
    keys.aead.OnlyAuthenticates := by
  obtain ⟨under, haead⟩ := aead_of_derive h
  rw [haead]
  exact Aead.onlyAuthenticates_ofStreams _ _

theorem sampleAt_of_lt {bs : Bytes} {start : Nat} (h : bs.length < start + sampleLength) :
    sampleAt bs start = .error (.crypto (.sampleTooShort (start + sampleLength) bs.length)) := by
  have hnone : Bytes.split? sampleLength (bs.drop start) = none := by
    rw [Bytes.split?_eq_none_iff, List.length_drop]
    unfold sampleLength at h ⊢
    omega
  rw [sampleAt, hnone]

/-! ## Opening -/

variable {k : PacketKeys} {packet : Bytes} {offset : Nat} {seen : Option Nat}

/-- With the sample there, the header in front of it can be uncovered, and the packet number is all
there. -/
theorem exists_parts (k : PacketKeys) (h : offset + 20 ≤ packet.length) :
    ∃ width bare truncated,
      k.headerMask.remove (packet.take (offset + sampleOffset)) offset
          ((packet.drop (offset + sampleOffset)).take sampleLength) = .ok (width, bare)
        ∧ bare.length = offset + sampleOffset
        ∧ PacketNumber.readTruncated? width ((bare.take (offset + width.bytes)).drop offset) =
          some truncated := by
  have hsample : ((packet.drop (offset + sampleOffset)).take sampleLength).length =
      sampleLength := length_sample h
  have hfront : (packet.take (offset + sampleOffset)).length = offset + sampleOffset := by
    rw [List.length_take]
    unfold sampleOffset
    omega
  obtain ⟨width, bare, hremove⟩ :=
    k.headerMask.exists_remove (Nat.le_of_eq hsample.symm) (Nat.le_of_eq hfront.symm)
  have hbare : bare.length = offset + sampleOffset :=
    (HeaderMask.length_of_remove hremove).trans hfront
  have hnumber : ((bare.take (offset + width.bytes)).drop offset).length = width.bytes := by
    have hwidth := width.bytes_le
    rw [List.length_drop, List.length_take, hbare]
    unfold sampleOffset
    omega
  have hsplit := Bytes.split?_append ((bare.take (offset + width.bytes)).drop offset) []
  rw [hnumber, List.append_nil] at hsplit
  refine ⟨width, bare, Bytes.ofBigEndian ((bare.take (offset + width.bytes)).drop offset), hremove,
    hbare, ?_⟩
  rw [PacketNumber.readTruncated?, hsplit]
  rfl

theorem openBytes_of_lt (k : PacketKeys) (h : packet.length < offset + 20) (seen : Option Nat) :
    k.openBytes packet offset seen =
      .error (.crypto (.sampleTooShort (offset + 20) packet.length)) := by
  have hsample : sampleAt packet (offset + sampleOffset) =
      .error (.crypto (.sampleTooShort (offset + 20) packet.length)) := sampleAt_of_lt h
  rw [openBytes, hsample]
  rfl

/-- A packet that reaches to the end of the sample has a header and, behind it, a tag or more. The
cipher decides the rest. -/
theorem openBytes_of_le (k : PacketKeys) (h : offset + 20 ≤ packet.length) (seen : Option Nat) :
    ∃ width header truncated, header.length = offset + width.bytes
      ∧ tagLength ≤ (packet.drop header.length).length
      ∧ PacketNumber.readTruncated? width (header.drop offset) = some truncated
      ∧ k.openBytes packet offset seen =
        (k.aead.decrypt (packetNonce k.iv (PacketNumber.recover seen truncated width)) header
            (packet.drop header.length)).map fun payload =>
          ⟨header, payload, PacketNumber.recover seen truncated width, width⟩ := by
  obtain ⟨width, bare, truncated, hremove, hbare, hread⟩ := k.exists_parts h
  have hwidth := width.bytes_le
  have hheader : (bare.take (offset + width.bytes)).length = offset + width.bytes := by
    rw [List.length_take, hbare]
    unfold sampleOffset
    omega
  have htag : tagLength ≤ (packet.drop (bare.take (offset + width.bytes)).length).length := by
    rw [hheader, List.length_drop]
    unfold tagLength
    omega
  refine ⟨width, bare.take (offset + width.bytes), truncated, hheader, htag, hread, ?_⟩
  have hsample : sampleAt packet (offset + sampleOffset) =
      .ok ((packet.drop (offset + sampleOffset)).take sampleLength) := sampleAt_of_le h
  rw [openBytes, hsample]
  simp only [bind, Except.bind, hremove, hread, decryptPayload, if_neg (Nat.not_lt.2 htag)]
  cases k.aead.decrypt _ _ _ <;> rfl

theorem eq_of_openBytes_eq_error (hk : k.aead.OnlyAuthenticates) (h : offset + 20 ≤ packet.length)
    {e : Error} (hopen : k.openBytes packet offset seen = .error e) :
    e = .crypto .authenticationFailed := by
  obtain ⟨width, header, truncated, _, _, _, hdecrypt⟩ := k.openBytes_of_le h seen
  rw [hdecrypt] at hopen
  cases hresult : k.aead.decrypt (packetNonce k.iv (PacketNumber.recover seen truncated width))
      header (packet.drop header.length) with
  | ok payload =>
    rw [hresult] at hopen
    cases hopen
  | error e' =>
    rw [hresult] at hopen
    cases hopen
    exact hk hresult

/-! ## Slices -/

/-- The bytes from `start` up to `stop`; `none` if they are not all there. -/
def slice? (bs : Bytes) (start stop : Nat) : Option Bytes :=
  if start ≤ stop ∧ stop ≤ bs.length then some ((bs.drop start).take (stop - start)) else none

theorem slice?_of_le {bs : Bytes} {start stop : Nat} (hstart : start ≤ stop)
    (hstop : stop ≤ bs.length) :
    slice? bs start stop = some ((bs.drop start).take (stop - start)) :=
  if_pos ⟨hstart, hstop⟩

theorem slice?_to_end {bs : Bytes} {start : Nat} (hstart : start ≤ bs.length) :
    slice? bs start bs.length = some (bs.drop start) := by
  rw [slice?_of_le hstart (Nat.le_refl _), List.take_of_length_le (by rw [List.length_drop])]

/-- Take the protection off a packet, with slices that may be out of range. There is no answer if
one of them is. Only the sample is asked for with care. -/
def openSliced? (k : PacketKeys) (packet : Bytes) (offset : Nat) (seen : Option Nat) :
    Option (Result OpenedPacket) :=
  match slice? packet (offset + sampleOffset) (offset + sampleOffset + sampleLength) with
  | none =>
    some (.error (.crypto
      (.sampleTooShort (offset + sampleOffset + sampleLength) packet.length)))
  | some sample => do
    let front ← slice? packet 0 (offset + sampleOffset)
    match k.headerMask.remove front offset sample with
    | .error e => return .error e
    | .ok (width, bare) =>
      let header := bare.take (offset + width.bytes)
      let numberBytes ← slice? header offset header.length
      match PacketNumber.readTruncated? width numberBytes with
      | none => return .error (.malformedPacket "truncated packet number")
      | some truncated =>
        let number := PacketNumber.recover seen truncated width
        let received ← slice? packet header.length packet.length
        return (k.decryptPayload number header received).map fun payload =>
          ⟨header, payload, number, width⟩

/-- No slice is out of range. -/
theorem openSliced?_eq (k : PacketKeys) (packet : Bytes) (offset : Nat) (seen : Option Nat) :
    k.openSliced? packet offset seen = some (k.openBytes packet offset seen) := by
  rcases Nat.lt_or_ge packet.length (offset + 20) with hshort | hlong
  · have hnone : slice? packet (offset + sampleOffset) (offset + sampleOffset + sampleLength) =
        none := by
      rw [slice?, if_neg]
      unfold sampleOffset sampleLength
      omega
    rw [openBytes_of_lt k hshort, openSliced?, hnone]
    rfl
  · obtain ⟨width, bare, truncated, hremove, hbare, hread⟩ := k.exists_parts hlong
    have hwidth := width.bytes_le
    have hsampled : offset + sampleOffset + sampleLength ≤ packet.length := hlong
    have hsample : slice? packet (offset + sampleOffset) (offset + sampleOffset + sampleLength) =
        some ((packet.drop (offset + sampleOffset)).take sampleLength) := by
      rw [slice?_of_le (Nat.le_add_right _ _) hsampled, Nat.add_sub_cancel_left]
    have hfront : slice? packet 0 (offset + sampleOffset) =
        some (packet.take (offset + sampleOffset)) := by
      rw [slice?_of_le (Nat.zero_le _) (by omega), List.drop_zero, Nat.sub_zero]
    have hheader : (bare.take (offset + width.bytes)).length = offset + width.bytes := by
      rw [List.length_take, hbare]
      unfold sampleOffset
      omega
    have hbehind : offset ≤ (bare.take (offset + width.bytes)).length := by omega
    have hinside : (bare.take (offset + width.bytes)).length ≤ packet.length := by omega
    have hnumber := slice?_to_end hbehind
    have hreceived := slice?_to_end hinside
    rw [openSliced?, hsample, openBytes, sampleAt_of_le hsampled]
    simp only [bind, Option.bind, Except.bind, hfront, hremove, hnumber, hread, hreceived]
    cases k.decryptPayload _ _ _ <;> rfl

end PacketKeys

namespace Packet

/-! ## Sealing -/

variable {keys : PacketKeys} {p : Packet} {number : Nat} {w : PacketNumber.Width}
  {payload header : Bytes}

theorem exists_numberOffset (hnumber : p.number? = some (number, w)) (payloadLength : Nat) :
    ∃ offset, p.numberOffset payloadLength = .ok offset := by
  cases p with
  | versionNegotiation q => cases hnumber
  | _ => exact ⟨_, rfl⟩

/-- Nothing but the cipher keeps a packet that can be written from being sealed. -/
theorem sealWith_eq_error_iff (hkeys : keys.aead.AppendsTag)
    (hnumber : p.number? = some (number, w)) (hpayload : p.payloadBytes = .ok payload)
    (hheader : p.headerBytes payload.length = .ok header) {e : Error} :
    p.sealWith keys = .error e ↔ keys.encryptPayload number header payload = .error e := by
  obtain ⟨offset, hoffset⟩ := exists_numberOffset hnumber payload.length
  cases hencrypt : keys.encryptPayload number header payload with
  | ok ciphertext =>
    obtain ⟨covered, hseal, _⟩ :=
      sealWith_of_encryptPayload hkeys hnumber hpayload hheader hoffset hencrypt
    simp [hseal]
  | error e' =>
    have hseal : p.sealWith keys = .error e' := by
      simp only [sealWith, hnumber, hpayload, hheader, hoffset, PacketKeys.sealBytes, hencrypt,
        bind, Except.bind]
    simp [hseal]

end Packet

/-! ## Both directions -/

/-- A packet that can be written is sealed whenever its payload is encrypted, and the packet has the
length of its header, its payload and a tag. What a reader gets may be too short for the sample. If
it is not, every slice is in range, the cipher gets a tag or more behind a header that ends with the
packet number, and only what does not authenticate is refused. -/
theorem seal_and_open_in_range :
    (∀ {keys : PacketKeys} {p : Packet} {number : Nat} {w : PacketNumber.Width}
        {payload header : Bytes}, keys.aead.AppendsTag → p.number? = some (number, w) →
        p.payloadBytes = .ok payload → p.headerBytes payload.length = .ok header →
          (∀ ciphertext, keys.encryptPayload number header payload = .ok ciphertext →
            ∃ sealed, p.sealWith keys = .ok sealed ∧ sealed.payload = ciphertext
              ∧ sealed.bytes.length = header.length + payload.length + 16)
          ∧ ∀ e, p.sealWith keys = .error e ↔
            keys.encryptPayload number header payload = .error e)
      ∧ ∀ {protector : Protector} {keys : PacketKeys}, protector.opener = some keys →
        keys.aead.OnlyAuthenticates → ∀ (packet : Bytes) (offset : Nat) (seen : Option Nat),
          ((∃ needed available, protector.openBytes packet offset seen =
              .error (.crypto (.sampleTooShort needed available)))
            ↔ packet.length < offset + 20)
          ∧ keys.openSliced? packet offset seen = some (protector.openBytes packet offset seen)
          ∧ (offset + 20 ≤ packet.length →
            (∃ width header number, header.length = offset + width.bytes
              ∧ 16 ≤ (packet.drop header.length).length
              ∧ protector.openBytes packet offset seen =
                (keys.aead.decrypt (packetNonce keys.iv number) header
                  (packet.drop header.length)).map fun payload => ⟨header, payload, number, width⟩)
            ∧ ∀ e, protector.openBytes packet offset seen = .error e →
              e = .crypto .authenticationFailed) := by
  refine ⟨?_, ?_⟩
  · intro keys p number w payload header hkeys hnumber hpayload hheader
    refine ⟨?_, fun e => Packet.sealWith_eq_error_iff hkeys hnumber hpayload hheader⟩
    intro ciphertext hencrypt
    obtain ⟨offset, hoffset⟩ := Packet.exists_numberOffset hnumber payload.length
    obtain ⟨covered, hseal, hcovered⟩ :=
      Packet.sealWith_of_encryptPayload hkeys hnumber hpayload hheader hoffset hencrypt
    have hlength : ciphertext.length = payload.length + tagLength := hkeys hencrypt
    refine ⟨⟨covered, ciphertext⟩, hseal, rfl, ?_⟩
    rw [SealedPacket.bytes, List.length_append, hcovered, hlength, Nat.add_assoc]
    rfl
  · intro protector keys hopener hkeys packet offset seen
    have hopen : protector.openBytes packet offset seen = keys.openBytes packet offset seen := by
      rw [Protector.openBytes, Protector.keys, Protector.slot, hopener]
      rfl
    rw [hopen]
    refine ⟨?_, keys.openSliced?_eq packet offset seen, ?_⟩
    · constructor
      · rintro ⟨needed, available, hshort⟩
        by_contra hlong
        cases PacketKeys.eq_of_openBytes_eq_error hkeys (Nat.le_of_not_lt hlong) hshort
      · intro hshort
        exact ⟨_, _, keys.openBytes_of_lt hshort seen⟩
    · intro hlong
      obtain ⟨width, header, truncated, hheader, htag, _, hdecrypt⟩ :=
        keys.openBytes_of_le hlong seen
      refine ⟨⟨width, header, _, hheader, htag, hdecrypt⟩, fun e he => ?_⟩
      exact PacketKeys.eq_of_openBytes_eq_error hkeys hlong he

/-- A PING behind a packet number of one byte gets as much padding as the sample needs, and the
packet ends where the sample ends. With one byte less it is too short, and with other bytes it may
be refused, but only for what they are. -/
theorem seal_and_open_in_range_ping :
    ∃ (keys : PacketKeys) (sealed : SealedPacket),
      PacketKeys.derive .aes128GcmSha256 (List.replicate 32 7) .v1 = .ok keys
      ∧ (Packet.oneRtt ⟨⟨.empty, false, false, 1, .one⟩, [.ping]⟩).sealWith keys = .ok sealed
      ∧ sealed.bytes.length = 21
      ∧ (∃ needed available,
        Protector.openBytes { epoch := .application, version := .v1, opener := some keys }
          (List.replicate 20 0) 1 none = .error (.crypto (.sampleTooShort needed available)))
      ∧ ∀ e, Protector.openBytes { epoch := .application, version := .v1, opener := some keys }
          (List.replicate 21 0) 1 none = .error e → e = .crypto .authenticationFailed := by
  have hdigest : CipherSuite.aes128GcmSha256.secretLength ≤
      (List.replicate 32 (7 : UInt8)).length := by decide
  obtain ⟨keys, hkeys⟩ := PacketKeys.exists_derive hdigest
    (show Version.v1.isSupported = true by decide)
  have hpayload : (Packet.oneRtt ⟨⟨.empty, false, false, 1, .one⟩, [.ping]⟩).payloadBytes =
      .ok [1, 0, 0] := rfl
  have hheader : (Packet.oneRtt ⟨⟨.empty, false, false, 1, .one⟩, [.ping]⟩).headerBytes 3 =
      .ok [0x40, 1] := rfl
  obtain ⟨ciphertext, hencrypt⟩ :
      ∃ ciphertext, keys.encryptPayload 1 [0x40, 1] [1, 0, 0] = .ok ciphertext :=
    PacketKeys.exists_encryptPayload hkeys 1 (by decide)
  obtain ⟨hseals, _⟩ := seal_and_open_in_range.1 (PacketKeys.lawful_of_derive hkeys).appendsTag rfl
    hpayload hheader
  obtain ⟨sealed, hseal, _, hlength⟩ := hseals ciphertext hencrypt
  let protector : Protector := { epoch := .application, version := .v1, opener := some keys }
  have hopener : protector.opener = some keys := rfl
  have hopens :=
    seal_and_open_in_range.2 hopener (PacketKeys.onlyAuthenticates_of_derive hkeys)
  refine ⟨keys, sealed, hkeys, hseal, hlength, ?_, ?_⟩
  · exact (hopens (List.replicate 20 0) 1 none).1.2 (by decide)
  · exact ((hopens (List.replicate 21 0) 1 none).2.2 (by decide)).2

end QuicTransport
