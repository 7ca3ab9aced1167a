import QuicTransport.Proofs.HeaderMasking
import QuicTransport.Proofs.PacketNumberRecovery
import QuicTransport.Protection.Protector

set_option autoImplicit false

/-! # Packet protection comes off

The keys of the sender and of the receiver are the same. What they have to agree on is where things
are: the receiver takes the sample at a place that it can compute before it knows the width of the
packet number, and the sender has to have taken it there. After that the receiver has the header as
the sender authenticated it, and the packet number that went into the nonce, and the cipher gives
the payload back.

Of the cipher only two things are needed (`Aead.Lawful`), and every cipher that keys are derived for
has them. -/

namespace QuicTransport

/-! ## Ciphers -/

namespace Aead

/-- What was encrypted is given back, and the tag is all that is added to its length. -/
structure Lawful (a : Aead) : Prop where
  decrypt_of_encrypt : ∀ {nonce : FixedBytes nonceLength} {associated plaintext received : Bytes},
    a.encrypt nonce associated plaintext = .ok received →
      a.decrypt nonce associated received = .ok plaintext
  /-- There is a tag behind the ciphertext. -/
  length_of_encrypt : ∀ {nonce : FixedBytes nonceLength} {associated plaintext received : Bytes},
    a.encrypt nonce associated plaintext = .ok received →
      received.length = plaintext.length + tagLength

/-- The tag is all that encryption adds to the length of a text. This is what a reader without keys
depends on. -/
def AppendsTag (a : Aead) : Prop :=
  ∀ {nonce : FixedBytes nonceLength} {associated plaintext received : Bytes},
    a.encrypt nonce associated plaintext = .ok received →
      received.length = plaintext.length + tagLength

theorem Lawful.appendsTag {a : Aead} (h : a.Lawful) : a.AppendsTag := h.length_of_encrypt

theorem ofStreams_encrypt_of_admits {algorithm : AeadAlgorithm} {under : Bytes → EncryptThenMac}
    {nonce : FixedBytes nonceLength} {associated plaintext : Bytes}
    (h : algorithm.admits associated.length plaintext.length = true) :
    (ofStreams algorithm under).encrypt nonce associated plaintext =
      .ok ((under nonce.val).encrypt associated plaintext) :=
  if_pos h

theorem ofStreams_encrypt_eq_ok {algorithm : AeadAlgorithm} {under : Bytes → EncryptThenMac}
    {nonce : FixedBytes nonceLength} {associated plaintext received : Bytes}
    (h : (ofStreams algorithm under).encrypt nonce associated plaintext = .ok received) :
    algorithm.admits associated.length plaintext.length = true
      ∧ (under nonce.val).encrypt associated plaintext = received := by
  unfold ofStreams at h
  dsimp only at h
  split at h
  · next hadmits =>
    injection h with h
    exact ⟨hadmits, h⟩
  · cases h

theorem lawful_ofStreams (algorithm : AeadAlgorithm) (under : Bytes → EncryptThenMac) :
    (ofStreams algorithm under).Lawful where
  decrypt_of_encrypt := by
    intro nonce associated plaintext received h
    obtain ⟨hadmits, rfl⟩ := ofStreams_encrypt_eq_ok h
    have hlength : ((under nonce.val).encrypt associated plaintext).length - tagLength =
        plaintext.length := by
      rw [EncryptThenMac.length_encrypt, Nat.add_sub_cancel]
    unfold ofStreams
    dsimp only
    rw [hlength, if_pos hadmits, EncryptThenMac.decrypt?_encrypt]
  length_of_encrypt := by
    intro nonce associated plaintext received h
    obtain ⟨_, rfl⟩ := ofStreams_encrypt_eq_ok h
    exact EncryptThenMac.length_encrypt _ _ _

theorem eq_ofStreams_of_ofKey {algorithm : AeadAlgorithm} {key : Bytes} {a : Aead}
    (h : ofKey algorithm key = .ok a) : ∃ under, a = ofStreams algorithm under := by
  unfold ofKey at h
  split at h
  · injection h with h
    exact ⟨_, h.symm⟩
  · cases h

end Aead

/-! ## Keys -/

namespace PacketKeys

theorem aead_of_derive {suite : CipherSuite} {secret : Bytes} {version : Version}
    {keys : PacketKeys} (h : derive suite secret version = .ok keys) :
    ∃ under, keys.aead = Aead.ofStreams suite.aead under := by
  obtain ⟨packetKey, _, h⟩ := Result.bind_eq_ok.1 h
  obtain ⟨aead, haead, h⟩ := Result.bind_eq_ok.1 h
  obtain ⟨headerKey, _, h⟩ := Result.bind_eq_ok.1 h
  obtain ⟨headerMask, _, h⟩ := Result.bind_eq_ok.1 h
  injection h with h
  rw [← h]
  exact Aead.eq_ofStreams_of_ofKey haead

theorem lawful_of_derive {suite : CipherSuite} {secret : Bytes} {version : Version}
    {keys : PacketKeys} (h : derive suite secret version = .ok keys) : keys.aead.Lawful := by
  obtain ⟨under, haead⟩ := aead_of_derive h
  rw [haead]
  exact Aead.lawful_ofStreams _ _

/-! ## Packets -/

/-- A sample that starts behind some bytes is a sample of what follows them. -/
theorem sampleAt_append_eq_ok {front bs sample : Bytes} {start : Nat}
    (hfront : front.length ≤ start) :
    sampleAt (front ++ bs) start = .ok sample ↔
      sampleAt bs (start - front.length) = .ok sample := by
  have hdrop : (front ++ bs).drop start = bs.drop (start - front.length) := by
    rw [List.drop_append, List.drop_of_length_le hfront, List.nil_append]
  unfold sampleAt
  rw [hdrop]
  cases Bytes.split? sampleLength (bs.drop (start - front.length)) with
  | none => exact iff_of_false nofun nofun
  | some found => exact Iff.rfl

theorem length_header (first : UInt8) (front : Bytes) (w : PacketNumber.Width) (number : Nat) :
    (first :: front ++ PacketNumber.truncate w number).length = front.length + 1 + w.bytes := by
  rw [List.length_append, PacketNumber.length_truncate]
  rfl

theorem maskFor_eq_ok {m : HeaderMask} {header sample covered : Bytes} {offset : Nat}
    (h : m.apply header offset sample = .ok covered) : ∃ mask, m.maskFor sample = .ok mask := by
  cases header with
  | nil => cases h
  | cons first rest =>
    obtain ⟨mask, hmask, _⟩ := Result.bind_eq_ok.1 h
    exact ⟨mask, hmask⟩

theorem sealBytes_eq_ok {k : PacketKeys} {header payload : Bytes} {offset number : Nat}
    {sealed : SealedPacket} :
    k.sealBytes header offset number payload = .ok sealed ↔
      ∃ sample, k.encryptPayload number header payload = .ok sealed.payload
        ∧ header.length ≤ offset + sampleOffset
        ∧ sampleAt sealed.payload (offset + sampleOffset - header.length) = .ok sample
        ∧ k.headerMask.apply header offset sample = .ok sealed.header := by
  constructor
  · intro h
    obtain ⟨ciphertext, hencrypt, h⟩ := Result.bind_eq_ok.1 h
    split at h
    · cases h
    · next hroom =>
      obtain ⟨sample, hsample, h⟩ := Result.bind_eq_ok.1 h
      obtain ⟨covered, hcovered, h⟩ := Result.bind_eq_ok.1 h
      injection h with h
      subst h
      exact ⟨sample, hencrypt, Nat.le_of_not_lt hroom, hsample, hcovered⟩
  · rintro ⟨sample, hencrypt, hroom, hsample, hcovered⟩
    unfold sealBytes
    rw [Result.bind_eq_ok]
    refine ⟨sealed.payload, hencrypt, ?_⟩
    rw [if_neg (Nat.not_lt_of_le hroom)]
    exact Result.bind_eq_ok.2 ⟨sample, hsample, Result.bind_eq_ok.2 ⟨sealed.header, hcovered, rfl⟩⟩

/-- The steps of opening, one after the other. -/
theorem openBytes_eq {k : PacketKeys} {packet sample header after : Bytes}
    {offset truncated : Nat} {seen : Option Nat} {w : PacketNumber.Width}
    (hsample : sampleAt packet (offset + sampleOffset) = .ok sample)
    (hremove : k.headerMask.remove (packet.take (offset + sampleOffset)) offset sample =
      .ok (w, header ++ after))
    (hheader : header.length = offset + w.bytes)
    (htruncated : PacketNumber.readTruncated? w (header.drop offset) = some truncated) :
    k.openBytes packet offset seen =
      (k.decryptPayload (PacketNumber.recover seen truncated w) header
        (packet.drop header.length)).map fun payload =>
          ⟨header, payload, PacketNumber.recover seen truncated w, w⟩ := by
  have htake : (header ++ after).take (offset + w.bytes) = header := by
    rw [← hheader, List.take_left]
  simp only [openBytes, hsample, hremove, bind, Except.bind, htake, htruncated]
  cases k.decryptPayload (PacketNumber.recover seen truncated w) header
    (packet.drop header.length) <;> rfl

/-- What sealing makes of a packet: the mask covers the header. -/
theorem exists_mask_of_sealBytes {k : PacketKeys} {first : UInt8} {front payload : Bytes}
    {number : Nat} {w : PacketNumber.Width} {sealed : SealedPacket}
    (hw : PacketNumber.Width.ofFirstByte first = w)
    (h : k.sealBytes (first :: front ++ PacketNumber.truncate w number) (front.length + 1) number
      payload = .ok sealed) :
    ∃ sample mask,
      k.encryptPayload number (first :: front ++ PacketNumber.truncate w number) payload =
        .ok sealed.payload
      ∧ sampleAt sealed.payload (front.length + 1 + sampleOffset
          - (first :: front ++ PacketNumber.truncate w number).length) = .ok sample
      ∧ k.headerMask.maskFor sample = .ok mask
      ∧ sealed.header = HeaderMask.coverFirst first mask :: front
        ++ Bytes.xor (PacketNumber.truncate w number) mask.number.val := by
  obtain ⟨sample, hencrypt, _, hsample, hcovered⟩ := sealBytes_eq_ok.1 h
  obtain ⟨mask, hmask⟩ := maskFor_eq_ok hcovered
  have htruncated : (PacketNumber.truncate w number).length =
      (PacketNumber.Width.ofFirstByte first).bytes := by
    rw [hw, PacketNumber.length_truncate]
  rw [HeaderMask.apply_eq front hmask htruncated] at hcovered
  injection hcovered with hheader
  exact ⟨sample, mask, hencrypt, hsample, hmask, hheader.symm⟩

/-- Keys with the header protection that a packet was sealed with uncover its header and the low
bytes of its number. The cipher gets the header and the ciphertext, and the number that the reader
recovers. -/
theorem openBytes_eq_of_sealBytes {k k' : PacketKeys} (hmasks : k'.headerMask = k.headerMask)
    {first : UInt8} {front payload : Bytes} {number : Nat} {w : PacketNumber.Width}
    {sealed : SealedPacket} (hw : PacketNumber.Width.ofFirstByte first = w)
    (h : k.sealBytes (first :: front ++ PacketNumber.truncate w number) (front.length + 1) number
      payload = .ok sealed) (seen : Option Nat) :
    k'.openBytes sealed.bytes (front.length + 1) seen =
      (k'.decryptPayload (PacketNumber.recover seen (number % w.window) w)
        (first :: front ++ PacketNumber.truncate w number) sealed.payload).map fun found =>
          ⟨first :: front ++ PacketNumber.truncate w number, found,
            PacketNumber.recover seen (number % w.window) w, w⟩ := by
  obtain ⟨_, _, hroom, _, _⟩ := sealBytes_eq_ok.1 h
  obtain ⟨sample, mask, _, hsample, hmask, hheader⟩ := exists_mask_of_sealBytes hw h
  have htruncated : (PacketNumber.truncate w number).length =
      (PacketNumber.Width.ofFirstByte first).bytes := by
    rw [hw, PacketNumber.length_truncate]
  have hlength : sealed.header.length =
      (first :: front ++ PacketNumber.truncate w number).length := by
    have hxor := HeaderMask.length_xor_number htruncated mask
    rw [hheader, List.length_append, List.length_append, hxor, htruncated]
    rfl
  -- the covered header is as long as the one that was written, so the reader's sample is the same
  rw [← hlength] at hroom hsample
  have hfound : sampleAt sealed.bytes (front.length + 1 + sampleOffset) = .ok sample :=
    (sampleAt_append_eq_ok hroom).2 hsample
  have htake : sealed.bytes.take (front.length + 1 + sampleOffset) = sealed.header
      ++ sealed.payload.take (front.length + 1 + sampleOffset - sealed.header.length) := by
    rw [SealedPacket.bytes, List.take_append, List.take_of_length_le hroom]
  have hremove := HeaderMask.remove_eq front hmask htruncated
    (sealed.payload.take (front.length + 1 + sampleOffset - sealed.header.length))
  rw [← hheader, ← htake, hw, ← hmasks] at hremove
  have hread : PacketNumber.readTruncated? w
      ((first :: front ++ PacketNumber.truncate w number).drop (front.length + 1)) =
        some (number % w.window) := by
    have hdrop : (first :: front ++ PacketNumber.truncate w number).drop (front.length + 1) =
        PacketNumber.truncate w number ++ [] := by
      rw [List.append_nil]
      exact List.drop_left
    rw [hdrop, PacketNumber.readTruncated?_truncate]
  have hrest : sealed.bytes.drop (first :: front ++ PacketNumber.truncate w number).length =
      sealed.payload := by
    rw [SealedPacket.bytes, ← hlength, List.drop_left]
  rw [openBytes_eq hfound hremove (length_header first front w number) hread, hrest]

/-- What was sealed is opened by the same keys, if the reader is where the number can be
recovered. -/
theorem openBytes_of_sealBytes {k : PacketKeys} (hk : k.aead.Lawful) {first : UInt8}
    {front payload : Bytes} {number : Nat} {w : PacketNumber.Width} {sealed : SealedPacket}
    (hw : PacketNumber.Width.ofFirstByte first = w)
    (h : k.sealBytes (first :: front ++ PacketNumber.truncate w number) (front.length + 1) number
      payload = .ok sealed) {seen : Option Nat} (hnear : PacketNumber.Near seen w number)
    (hlargest : number ≤ PacketNumber.largest) :
    k.openBytes sealed.bytes (front.length + 1) seen =
      .ok ⟨first :: front ++ PacketNumber.truncate w number, payload, number, w⟩ := by
  obtain ⟨_, hencrypt, _⟩ := sealBytes_eq_ok.1 h
  have hlength : sealed.payload.length = payload.length + tagLength :=
    hk.length_of_encrypt hencrypt
  have hnumber := PacketNumber.recover_of_near hnear hlargest
  -- with the number the nonce is known, and with the header what was authenticated
  have hdecrypt : k.decryptPayload number (first :: front ++ PacketNumber.truncate w number)
      sealed.payload = .ok payload := by
    rw [decryptPayload, if_neg (by omega)]
    exact hk.decrypt_of_encrypt hencrypt
  rw [openBytes_eq_of_sealBytes rfl hw h seen, hnumber, hdecrypt]
  rfl

/-! ## Packets that can be sealed -/

theorem length_sample {bs : Bytes} {start : Nat} (h : start + sampleLength ≤ bs.length) :
    ((bs.drop start).take sampleLength).length = sampleLength := by
  rw [List.length_take, List.length_drop]
  omega

theorem sampleAt_of_le {bs : Bytes} {start : Nat} (h : start + sampleLength ≤ bs.length) :
    sampleAt bs start = .ok ((bs.drop start).take sampleLength) := by
  have hsplit : Bytes.split? sampleLength (bs.drop start) =
      some ((bs.drop start).take sampleLength, (bs.drop start).drop sampleLength) :=
    if_pos (length_sample h)
  rw [sampleAt, hsplit]

theorem exists_sampleAt {bs : Bytes} {start : Nat} (h : start + sampleLength ≤ bs.length) :
    ∃ sample, sampleAt bs start = .ok sample ∧ sample.length = sampleLength :=
  ⟨_, sampleAt_of_le h, length_sample h⟩

/-- A payload that leaves room for the sample is sealed once it has been encrypted, and its header
keeps its length. -/
theorem exists_sealBytes_of_encryptPayload {k : PacketKeys} (hk : k.aead.AppendsTag) {first : UInt8}
    {front payload ciphertext : Bytes} {number : Nat} {w : PacketNumber.Width}
    (hw : PacketNumber.Width.ofFirstByte first = w)
    (hroom : sampleOffset ≤ w.bytes + payload.length)
    (hencrypt : k.encryptPayload number (first :: front ++ PacketNumber.truncate w number) payload =
      .ok ciphertext) :
    ∃ covered, k.sealBytes (first :: front ++ PacketNumber.truncate w number) (front.length + 1)
        number payload = .ok ⟨covered, ciphertext⟩
      ∧ covered.length = (first :: front ++ PacketNumber.truncate w number).length := by
  have hlength : ciphertext.length = payload.length + tagLength := hk hencrypt
  have hheader := length_header first front w number
  -- the tag alone makes the ciphertext long enough for a sample behind the widest number
  have hwidth := w.bytes_le
  have hroomForSample : front.length + 1 + sampleOffset
      - (first :: front ++ PacketNumber.truncate w number).length + sampleLength ≤
        ciphertext.length := by
    rw [hlength, hheader]
    unfold sampleLength tagLength
    omega
  obtain ⟨sample, hsample, hsampleLength⟩ := exists_sampleAt hroomForSample
  obtain ⟨mask, hmask⟩ := k.headerMask.exists_maskFor (Nat.le_of_eq hsampleLength.symm)
  have hnumber : (PacketNumber.truncate w number).length =
      (PacketNumber.Width.ofFirstByte first).bytes := by
    rw [hw, PacketNumber.length_truncate]
  have hend : (first :: front ++ PacketNumber.truncate w number).length ≤
      front.length + 1 + sampleOffset := by
    rw [hheader]
    unfold sampleOffset
    omega
  refine ⟨_, sealBytes_eq_ok.2 ⟨sample, hencrypt, hend, hsample,
    HeaderMask.apply_eq front hmask hnumber⟩, ?_⟩
  have hxor := HeaderMask.length_xor_number hnumber mask
  rw [List.length_append, List.length_append, hxor, hnumber]
  rfl

/-- Only the limits of the cipher stand in the way of encrypting a payload. -/
theorem exists_encryptPayload {suite : CipherSuite} {secret : Bytes} {version : Version}
    {keys : PacketKeys} (hkeys : derive suite secret version = .ok keys) {header payload : Bytes}
    (number : Nat) (hadmits : suite.aead.admits header.length payload.length = true) :
    ∃ ciphertext, keys.encryptPayload number header payload = .ok ciphertext := by
  obtain ⟨under, haead⟩ := aead_of_derive hkeys
  rw [encryptPayload, haead]
  exact ⟨_, Aead.ofStreams_encrypt_of_admits hadmits⟩

/-- Only the limits of the cipher stand in the way of sealing a payload that leaves room for
the sample. -/
theorem exists_sealBytes {suite : CipherSuite} {secret : Bytes} {version : Version}
    {keys : PacketKeys} (hkeys : derive suite secret version = .ok keys) {first : UInt8}
    {front payload : Bytes} {number : Nat} {w : PacketNumber.Width}
    (hw : PacketNumber.Width.ofFirstByte first = w)
    (hroom : sampleOffset ≤ w.bytes + payload.length)
    (hadmits : suite.aead.admits (first :: front ++ PacketNumber.truncate w number).length
      payload.length = true) :
    ∃ sealed, keys.sealBytes (first :: front ++ PacketNumber.truncate w number) (front.length + 1)
      number payload = .ok sealed := by
  obtain ⟨ciphertext, hencrypt⟩ := exists_encryptPayload hkeys number hadmits
  have hk : keys.aead.AppendsTag := (lawful_of_derive hkeys).appendsTag
  obtain ⟨covered, hseal, _⟩ := exists_sealBytes_of_encryptPayload hk hw hroom hencrypt
  exact ⟨_, hseal⟩

end PacketKeys

end QuicTransport
