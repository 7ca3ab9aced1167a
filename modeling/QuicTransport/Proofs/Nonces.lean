import QuicTransport.Proofs.PacketNumberCodec
import QuicTransport.Proofs.SampleRange

set_option autoImplicit false

/-! # Nonces

Two texts under one nonce and one key betray each other, and whoever sealed them reads them back
without noticing anything. What matters is therefore what the cipher is asked and not what comes of
it. A run is a function of the cipher, and it asks for a nonce if what the cipher does under this
nonce, and under no other, makes a difference to it (`Aead.Asks`).

Sealing asks for one nonce, the one of the whole packet number. The header does not have room for
the whole number, so packets with equal headers may have different numbers; they do not share a
nonce. The reader has only what is in the header. It asks for the nonce of the number that it
recovers, and this is the nonce of the sender exactly if the number is the one of the sender. -/

namespace QuicTransport

/-! ## Byte strings -/

namespace Bytes

/-- The upper bytes of a number are those of what is left when the lower ones are cut off. -/
theorem bigEndian_add (j k n : Nat) :
    bigEndian (j + k) n = bigEndian j (n / span k) ++ bigEndian k n := by
  induction j with
  | zero => rw [Nat.zero_add, bigEndian, List.nil_append]
  | succ j ih =>
    rw [Nat.add_right_comm, bigEndian, bigEndian, ih, Nat.div_div_eq_div_mul, ← span_add,
      Nat.add_comm k j, List.cons_append]

theorem xor_zeros (bs : Bytes) : xor bs (List.replicate bs.length 0) = bs := by
  induction bs with
  | nil => rfl
  | cons b bs ih =>
    rw [List.length_cons, List.replicate_succ, xor, List.zipWith_cons_cons, UInt8.xor_zero]
    exact congrArg (b :: ·) ih

theorem xor_comm (a b : Bytes) : xor a b = xor b a :=
  List.zipWith_comm_of_comm UInt8.xor_comm

/-- What is masked with a string can be told from the string and the result. -/
theorem xor_left_cancel {mask a b : Bytes} (ha : a.length ≤ mask.length)
    (hb : b.length ≤ mask.length) (h : xor mask a = xor mask b) : a = b := by
  rw [xor_comm mask a, xor_comm mask b] at h
  rw [← xor_xor_cancel a mask ha, h, xor_xor_cancel b mask hb]

end Bytes

/-! ## What a cipher is asked -/

namespace Aead

/-- Two ciphers do the same under every nonce but one. -/
structure AgreeExcept (nonce : FixedBytes nonceLength) (a b : Aead) : Prop where
  algorithm : a.algorithm = b.algorithm
  encrypt : ∀ other ≠ nonce, a.encrypt other = b.encrypt other
  decrypt : ∀ other ≠ nonce, a.decrypt other = b.decrypt other

/-- What a cipher does under a nonce makes a difference to a run. -/
def Asks {α : Type} (run : Aead → Result α) (nonce : FixedBytes nonceLength) : Prop :=
  ∃ a b, AgreeExcept nonce a b ∧ run a ≠ run b

/-- The cipher that refuses every text, for a reason of its own under one nonce. -/
def refusing (nonce : FixedBytes nonceLength) (e : Error) : Aead :=
  let answer (other : FixedBytes nonceLength) : Result Bytes :=
    if other = nonce then .error e else .error (.crypto .authenticationFailed)
  ⟨.aes128Gcm, fun other _ _ => answer other, fun other _ _ => answer other⟩

theorem agreeExcept_refusing (nonce : FixedBytes nonceLength) (e e' : Error) :
    AgreeExcept nonce (refusing nonce e) (refusing nonce e') where
  algorithm := rfl
  encrypt other hother := by
    simp only [refusing, if_neg hother]
  decrypt other hother := by
    simp only [refusing, if_neg hother]

section

variable {α : Type} {run : Aead → Result α} {used nonce : FixedBytes nonceLength}

theorem not_asks_of_constant (h : ∀ a b, run a = run b) : ¬ Asks run nonce :=
  fun ⟨a, b, _, hdiffer⟩ => hdiffer (h a b)

/-- A run that uses a cipher under one nonce only, and does not hide what the cipher refuses, asks
for this nonce and for no other. -/
theorem asks_iff
    (hlocal : ∀ a b : Aead, a.encrypt used = b.encrypt used → a.decrypt used = b.decrypt used →
      run a = run b)
    (hrefusing : ∀ e, run (refusing used e) = .error e) : Asks run nonce ↔ nonce = used := by
  constructor
  · rintro ⟨a, b, hagree, hdiffer⟩
    by_contra hother
    have hused : used ≠ nonce := fun h => hother h.symm
    exact hdiffer (hlocal a b (hagree.encrypt used hused) (hagree.decrypt used hused))
  · rintro rfl
    -- two ciphers that refuse for different reasons can be told apart
    refine ⟨_, _, agreeExcept_refusing nonce (.malformedPacket "") (.contractViolation ""), ?_⟩
    rw [hrefusing, hrefusing]
    exact nofun

end

end Aead

/-! ## Numbers -/

/-- The first four bytes of a nonce are those of the initialisation vector. The number covers the
other eight. -/
theorem packetNonce_val (iv : FixedBytes nonceLength) {number : Nat} (h : number < UInt64.size) :
    (packetNonce iv number).val =
      iv.val.take 4 ++ Bytes.xor (iv.val.drop 4) (Bytes.bigEndian 8 number) := by
  have hhigh : number / Bytes.span 8 = 0 := Nat.div_eq_of_lt h
  have hwide : Bytes.bigEndian nonceLength number =
      List.replicate (iv.val.take 4).length 0 ++ Bytes.bigEndian 8 number := by
    have hadd := Bytes.bigEndian_add 4 8 number
    rw [hhigh] at hadd
    rw [List.length_take, iv.property]
    exact hadd
  calc (packetNonce iv number).val
      = Bytes.xor (iv.val.take 4 ++ iv.val.drop 4)
          (List.replicate (iv.val.take 4).length 0 ++ Bytes.bigEndian 8 number) := by
        rw [List.take_append_drop, ← hwide]
        rfl
    _ = Bytes.xor (iv.val.take 4) (List.replicate (iv.val.take 4).length 0)
          ++ Bytes.xor (iv.val.drop 4) (Bytes.bigEndian 8 number) :=
        List.zipWith_append List.length_replicate.symm
    _ = iv.val.take 4 ++ Bytes.xor (iv.val.drop 4) (Bytes.bigEndian 8 number) := by
        rw [Bytes.xor_zeros]

/-- A nonce has room for every number of twelve bytes. -/
theorem packetNonce_eq_iff (iv : FixedBytes nonceLength) {m n : Nat}
    (hm : m < Bytes.span nonceLength) (hn : n < Bytes.span nonceLength) :
    packetNonce iv m = packetNonce iv n ↔ m = n := by
  constructor
  · intro h
    have hlength : ∀ number, (Bytes.bigEndian nonceLength number).length ≤ iv.val.length := by
      intro number
      rw [Bytes.length_bigEndian, iv.property]
    have hbytes := Bytes.xor_left_cancel (hlength m) (hlength n) (congrArg Subtype.val h)
    rw [← Bytes.ofBigEndian_bigEndian hm, hbytes, Bytes.ofBigEndian_bigEndian hn]
  · rintro rfl
    rfl

theorem lt_span_of_lt_size {number : Nat} (h : number < UInt64.size) :
    number < Bytes.span nonceLength :=
  h.trans (by decide)

/-- A reader that has seen a number of eight bytes recovers none of more than twelve. -/
theorem PacketNumber.recover_lt_span {seen : Option Nat}
    (hseen : ∀ n, seen = some n → n < UInt64.size) (truncated : Nat) (w : Width) :
    recover seen truncated w < Bytes.span nonceLength := by
  have hnext : expected seen ≤ UInt64.size := by
    cases seen with
    | none => exact Nat.zero_le _
    | some n => exact hseen n rfl
  have hwindow : w.window ≤ Bytes.span 4 := by
    cases w <;> decide
  have hroom : UInt64.size + 2 * Bytes.span 4 < Bytes.span nonceLength := by decide
  obtain ⟨candidate, hsame, _, hcases⟩ := recover_cases seen truncated w
  have hclose : candidate < expected seen + w.window := Width.lt_add_window_of_div_eq hsame
  rcases hcases with ⟨_, _, hfound⟩ | ⟨_, _, hfound⟩ | ⟨_, _, hfound⟩ <;> omega

/-! ## Packets -/

namespace PacketKeys

/-- The same keys around another cipher. -/
def withAead (k : PacketKeys) (a : Aead) : PacketKeys := { k with aead := a }

theorem tagLength_le_of_sampleAt {bs sample : Bytes} {start : Nat}
    (h : sampleAt bs start = .ok sample) : tagLength ≤ bs.length := by
  by_contra hshort
  have hlt : bs.length < start + sampleLength := by
    unfold tagLength at hshort
    unfold sampleLength
    omega
  rw [sampleAt_of_lt hlt] at h
  cases h

/-- A writer asks for the nonce of the number that it is given. -/
theorem asks_sealBytes_iff {k : PacketKeys} {header payload : Bytes} {offset number : Nat}
    {nonce : FixedBytes nonceLength} :
    Aead.Asks (fun a => (k.withAead a).sealBytes header offset number payload) nonce ↔
      nonce = packetNonce k.iv number := by
  refine Aead.asks_iff (fun a b hencrypt _ => ?_) fun e => ?_
  · have hsame : (k.withAead a).encryptPayload number header payload =
        (k.withAead b).encryptPayload number header payload :=
      congrFun (congrFun hencrypt header) payload
    unfold sealBytes
    rw [hsame]
    rfl
  · have hrefused : (k.withAead (.refusing (packetNonce k.iv number) e)).encryptPayload number
        header payload = .error e := if_pos rfl
    unfold sealBytes
    rw [hrefused]
    rfl

/-- A reader asks for the nonce of the number that it recovers. -/
theorem asks_openBytes_iff {k : PacketKeys} {first : UInt8} {front payload : Bytes} {number : Nat}
    {w : PacketNumber.Width} {sealed : SealedPacket} {nonce : FixedBytes nonceLength}
    (hw : PacketNumber.Width.ofFirstByte first = w)
    (h : k.sealBytes (first :: front ++ PacketNumber.truncate w number) (front.length + 1) number
      payload = .ok sealed) (seen : Option Nat) :
    Aead.Asks (fun a => (k.withAead a).openBytes sealed.bytes (front.length + 1) seen) nonce ↔
      nonce = packetNonce k.iv (PacketNumber.recover seen (number % w.window) w) := by
  obtain ⟨_, _, _, hsample, _⟩ := sealBytes_eq_ok.1 h
  -- the sample alone is as long as a tag, so the reader does not stop in front of the cipher
  have htag : ¬ sealed.payload.length < tagLength :=
    Nat.not_lt_of_le (tagLength_le_of_sampleAt hsample)
  have hopen : ∀ a, (k.withAead a).openBytes sealed.bytes (front.length + 1) seen =
      (a.decrypt (packetNonce k.iv (PacketNumber.recover seen (number % w.window) w))
        (first :: front ++ PacketNumber.truncate w number) sealed.payload).map fun found =>
          ⟨first :: front ++ PacketNumber.truncate w number, found,
            PacketNumber.recover seen (number % w.window) w, w⟩ := by
    intro a
    have hmasks : (k.withAead a).headerMask = k.headerMask := rfl
    rw [openBytes_eq_of_sealBytes hmasks hw h seen, decryptPayload, if_neg htag]
    rfl
  refine Aead.asks_iff (fun a b _ hdecrypt => ?_) fun e => ?_
  · rw [hopen, hopen, hdecrypt]
  · rw [hopen]
    simp only [Aead.refusing, if_true]
    rfl

end PacketKeys

namespace Packet

/-- A packet that can be written asks for the nonce of its number and for no other. Any other packet
asks for none. -/
theorem asks_sealWith_iff (keys : PacketKeys) (p : Packet) (nonce : FixedBytes nonceLength) :
    Aead.Asks (fun a => p.sealWith (keys.withAead a)) nonce ↔
      ∃ number w payload header, p.number? = some (number, w) ∧ p.payloadBytes = .ok payload
        ∧ p.headerBytes payload.length = .ok header ∧ nonce = packetNonce keys.iv number := by
  unfold sealWith
  -- a packet that cannot be written is refused before the cipher comes in
  cases hnumber : p.number? with
  | none =>
    refine iff_of_false (Aead.not_asks_of_constant fun _ _ => rfl) ?_
    rintro ⟨_, _, _, _, ⟨⟩, _⟩
  | some found =>
    obtain ⟨number, w⟩ := found
    cases hpayload : p.payloadBytes with
    | error e =>
      refine iff_of_false (Aead.not_asks_of_constant fun _ _ => rfl) ?_
      rintro ⟨_, _, _, _, _, ⟨⟩, _⟩
    | ok payload =>
      cases hheader : p.headerBytes payload.length with
      | error e =>
        simp only [bind, Except.bind, hheader]
        refine iff_of_false (Aead.not_asks_of_constant fun _ _ => rfl) ?_
        rintro ⟨_, _, _, _, _, ⟨⟩, hwritten, _⟩
        rw [hheader] at hwritten
        cases hwritten
      | ok header =>
        obtain ⟨offset, hoffset⟩ := exists_numberOffset hnumber payload.length
        simp only [bind, Except.bind, hheader, hoffset]
        refine PacketKeys.asks_sealBytes_iff.trans ⟨fun h => ?_, ?_⟩
        · exact ⟨number, w, payload, header, rfl, rfl, hheader, h⟩
        · rintro ⟨_, _, _, _, ⟨⟩, _, _, h⟩
          exact h

/-- A reader of a sealed packet asks for the nonce of the number that it decodes. -/
theorem asks_openBytes_of_sealWith {keys : PacketKeys} {p : Packet} {sealed : SealedPacket}
    {number offset : Nat} {w : PacketNumber.Width} {payload : Bytes}
    (hseal : p.sealWith keys = .ok sealed) (hnumber : p.number? = some (number, w))
    (hpayload : p.payloadBytes = .ok payload)
    (hoffset : p.numberOffset payload.length = .ok offset) (protector : Protector)
    (seen : Option Nat) (nonce : FixedBytes nonceLength) :
    Aead.Asks (fun a => (protector.fill (keys.withAead a) .opener).openBytes sealed.bytes offset
        seen) nonce ↔
      nonce = packetNonce keys.iv (PacketNumber.recover seen (number % w.window) w) := by
  obtain ⟨_, _, _, header, _, hnumber', hpayload', hheader, hoffset', hbytes⟩ :=
    sealWith_eq_ok.1 hseal
  cases hnumber.symm.trans hnumber'
  cases hpayload.symm.trans hpayload'
  cases hoffset.symm.trans hoffset'
  obtain ⟨first, front, hlocated, rfl, rfl⟩ := exists_located hnumber hheader hoffset
  exact PacketKeys.asks_openBytes_iff (hlocated.width_eq hnumber) hbytes seen

end Packet

/-- The number of a packet covers the lower eight bytes of the initialisation vector, so no two
numbers have the same nonce. Sealing asks the cipher for the nonce of the packet's number and for no
other, however few of its bytes the header holds; so packets with different numbers ask for
different nonces. Opening asks for the nonce of the decoded number, and so for the nonce of the
sender exactly if the number that is decoded is the sender's. -/
theorem PacketKeys.nonces_apart (keys : PacketKeys) :
    let seals (p : Packet) (a : Aead) := p.sealWith (keys.withAead a)
    (∀ (iv : FixedBytes nonceLength) {m n : Nat}, m < UInt64.size → n < UInt64.size →
        (packetNonce iv m).val = iv.val.take 4 ++ Bytes.xor (iv.val.drop 4) (Bytes.bigEndian 8 m)
          ∧ (m ≠ n → packetNonce iv m ≠ packetNonce iv n))
      ∧ (∀ (p : Packet) (nonce : FixedBytes nonceLength), Aead.Asks (seals p) nonce ↔
          ∃ number w payload header, p.number? = some (number, w) ∧ p.payloadBytes = .ok payload
            ∧ p.headerBytes payload.length = .ok header ∧ nonce = packetNonce keys.iv number)
      ∧ (∀ {p q : Packet} {m n : Nat} {v w : PacketNumber.Width}, p.number? = some (m, v) →
          q.number? = some (n, w) → m < UInt64.size → n < UInt64.size → m ≠ n →
          ∀ nonce, ¬ (Aead.Asks (seals p) nonce ∧ Aead.Asks (seals q) nonce))
      ∧ ∀ {p : Packet} {sealed : SealedPacket} {number offset : Nat} {w : PacketNumber.Width}
          {payload : Bytes}, p.sealWith keys = .ok sealed → p.number? = some (number, w) →
          p.payloadBytes = .ok payload → p.numberOffset payload.length = .ok offset →
          ∀ (protector : Protector) (seen : Option Nat),
            let opens (a : Aead) :=
              (protector.fill (keys.withAead a) .opener).openBytes sealed.bytes offset seen
            (∀ nonce, Aead.Asks opens nonce ↔
              ∃ found, PacketNumber.decode seen (number % w.window) w.bits = .ok found
                ∧ nonce = packetNonce keys.iv found)
            ∧ (number < UInt64.size → (∀ n, seen = some n → n < UInt64.size) →
              (Aead.Asks opens (packetNonce keys.iv number) ↔
                PacketNumber.decode seen (number % w.window) w.bits = .ok number)) := by
  intro seals
  have hinjective : ∀ (iv : FixedBytes nonceLength) {m n : Nat}, m < UInt64.size →
      n < UInt64.size → packetNonce iv m = packetNonce iv n → m = n := fun iv _ _ hm hn =>
    (packetNonce_eq_iff iv (lt_span_of_lt_size hm) (lt_span_of_lt_size hn)).1
  refine ⟨fun iv m n hm hn => ⟨packetNonce_val iv hm, mt (hinjective iv hm hn)⟩,
    Packet.asks_sealWith_iff keys, ?_, ?_⟩
  · rintro p q m n v w hp hq hm hn hdiffer nonce ⟨hfirst, hsecond⟩
    obtain ⟨_, _, _, _, hp', _, _, rfl⟩ := (Packet.asks_sealWith_iff keys p nonce).1 hfirst
    obtain ⟨_, _, _, _, hq', _, _, hsame⟩ := (Packet.asks_sealWith_iff keys q _).1 hsecond
    cases hp.symm.trans hp'
    cases hq.symm.trans hq'
    exact hdiffer (hinjective keys.iv hm hn hsame)
  · intro p sealed number offset w payload hseal hnumber hpayload hoffset protector seen opens
    have hasks : ∀ nonce, Aead.Asks opens nonce ↔
        nonce = packetNonce keys.iv (PacketNumber.recover seen (number % w.window) w) :=
      Packet.asks_openBytes_of_sealWith hseal hnumber hpayload hoffset protector seen
    refine ⟨fun nonce => ?_, fun hsize hseen => ?_⟩
    · rw [hasks, PacketNumber.decode_bits]
      simp
    · rw [hasks, PacketNumber.decode_bits, Except.ok.injEq,
        packetNonce_eq_iff keys.iv (lt_span_of_lt_size hsize)
          (PacketNumber.recover_lt_span hseen _ w)]
      exact eq_comm

/-- The packets with the numbers 1 and 257 have the same header if one byte of the number is in it.
They do not share a nonce. A reader asks for the nonce of the second if it has seen 200, and not if
it has seen nothing. -/
theorem PacketKeys.nonces_apart_low_byte :
    let ping (number : Nat) : Packet := .oneRtt ⟨⟨.empty, false, false, number, .one⟩, [.ping]⟩
    (ping 1).headerBytes 3 = (ping 257).headerBytes 3
      ∧ ∃ (keys : PacketKeys) (sealed : SealedPacket),
        let opens (seen : Option Nat) (a : Aead) := ((Protector.empty .application .v1).fill
          (keys.withAead a) .opener).openBytes sealed.bytes 1 seen
        (ping 257).sealWith keys = .ok sealed
          ∧ (∀ nonce, ¬ (Aead.Asks (fun a => (ping 1).sealWith (keys.withAead a)) nonce
            ∧ Aead.Asks (fun a => (ping 257).sealWith (keys.withAead a)) nonce))
          ∧ Aead.Asks (opens (some 200)) (packetNonce keys.iv 257)
          ∧ ¬ Aead.Asks (opens none) (packetNonce keys.iv 257) := by
  refine ⟨rfl, ?_⟩
  obtain ⟨keys, hkeys⟩ := PacketKeys.exists_derive
    (show CipherSuite.chaCha20Poly1305Sha256.secretLength ≤
      (List.replicate 32 (7 : UInt8)).length by decide)
    (show Version.v1.isSupported = true by decide)
  have hpayload : (Packet.oneRtt ⟨⟨.empty, false, false, 257, .one⟩, [.ping]⟩).payloadBytes =
      .ok [1, 0, 0] := rfl
  have hheader : (Packet.oneRtt ⟨⟨.empty, false, false, 257, .one⟩, [.ping]⟩).headerBytes 3 =
      .ok [0x40, 1] := rfl
  obtain ⟨sealed, hseal⟩ := Packet.exists_sealWith hkeys rfl hpayload hheader rfl (by decide)
  obtain ⟨_, _, happart, hopens⟩ := PacketKeys.nonces_apart keys
  have hreads := hopens hseal rfl hpayload rfl (Protector.empty .application .v1)
  refine ⟨keys, sealed, hseal, happart rfl rfl (by decide) (by decide) (by decide), ?_, ?_⟩
  · exact ((hreads (some 200)).2 (by decide) (by rintro _ ⟨⟩; decide)).2 (by decide)
  · exact fun h => absurd (((hreads none).2 (by decide) nofun).1 h) (by decide)

end QuicTransport
