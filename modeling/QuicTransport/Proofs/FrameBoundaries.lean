import QuicTransport.Proofs.FrameAcceptance

set_option autoImplicit false

/-! # Where a frame ends

Which frames are read, and what that says about the bytes around them. A frame other than padding is
read exactly if its fields are at the front and the wire can carry it, and a frame without an end of
its own takes all that is left (`decode_eq_ok_iff`). Padding is a type number of zero and the zero
bytes behind it (`decode_eq_ok_padding_iff`).

A frame that was read can therefore be written again. Each of its numbers then takes the narrowest
width, so there are no more bytes than were read, and they are the same bytes if there are as many
(`encode_of_decode`). Padding is written as zero bytes, whatever width its type number had.

A frame that is not padding and has an end of its own is read the same in front of anything. If any
of its bytes are missing, nothing is read (`decode_of_front`): what is left begins with the same
type number, so a frame in it would have an end as well, and could then be read from all of the
bytes. That the reader stops there with an error in the encoding, and with no other error, is seen
by going through all of its parts (`BlamesEncoding`). -/

namespace QuicTransport.Frame

open QuicTransport.Field (Opens)

variable {α β : Type} {bs rest : Bytes} {f : Frame}

/-! ## What is read -/

/-- The frame is what is read from the bytes behind its type number, in front of `rest`. -/
structure Follows (f : Frame) (bs rest : Bytes) : Prop where
  isPadding : f.isPadding = false
  isRaw : f.isRaw = false
  /-- A position that is written counts as requested. -/
  settled : f.settled = f
  fault : f.fault? = none
  refusal : f.refusal? = none
  opens : Opens f.body bs rest
  ends : f.isOpenEnded = true → rest = []

/-- All frames but application data have an end of their own. -/
theorem Follows.of_end (hpadding : f.isPadding = false) (hraw : f.isRaw = false)
    (hsettled : f.settled = f) (hend : f.isOpenEnded = false) (hfault : f.fault? = none)
    (hrefusal : f.refusal? = none) (hopens : Opens f.body bs rest) : f.Follows bs rest := by
  refine ⟨hpadding, hraw, hsettled, hfault, hrefusal, hopens, fun hopen => ?_⟩
  rw [hend] at hopen
  cases hopen

theorem follows_of_readAck {counted : Bool} (h : (ack <$> readAck counted) bs = .ok (f, rest)) :
    f.typeNumber = (if counted then 0x03 else 0x02) ∧ f.Follows bs rest := by
  obtain ⟨a, ha, rfl⟩ := Reader.map_eq_ok.1 h
  obtain ⟨rfl, hfirst, hranges, hopens⟩ := readAck_eq_ok.1 ha
  exact ⟨rfl, .of_end rfl rfl rfl rfl (if_neg (Nat.not_lt_of_le hfirst))
    (rangesRefusal?_eq_none_iff.2 hranges) hopens⟩

theorem follows_of_readStream {hasOffset hasLength fin : Bool}
    (h : (stream <$> readStream hasOffset hasLength fin) bs = .ok (f, rest)) :
    f.typeNumber = 0x08 + 4 * hasOffset.toNat + 2 * hasLength.toNat + fin.toNat
      ∧ f.Follows bs rest := by
  obtain ⟨s, hs, rfl⟩ := Reader.map_eq_ok.1 h
  obtain ⟨⟨rfl, rfl, rfl⟩, hwrites, hlast, hopens, hend⟩ := readStream_eq_ok.1 hs
  refine ⟨rfl, rfl, rfl, ?_, rfl, if_neg (Nat.not_lt_of_le hlast), hopens, ?_⟩
  · rw [settled, ← hwrites]
  · intro hopen
    exact hend (by simpa [isOpenEnded] using hopen)

theorem follows_of_readClosing {isTransport : Bool}
    (h : (connectionClose <$> readClosing isTransport) bs = .ok (f, rest)) :
    f.typeNumber = (if isTransport then 0x1c else 0x1d) ∧ f.Follows bs rest := by
  obtain ⟨c, hc, rfl⟩ := Reader.map_eq_ok.1 h
  obtain ⟨rfl, hopens⟩ := readClosing_eq_ok.1 hc
  exact ⟨rfl, .of_end rfl rfl rfl rfl rfl rfl hopens⟩

theorem follows_of_readIssued (h : (newConnectionId <$> readIssued) bs = .ok (f, rest)) :
    f.typeNumber = 0x18 ∧ f.Follows bs rest := by
  obtain ⟨i, hi, rfl⟩ := Reader.map_eq_ok.1 h
  obtain ⟨hretire, hpos, hopens⟩ := readIssued_eq_ok.1 hi
  refine ⟨rfl, .of_end rfl rfl rfl rfl ?_ rfl hopens⟩
  have hne : i.connectionId.isEmpty = false := by
    rw [ConnectionId.length, List.length_pos_iff] at hpos
    simpa [ConnectionId.isEmpty] using hpos
  rw [fault?, hne, if_neg Bool.false_ne_true, if_neg (Nat.not_lt_of_le hretire)]

/-- Whatever is read behind a type number is a frame of this type. -/
theorem follows_of_readBody {typeNumber : Nat} (h : readBody typeNumber bs = .ok (f, rest)) :
    f.typeNumber = typeNumber ∧ f.Follows bs rest := by
  unfold readBody at h
  split at h
  · obtain ⟨rfl, rfl⟩ := Reader.pure_eq_ok.1 h
    exact ⟨rfl, .of_end rfl rfl rfl rfl rfl rfl (.nil _)⟩
  · exact follows_of_readAck h
  · exact follows_of_readAck h
  · obtain ⟨_, _, _, rfl, hopens⟩ := triple_eq_ok.1 h
    exact ⟨rfl, .of_end rfl rfl rfl rfl rfl rfl hopens⟩
  · obtain ⟨_, _, rfl, hopens⟩ := pair_eq_ok.1 h
    exact ⟨rfl, .of_end rfl rfl rfl rfl rfl rfl hopens⟩
  · obtain ⟨offset, data, rfl, hlast, hopens⟩ := readCrypto_eq_ok.1 h
    exact ⟨rfl, .of_end rfl rfl rfl rfl rfl (if_neg (Nat.not_lt_of_le hlast)) hopens⟩
  · obtain ⟨token, rfl, hne, hopens⟩ := readNewToken_eq_ok.1 h
    exact ⟨rfl, .of_end rfl rfl rfl rfl (by simpa [fault?] using hne) rfl hopens⟩
  · exact follows_of_readStream h
  · exact follows_of_readStream h
  · exact follows_of_readStream h
  · exact follows_of_readStream h
  · exact follows_of_readStream h
  · exact follows_of_readStream h
  · exact follows_of_readStream h
  · exact follows_of_readStream h
  · obtain ⟨_, rfl, hopens⟩ := number_eq_ok.1 h
    exact ⟨rfl, .of_end rfl rfl rfl rfl rfl rfl hopens⟩
  · obtain ⟨_, _, rfl, hopens⟩ := pair_eq_ok.1 h
    exact ⟨rfl, .of_end rfl rfl rfl rfl rfl rfl hopens⟩
  · obtain ⟨_, rfl, hle, hopens⟩ := streamCount_eq_ok.1 h
    exact ⟨rfl, .of_end rfl rfl rfl rfl rfl (if_neg (Nat.not_lt_of_le hle)) hopens⟩
  · obtain ⟨_, rfl, hle, hopens⟩ := streamCount_eq_ok.1 h
    exact ⟨rfl, .of_end rfl rfl rfl rfl rfl (if_neg (Nat.not_lt_of_le hle)) hopens⟩
  · obtain ⟨_, rfl, hopens⟩ := number_eq_ok.1 h
    exact ⟨rfl, .of_end rfl rfl rfl rfl rfl rfl hopens⟩
  · obtain ⟨_, _, rfl, hopens⟩ := pair_eq_ok.1 h
    exact ⟨rfl, .of_end rfl rfl rfl rfl rfl rfl hopens⟩
  · obtain ⟨_, rfl, hle, hopens⟩ := streamCount_eq_ok.1 h
    exact ⟨rfl, .of_end rfl rfl rfl rfl rfl (if_neg (Nat.not_lt_of_le hle)) hopens⟩
  · obtain ⟨_, rfl, hle, hopens⟩ := streamCount_eq_ok.1 h
    exact ⟨rfl, .of_end rfl rfl rfl rfl rfl (if_neg (Nat.not_lt_of_le hle)) hopens⟩
  · exact follows_of_readIssued h
  · obtain ⟨_, rfl, hopens⟩ := number_eq_ok.1 h
    exact ⟨rfl, .of_end rfl rfl rfl rfl rfl rfl hopens⟩
  · obtain ⟨_, rfl, hopens⟩ := fixed_eq_ok.1 h
    exact ⟨rfl, .of_end rfl rfl rfl rfl rfl rfl hopens⟩
  · obtain ⟨_, rfl, hopens⟩ := fixed_eq_ok.1 h
    exact ⟨rfl, .of_end rfl rfl rfl rfl rfl rfl hopens⟩
  · exact follows_of_readClosing h
  · exact follows_of_readClosing h
  · obtain ⟨rfl, rfl⟩ := Reader.pure_eq_ok.1 h
    exact ⟨rfl, .of_end rfl rfl rfl rfl rfl rfl (.nil _)⟩
  · cases h

/-- Numbers that were read have room, so the wire can carry the frame unless something else speaks
against it. -/
theorem wireValid_of_opens (hraw : f.isRaw = false) (hpadding : f.isPadding = false)
    (hfault : f.fault? = none) (hrefusal : f.refusal? = none) (hopens : Opens f.layout bs rest) :
    f.WireValid := by
  obtain ⟨e, he, _⟩ := hopens.exists_encodeAll
  have hencode : f.encode = .ok e := by
    rw [encode, hfault]
    exact he
  refine wireValid_of_encode hraw ?_ hencode hrefusal
  rintro rfl
  cases hpadding

/-- Other frames than padding are read where their fields are, if the wire can carry them and
nothing follows those that have no end. -/
theorem decode_eq_ok_iff (hpadding : f.isPadding = false) :
    decode bs = .ok (f, rest) ↔
      f.WireValid ∧ f.settled = f ∧ Opens f.layout bs rest
        ∧ (f.isOpenEnded = true → rest = []) := by
  constructor
  · intro h
    obtain ⟨n, middle, hnumber, hread⟩ := Reader.bind_eq_ok.1 h
    obtain ⟨code, hcode, rfl⟩ := readNumber_eq_ok.1 hnumber
    split at hread
    · obtain ⟨_, _, rfl⟩ := Reader.map_eq_ok.1 hread
      cases hpadding
    · obtain ⟨rfl, hf⟩ := follows_of_readBody hread
      have hopens : Opens f.layout (code ++ middle) rest := by
        rw [layout_of_isPadding_eq_false hpadding]
        exact .number hcode hf.opens
      exact ⟨wireValid_of_opens hf.isRaw hpadding hf.fault hf.refusal hopens, hf.settled, hopens,
        hf.ends⟩
  · rintro ⟨hvalid, hsettled, hopens, hends⟩
    have hread := decode_of_opens hvalid hpadding hopens hends
    rwa [hsettled] at hread

/-- Padding is a type number of zero, at any width, with all the zero bytes that follow it. -/
theorem decode_eq_ok_padding_iff {length : Nat} :
    decode bs = .ok (.padding length, rest) ↔
      ∃ code zeros, VarInt.IsCode 0 code ∧ bs = code ++ (List.replicate zeros 0 ++ rest)
        ∧ rest.head? ≠ some 0 ∧ length = code.length + zeros := by
  constructor
  · intro h
    obtain ⟨n, middle, hnumber, hread⟩ := Reader.bind_eq_ok.1 h
    obtain ⟨code, hcode, rfl⟩ := readNumber_eq_ok.1 hnumber
    obtain ⟨first, tail, rfl, hwidth⟩ := hcode.exists_cons
    split at hread
    next hzero =>
      subst hzero
      obtain ⟨zeros, hzeros, hlength⟩ := Reader.map_eq_ok.1 hread
      obtain ⟨rfl, hall, hstop⟩ := Reader.takeWhile_eq_ok.1 hzeros
      injection hlength with hlength
      have hrun : zeros = List.replicate zeros.length 0 :=
        List.eq_replicate_iff.2 ⟨rfl, fun b hb => by simpa using hall b hb⟩
      refine ⟨_, zeros.length, hcode, by rw [← hrun], ?_, ?_⟩
      · intro hhead
        cases hstop 0 hhead
      · rw [hlength, ← hwidth]
        rfl
    next =>
      have hf := (follows_of_readBody hread).2
      cases hf.isPadding
  · rintro ⟨code, zeros, hcode, rfl, hhead, rfl⟩
    refine decode_zeros hcode zeros ?_
    rintro b hb rfl
    exact hhead hb

/-! ## Written again -/

/-- Whatever is read, the wire can carry it as it was read. -/
theorem wireValid_of_decode (h : decode bs = .ok (f, rest)) : f.WireValid ∧ f.settled = f := by
  rcases f.isPadding_cases with hpadding | ⟨length, rfl⟩
  · obtain ⟨hvalid, hsettled, _⟩ := (decode_eq_ok_iff hpadding).1 h
    exact ⟨hvalid, hsettled⟩
  · have hshort := decode_shortens h
    obtain ⟨code, zeros, _, rfl, _, rfl⟩ := decode_eq_ok_padding_iff.1 h
    rw [List.length_append, List.length_append, List.length_replicate] at hshort
    have hpos : 0 < code.length + zeros := by omega
    exact ⟨hpos, rfl⟩

/-- The bytes that are written for a frame take the place of those that it was read from. -/
theorem exists_encode_of_decode (h : decode bs = .ok (f, rest)) :
    ∃ front e, bs = front ++ rest ∧ f.encode = .ok e ∧ e.length ≤ front.length
      ∧ (f.isPadding = false → e.length = front.length → e = front) := by
  rcases f.isPadding_cases with hpadding | ⟨length, rfl⟩
  · obtain ⟨hvalid, _, hopens, _⟩ := (decode_eq_ok_iff hpadding).1 h
    obtain ⟨front, rfl, hfront⟩ := hopens.exists_front
    obtain ⟨e, he, hle, heq⟩ := (hfront []).exists_encodeAll
    simp only [List.append_nil, List.length_nil, Nat.add_zero] at hle heq
    refine ⟨front, e, rfl, ?_, hle, fun _ hlength => (heq hlength).symm⟩
    rw [encode, fault?_of_wireValid hvalid]
    exact he
  · obtain ⟨code, zeros, _, rfl, _, rfl⟩ := decode_eq_ok_padding_iff.1 h
    exact ⟨_, _, (List.append_assoc _ _ _).symm, encode_padding _, by simp, by rintro ⟨⟩⟩

/-- A frame that was read is written in no more bytes than it was read from, and read again from
those. As many bytes are the same bytes. -/
theorem encode_of_decode (h : decode bs = .ok (f, rest)) :
    ∃ front e, bs = front ++ rest ∧ 1 ≤ front.length
      ∧ f.encode = .ok e ∧ e.length = f.encodedLength ∧ f.encodedLength ≤ front.length
      ∧ decode e = .ok (f, [])
      ∧ (f.isPadding = false → e.length = front.length → e = front) := by
  have hshort := decode_shortens h
  obtain ⟨hvalid, hsettled⟩ := wireValid_of_decode h
  obtain ⟨front, e, rfl, hencode, hle, heq⟩ := exists_encode_of_decode h
  have hlength := length_of_encode hencode
  have hagain := decode_eq_ok hvalid hencode
  rw [hsettled] at hagain
  refine ⟨front, e, rfl, ?_, hencode, hlength, hlength ▸ hle, hagain, heq⟩
  rw [List.length_append] at hshort
  omega

/-- Application data with every number at two bytes, and a frame behind it. -/
theorem encode_of_decode_wide :
    ∃ f, decode [0x40, 0x0e, 0x40, 0x04, 0x40, 0, 0x40, 1, 0xff, 0x01] = .ok (f, [0x01])
      ∧ f.encode = .ok [0x0e, 0x04, 0, 1, 0xff] ∧ f.encodedLength = 5
      ∧ decode [0x0e, 0x04, 0, 1, 0xff] = .ok (f, []) := by
  have hread : decode [0x40, 0x0e, 0x40, 0x04, 0x40, 0, 0x40, 1, 0xff, 0x01] = .ok (.stream
      { streamId := 4, offset := 0, hasOffset := true, hasLength := true, fin := false,
        data := [0xff] }, [0x01]) := rfl
  obtain ⟨_, e, _, _, hencode, hlength, _, hagain, _⟩ := encode_of_decode hread
  have he : [0x0e, 0x04, 0, 1, 0xff] = e := by
    injection hencode
  subst he
  exact ⟨_, hread, hencode, hlength.symm, hagain⟩

/-! ## With more behind it -/

theorem typeNumber_eq_zero_iff (hraw : f.isRaw = false) :
    f.typeNumber = 0 ↔ f.isPadding = true := by
  rcases f.isPadding_cases with hpadding | ⟨length, rfl⟩
  · have hpos := (typeNumber_bounds hraw hpadding).1
    rw [hpadding]
    exact iff_of_false (Nat.ne_of_gt hpos) Bool.false_ne_true
  · exact iff_of_true rfl rfl

/-- The type number says whether the frame has an end of its own. -/
theorem isOpenEnded_eq (hraw : f.isRaw = false) :
    f.isOpenEnded = decide (f.typeNumber ∈ [0x08, 0x09, 0x0c, 0x0d]) := by
  cases f with
  | ack a =>
    rw [typeNumber]
    split <;> rfl
  | stream s =>
    rw [typeNumber, isOpenEnded]
    cases s.writesOffset <;> cases s.hasLength <;> cases s.fin <;> rfl
  | maxStreams bidirectional maximum =>
    rw [typeNumber]
    split <;> rfl
  | streamsBlocked bidirectional maximum =>
    rw [typeNumber]
    split <;> rfl
  | connectionClose c =>
    rw [typeNumber]
    split <;> rfl
  | raw frameType payload => cases hraw
  | _ => rfl

/-- What is read begins with its type number, padding included. -/
theorem readNumber_of_decode (h : decode bs = .ok (f, rest)) (what : String) (more : Bytes) :
    ∃ after, readNumber what (bs ++ more) = .ok (f.typeNumber, after) := by
  rcases f.isPadding_cases with hpadding | ⟨length, rfl⟩
  · obtain ⟨_, _, hopens, _⟩ := (decode_eq_ok_iff hpadding).1 h
    rw [layout_of_isPadding_eq_false hpadding] at hopens
    obtain _ | ⟨hcode, _⟩ := hopens
    exact ⟨_, readNumber_eq_ok.2 ⟨_, hcode, List.append_assoc _ _ _⟩⟩
  · obtain ⟨code, zeros, hcode, rfl, _⟩ := decode_eq_ok_padding_iff.1 h
    exact ⟨_, readNumber_eq_ok.2 ⟨_, hcode, List.append_assoc _ _ _⟩⟩

/-- Two frames at the same place are of the same type, however far the bytes go on. -/
theorem typeNumber_eq_of_decode {g : Frame} {more after : Bytes}
    (h : decode bs = .ok (g, after)) (hmore : decode (bs ++ more) = .ok (f, rest)) :
    g.typeNumber = f.typeNumber := by
  obtain ⟨_, hg⟩ := readNumber_of_decode h "truncated frame type" more
  obtain ⟨_, hf⟩ := readNumber_of_decode hmore "truncated frame type" []
  rw [List.append_nil, hg, Except.ok.injEq, Prod.mk.injEq] at hf
  exact hf.1

/-- With an end of its own, a frame does not depend on what follows it. -/
theorem exists_front_of_decode (h : decode bs = .ok (f, rest)) (hpadding : f.isPadding = false)
    (hend : f.isOpenEnded = false) :
    ∃ front, bs = front ++ rest ∧ ∀ more, decode (front ++ more) = .ok (f, more) := by
  obtain ⟨hvalid, hsettled, hopens, _⟩ := (decode_eq_ok_iff hpadding).1 h
  obtain ⟨front, rfl, hfront⟩ := hopens.exists_front
  refine ⟨front, rfl, fun more => (decode_eq_ok_iff hpadding).2 ⟨hvalid, hsettled, hfront more, ?_⟩⟩
  rw [hend]
  exact nofun

/-! ## With less of it -/

/-- Whenever the reader fails, it says that a frame is badly encoded. -/
def BlamesEncoding (r : Reader α) : Prop :=
  ∀ bs e, r bs = .error e → ∃ what, e = .frameEncoding what

namespace BlamesEncoding

theorem pure (a : α) : BlamesEncoding (Pure.pure a : Reader α) := nofun

theorem fail (what : String) : BlamesEncoding (Reader.fail (.frameEncoding what) : Reader α) := by
  rintro _ _ ⟨⟩
  exact ⟨what, rfl⟩

theorem bind {r : Reader α} {next : α → Reader β} (hr : BlamesEncoding r)
    (hnext : ∀ a, BlamesEncoding (next a)) : BlamesEncoding (r >>= next) := by
  intro bs e h
  change Reader.andThen r next bs = _ at h
  unfold Reader.andThen at h
  split at h
  · next a middle _ => exact hnext a middle e h
  · next hfirst =>
    cases h
    exact hr _ _ hfirst

theorem map {r : Reader α} (hr : BlamesEncoding r) (g : α → β) : BlamesEncoding (g <$> r) :=
  bind hr fun _ => pure _

theorem insist (condition : Bool) (what : String) :
    BlamesEncoding (Frame.insist condition what) := by
  cases condition with
  | false => exact fail what
  | true => exact pure ()

theorem readNumber (what : String) : BlamesEncoding (Frame.readNumber what) := by
  intro bs e h
  unfold Frame.readNumber Reader.varInt at h
  split at h
  · cases h
  · cases h
    exact ⟨what, rfl⟩

theorem readBytes (n : Nat) (what : String) : BlamesEncoding (Frame.readBytes n what) := by
  intro bs e h
  unfold Frame.readBytes Reader.bytes at h
  split at h
  · cases h
  · cases h
    exact ⟨what, rfl⟩

theorem readFixed (n : Nat) (what : String) : BlamesEncoding (Frame.readFixed n what) := by
  intro bs e h
  unfold Frame.readFixed Reader.fixed at h
  split at h
  · cases h
  · cases h
    exact ⟨what, rfl⟩

theorem number_bind {what : String} {next : Nat → Reader β} (h : ∀ n, BlamesEncoding (next n)) :
    BlamesEncoding (Frame.readNumber what >>= next) := bind (readNumber what) h

theorem insist_bind {condition : Bool} {what : String} {next : Unit → Reader β}
    (h : BlamesEncoding (next ())) : BlamesEncoding (Frame.insist condition what >>= next) :=
  bind (insist condition what) fun _ => h

theorem readRanges (count smallest : Nat) : BlamesEncoding (Frame.readRanges count smallest) := by
  induction count generalizing smallest with
  | zero => exact pure []
  | succ count ih =>
    exact number_bind fun _ => number_bind fun _ => insist_bind <| insist_bind <|
      bind (ih _) fun _ => pure _

theorem readEcn (counted : Bool) : BlamesEncoding (Frame.readEcn counted) := by
  cases counted with
  | false => exact pure none
  | true =>
    exact map (number_bind fun _ => number_bind fun _ => number_bind fun _ => pure _) some

theorem readAck (counted : Bool) : BlamesEncoding (Frame.readAck counted) := by
  have hroom : ∀ n what, BlamesEncoding (Reader.atLeast n (.frameEncoding what)) := by
    intro n what bs e h
    unfold Reader.atLeast at h
    split at h
    · cases h
      exact ⟨what, rfl⟩
    · cases h
  exact number_bind fun _ => number_bind fun _ => number_bind fun _ => number_bind fun _ =>
    insist_bind <| bind (hroom _ _) fun _ => bind (readRanges _ _) fun _ =>
      bind (readEcn _) fun _ => pure _

theorem readStream (hasOffset hasLength fin : Bool) :
    BlamesEncoding (Frame.readStream hasOffset hasLength fin) := by
  refine number_bind fun _ => bind ?_ fun _ => bind ?_ fun _ => insist_bind (pure _)
  · cases hasOffset with
    | false => exact pure 0
    | true => exact readNumber _
  · cases hasLength with
    | false => exact nofun
    | true => exact number_bind fun _ => readBytes _ _

theorem readStreamCount (what : String) : BlamesEncoding (Frame.readStreamCount what) :=
  number_bind fun _ => insist_bind (pure _)

theorem readIssuedCid : BlamesEncoding Frame.readIssuedCid := by
  have hbyte : ∀ what, BlamesEncoding (Reader.byte (.frameEncoding what)) := by
    rintro what (_ | _) _ ⟨⟩
    exact ⟨what, rfl⟩
  refine bind (hbyte _) fun _ => insist_bind <| bind (readBytes _ _) fun _ => ?_
  split
  · exact pure _
  · exact fail _

theorem readIssued : BlamesEncoding Frame.readIssued :=
  number_bind fun _ => number_bind fun _ => insist_bind <| bind readIssuedCid fun _ =>
    bind (readFixed _ _) fun _ => pure _

theorem readClosing (isTransport : Bool) : BlamesEncoding (Frame.readClosing isTransport) := by
  refine number_bind fun _ => bind ?_ fun _ => number_bind fun _ => bind (readBytes _ _) fun _ =>
    pure _
  cases isTransport with
  | false => exact pure none
  | true => exact map (readNumber _) some

theorem readBody (typeNumber : Nat) : BlamesEncoding (Frame.readBody typeNumber) := by
  unfold Frame.readBody
  split
  · exact pure _
  · exact map (readAck _) _
  · exact map (readAck _) _
  · exact number_bind fun _ => number_bind fun _ => number_bind fun _ => pure _
  · exact number_bind fun _ => number_bind fun _ => pure _
  · exact number_bind fun _ => number_bind fun _ => insist_bind <| map (readBytes _ _) _
  · exact number_bind fun _ => insist_bind <| map (readBytes _ _) _
  · exact map (readStream _ _ _) _
  · exact map (readStream _ _ _) _
  · exact map (readStream _ _ _) _
  · exact map (readStream _ _ _) _
  · exact map (readStream _ _ _) _
  · exact map (readStream _ _ _) _
  · exact map (readStream _ _ _) _
  · exact map (readStream _ _ _) _
  · exact map (readNumber _) _
  · exact number_bind fun _ => number_bind fun _ => pure _
  · exact map (readStreamCount _) _
  · exact map (readStreamCount _) _
  · exact map (readNumber _) _
  · exact number_bind fun _ => number_bind fun _ => pure _
  · exact map (readStreamCount _) _
  · exact map (readStreamCount _) _
  · exact map readIssued _
  · exact map (readNumber _) _
  · exact map (readFixed _ _) _
  · exact map (readFixed _ _) _
  · exact map (readClosing _) _
  · exact map (readClosing _) _
  · exact pure _
  · exact fail _

theorem decode : BlamesEncoding Frame.decode := by
  have hzeros : BlamesEncoding (Reader.takeWhile (· == 0)) := nofun
  intro bs
  refine number_bind (fun n => ?_) bs
  split
  · exact map hzeros _
  · exact readBody n

end BlamesEncoding

/-- Without all of the bytes of a frame that has an end of its own, nothing is read. -/
theorem decode_take_of_decode (h : decode bs = .ok (f, rest)) (hpadding : f.isPadding = false)
    (hend : f.isOpenEnded = false) {k : Nat} (hk : k + rest.length < bs.length) :
    ∃ what, decode (bs.take k) = .error (.frameEncoding what) := by
  cases hread : decode (bs.take k) with
  | error e =>
    obtain ⟨what, rfl⟩ := BlamesEncoding.decode _ _ hread
    exact ⟨what, rfl⟩
  | ok found =>
    exfalso
    obtain ⟨g, after⟩ := found
    have hrawf := isRaw_of_wireValid (wireValid_of_decode h).1
    have hrawg := isRaw_of_wireValid (wireValid_of_decode hread).1
    rw [← List.take_append_drop k bs] at h
    have htype := typeNumber_eq_of_decode hread h
    have hpaddingg : g.isPadding = false := by
      rw [Bool.eq_false_iff, ne_eq, ← typeNumber_eq_zero_iff hrawg, htype,
        typeNumber_eq_zero_iff hrawf, hpadding]
      exact Bool.false_ne_true
    have hendg : g.isOpenEnded = false := by
      rw [isOpenEnded_eq hrawg, htype, ← isOpenEnded_eq hrawf, hend]
    -- what is missing could follow the other frame, so more would be left than there was
    obtain ⟨front, hfront, hg⟩ := exists_front_of_decode hread hpaddingg hendg
    rw [hfront, List.append_assoc, hg, Except.ok.injEq, Prod.mk.injEq] at h
    have hrest := congrArg List.length h.2
    rw [List.length_append, List.length_drop] at hrest
    omega

/-- A frame that is not padding and has an end of its own takes the same bytes whatever follows
them, and no fewer. -/
theorem decode_of_front (h : decode bs = .ok (f, rest)) (hpadding : f.isPadding = false)
    (hend : f.isOpenEnded = false) :
    ∃ front, bs = front ++ rest ∧ (∀ more, decode (front ++ more) = .ok (f, more))
      ∧ ∀ k < front.length, ∃ what, decode (bs.take k) = .error (.frameEncoding what) := by
  obtain ⟨front, rfl, hfront⟩ := exists_front_of_decode h hpadding hend
  refine ⟨front, rfl, hfront, fun k hk => decode_take_of_decode h hpadding hend ?_⟩
  rw [List.length_append]
  omega

/-- One byte of handshake data, in a frame of four. -/
theorem decode_of_front_crypto :
    (∀ more, decode ([0x06, 0, 1, 0xff] ++ more) = .ok (.crypto 0 [0xff], more))
      ∧ ∀ k < 4, ∃ what, decode ([0x06, 0, 1, 0xff].take k) = .error (.frameEncoding what) := by
  have hread : decode [0x06, 0, 1, 0xff] = .ok (.crypto 0 [0xff], []) := rfl
  obtain ⟨front, hfront, hmore, hless⟩ := decode_of_front hread rfl rfl
  rw [List.append_nil] at hfront
  subst hfront
  exact ⟨hmore, hless⟩

end QuicTransport.Frame
