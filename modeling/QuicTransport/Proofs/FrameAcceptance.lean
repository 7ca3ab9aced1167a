import QuicTransport.Proofs.FrameCodec

set_option autoImplicit false

/-! # Frames that are written and not read back

A frame that the wire can carry is written and read back
(`encode_decode_of_isPadding_eq_false`). The writer lets more frames through than that. It looks at
the first range of an acknowledgement, at tokens and at issued connection identifiers, but not at
how far down the other ranges go, how far up data reach, or how many streams are counted. What the
reader finds there is `Frame.refusal?`. If it finds nothing, the frame is one that the wire can
carry (`wireValid_of_encode`); otherwise its bytes are refused with that text (`decode_eq_error`).

To see that they are refused, the reader is followed along the fields that were written, up to the
condition that fails (`RefusesFields`). -/

namespace QuicTransport

namespace Frame

open QuicTransport.Field (Opens)

variable {α β : Type}

/-! ## What only the reader looks at -/

/-- Why further ranges are refused below the packet number `smallest`: the first of them that goes
below zero decides. -/
def rangesRefusal? : (smallest : Nat) → List AckRange → Option String
  | _, [] => none
  | smallest, r :: rs =>
    if smallest < r.gap + 2 then some "ACK gap below zero"
    else if smallest - r.gap - 2 < r.length then some "ACK range below zero"
    else rangesRefusal? (smallest - r.gap - 2 - r.length) rs

/-- Why a frame that was written is refused when it is read; `none` if it is read back. -/
def refusal? : Frame → Option String
  | .ack a => rangesRefusal? (a.largest - a.firstRange) a.ranges
  | .crypto offset data =>
    if lastPosition < offset + data.length then some "CRYPTO data beyond 2^62" else none
  | .stream s =>
    if lastPosition < s.offset + s.data.length then some "STREAM data beyond 2^62" else none
  | .maxStreams _ maximum | .streamsBlocked _ maximum =>
    if maxStreamCount < maximum then some "stream count exceeds 2^60" else none
  | _ => none

theorem rangesRefusal?_eq_none_iff {smallest : Nat} {ranges : List AckRange} :
    rangesRefusal? smallest ranges = none ↔ RangesFit smallest ranges := by
  induction ranges generalizing smallest with
  | nil => simp [rangesRefusal?, RangesFit]
  | cons r rs ih =>
    have hbelow : smallest - r.gap - 2 - r.length = smallest - (r.gap + 2 + r.length) := by omega
    rw [rangesRefusal?, RangesFit, hbelow, ← ih]
    by_cases hgap : smallest < r.gap + 2
    · simp [hgap]
      omega
    · by_cases hlength : smallest - r.gap - 2 < r.length
      · simp [hgap, hlength]
        omega
      · simp [hgap, hlength]
        omega

/-- Nothing is refused of a frame that the wire can carry. -/
theorem refusal?_of_wireValid {f : Frame} (h : f.WireValid) : f.refusal? = none := by
  cases f with
  | ack a => exact rangesRefusal?_eq_none_iff.2 h.2.2.2.1
  | crypto offset data => exact if_neg (Nat.not_lt_of_le h)
  | stream s => exact if_neg (Nat.not_lt_of_le h.2)
  | maxStreams bidirectional maximum => exact if_neg (Nat.not_lt_of_le h)
  | streamsBlocked bidirectional maximum => exact if_neg (Nat.not_lt_of_le h)
  | _ => rfl

/-! ## Following a reader along the fields -/

/-- However the fields are written, the reader refuses their bytes in front of `rest`. -/
def RefusesFields (r : Reader α) (fields : List Field) (what : String) (rest : Bytes) : Prop :=
  ∀ bs, Field.encodeAll fields = .ok bs → r (bs ++ rest) = .error (.frameEncoding what)

namespace RefusesFields

variable {r : Reader α} {fields : List Field} {what : String} {rest : Bytes}

/-- What the first of two readers refuses, both refuse. -/
theorem bind (h : RefusesFields r fields what rest) (next : α → Reader β) :
    RefusesFields (r >>= next) fields what rest := by
  intro bs hbs
  exact Reader.bind_of_eq_error (h bs hbs)

theorem map (h : RefusesFields r fields what rest) (f : α → β) :
    RefusesFields (f <$> r) fields what rest := h.bind fun a => pure (f a)

/-- Fields that the first of two readers takes are out of the way of the second. -/
theorem takes_bind {next : α → Reader β} {taken : List Field} {a : α}
    (hfirst : ∀ bs rest, Opens taken bs rest → r bs = .ok (a, rest))
    (hnext : RefusesFields (next a) fields what rest) :
    RefusesFields (r >>= next) (taken ++ fields) what rest := by
  intro bs hbs
  obtain ⟨front, back, hfront, hback, rfl⟩ := Field.encodeAll_append_eq_ok hbs
  have hread := hfirst _ _ (Opens.of_encodeAll hfront (back ++ rest))
  rw [List.append_assoc, Reader.bind_of_eq_ok hread]
  exact hnext back hback

/-- The same where nothing is left for the second reader. -/
theorem takes_bind_last {next : α → Reader β} {a : α}
    (hfirst : ∀ bs, Opens fields bs rest → r bs = .ok (a, rest))
    (hnext : RefusesFields (next a) [] what rest) :
    RefusesFields (r >>= next) fields what rest := by
  intro bs hbs
  have hread := hfirst _ (Opens.of_encodeAll hbs rest)
  rw [Reader.bind_of_eq_ok hread]
  exact hnext [] rfl

theorem number_bind {next : Nat → Reader β} {n : Nat} {name : String}
    (hnext : RefusesFields (next n) fields what rest) :
    RefusesFields (readNumber name >>= next) (.number n :: fields) what rest := by
  have hnumber : ∀ bs rest, Opens [.number n] bs rest → readNumber name bs = .ok (n, rest) := by
    rintro bs rest (_ | ⟨hcode, ⟨⟩⟩)
    exact readNumber_eq_ok.2 ⟨_, hcode, rfl⟩
  exact takes_bind hnumber hnext

theorem of_insist {next : Unit → Reader β} {condition : Bool} (h : condition = false) :
    RefusesFields (insist condition what >>= next) fields what rest := by
  rw [h]
  exact fun _ _ => rfl

end RefusesFields

/-! ## The five texts -/

/-- Ranges that are all there are refused at the first that goes below zero. -/
theorem readRanges_eq_error {ranges : List AckRange} {smallest : Nat} {what : String}
    (h : rangesRefusal? smallest ranges = some what) {bs rest : Bytes}
    (hopens : Opens (ranges.flatMap AckRange.layout) bs rest) :
    readRanges ranges.length smallest bs = .error (.frameEncoding what) := by
  induction ranges generalizing smallest bs with
  | nil => cases h
  | cons r rs ih =>
    rw [List.flatMap_cons, AckRange.layout, List.cons_append, List.cons_append, List.nil_append]
      at hopens
    obtain ⟨_, hgap, hopens⟩ := readNumber_of_opens hopens "ACK gap"
    obtain ⟨_, hlength, hopens⟩ := readNumber_of_opens hopens "ACK range length"
    rw [List.length_cons, readRanges, Reader.bind_of_eq_ok hgap, Reader.bind_of_eq_ok hlength]
    rw [rangesRefusal?] at h
    by_cases hstart : smallest < r.gap + 2
    · rw [if_pos hstart, Option.some.injEq] at h
      subst h
      rw [decide_eq_false (Nat.not_le_of_lt hstart)]
      rfl
    · rw [if_neg hstart] at h
      rw [Reader.bind_of_eq_ok (a := ())
        (insist_eq_ok.2 ⟨decide_eq_true (Nat.le_of_not_lt hstart), rfl⟩)]
      by_cases hend : smallest - r.gap - 2 < r.length
      · rw [if_pos hend, Option.some.injEq] at h
        subst h
        rw [decide_eq_false (Nat.not_le_of_lt hend)]
        rfl
      · rw [if_neg hend] at h
        rw [Reader.bind_of_eq_ok (a := ())
          (insist_eq_ok.2 ⟨decide_eq_true (Nat.le_of_not_lt hend), rfl⟩)]
        exact Reader.bind_of_eq_error (ih h hopens)

/-- An acknowledgement that is all there is refused for its ranges. -/
theorem readAck_eq_error {a : Ack} {what : String} (hfirst : a.firstRange ≤ a.largest)
    (h : rangesRefusal? (a.largest - a.firstRange) a.ranges = some what) {bs rest : Bytes}
    (hopens : Opens a.layout bs rest) :
    readAck a.ecn.isSome bs = .error (.frameEncoding what) := by
  simp only [Ack.layout, List.cons_append, List.nil_append] at hopens
  obtain ⟨_, hlargest, hopens⟩ := readNumber_of_opens hopens "ACK largest acknowledged"
  obtain ⟨_, hdelay, hopens⟩ := readNumber_of_opens hopens "ACK delay"
  obtain ⟨_, hcount, hopens⟩ := readNumber_of_opens hopens "ACK range count"
  obtain ⟨_, hrange, hopens⟩ := readNumber_of_opens hopens "ACK first range"
  have hroom := Nat.le_trans (two_mul_length_le _ _) hopens.length_le
  obtain ⟨middle, hranges, _⟩ := Opens.of_append hopens
  rw [readAck, Reader.bind_of_eq_ok hlargest, Reader.bind_of_eq_ok hdelay,
    Reader.bind_of_eq_ok hcount, Reader.bind_of_eq_ok hrange,
    Reader.bind_of_eq_ok (a := ()) (insist_eq_ok.2 ⟨decide_eq_true hfirst, rfl⟩),
    Reader.bind_of_eq_ok (a := ()) (Reader.atLeast_eq_ok.2 ⟨hroom, rfl⟩)]
  exact Reader.bind_of_eq_error (readRanges_eq_error h hranges)

theorem refusesFields_readAck {a : Ack} {what : String} (hfirst : a.firstRange ≤ a.largest)
    (h : rangesRefusal? (a.largest - a.firstRange) a.ranges = some what) (rest : Bytes) :
    RefusesFields (readAck a.ecn.isSome) a.layout what rest := by
  intro bs hbs
  exact readAck_eq_error hfirst h (Opens.of_encodeAll hbs rest)

theorem refusesFields_readCrypto {offset : Nat} {data : Bytes}
    (h : lastPosition < offset + data.length) (rest : Bytes) :
    RefusesFields readCrypto (Frame.crypto offset data).body "CRYPTO data beyond 2^62" rest :=
  .number_bind (.number_bind (.of_insist (by simpa using h)))

/-- Without a length the data ends where the bytes do. -/
theorem refusesFields_readStream {s : StreamChunk} (h : lastPosition < s.offset + s.data.length) :
    RefusesFields (readStream s.writesOffset s.hasLength s.fin) s.layout
      "STREAM data beyond 2^62" [] := by
  rw [StreamChunk.layout, List.append_assoc]
  refine .number_bind (.takes_bind (a := s.offset) (fun bs rest hopens => ?_)
    (.takes_bind_last (a := s.data) (fun bs hopens => ?_) ?_))
  · exact readStreamOffset_eq_ok.2 ⟨StreamChunk.offset_eq_zero, hopens⟩
  · exact readStreamData_eq_ok.2 ⟨fun _ => rfl, hopens⟩
  · exact .of_insist (by simpa using h)

theorem refusesFields_readStreamCount {count : Nat} (h : maxStreamCount < count) (name : String)
    (rest : Bytes) :
    RefusesFields (readStreamCount name) [.number count] "stream count exceeds 2^60" rest :=
  .number_bind (.of_insist (by simpa using h))

/-- What the reader finds wrong it finds behind the type number. -/
theorem refusesFields_body {f : Frame} (hfault : f.fault? = none) {what : String}
    (h : f.refusal? = some what) : RefusesFields (readBody f.typeNumber) f.body what [] := by
  cases f with
  | ack a =>
    have hfirst : a.firstRange ≤ a.largest := by simpa [fault?] using hfault
    rw [readBody_ack]
    exact (refusesFields_readAck hfirst h []).map _
  | crypto offset data =>
    obtain ⟨hlast, rfl⟩ := by simpa [refusal?] using h
    exact refusesFields_readCrypto hlast []
  | stream s =>
    obtain ⟨hlast, rfl⟩ := by simpa [refusal?] using h
    rw [readBody_stream]
    exact (refusesFields_readStream hlast).map _
  | maxStreams bidirectional maximum =>
    obtain ⟨hcount, rfl⟩ := by simpa [refusal?] using h
    cases bidirectional <;> exact (refusesFields_readStreamCount hcount _ []).map _
  | streamsBlocked bidirectional maximum =>
    obtain ⟨hcount, rfl⟩ := by simpa [refusal?] using h
    cases bidirectional <;> exact (refusesFields_readStreamCount hcount _ []).map _
  | _ => cases h

/-! ## Frames that were written -/

theorem encode_eq_ok {f : Frame} {bs : Bytes} (h : f.encode = .ok bs) :
    f.fault? = none ∧ Field.encodeAll f.layout = .ok bs := by
  unfold encode at h
  split at h
  · cases h
  · next hfault => exact ⟨hfault, h⟩

theorem length_of_encode {f : Frame} {bs : Bytes} (h : f.encode = .ok bs) :
    bs.length = f.encodedLength := Field.length_of_encodeAll (encode_eq_ok h).2

/-- Writing makes sure that every number has room and that the frame has no fault. -/
theorem wireValid_of_encode {f : Frame} (hraw : f.isRaw = false) (hpadding : f ≠ .padding 0)
    {bs : Bytes} (hencode : f.encode = .ok bs) (h : f.refusal? = none) : f.WireValid := by
  obtain ⟨hfault, hwritten⟩ := encode_eq_ok hencode
  have hroom : ∀ n, .number n ∈ f.layout → FitsVarInt n := fun n =>
    Field.fits_of_encodeAll hwritten
  cases f with
  | padding length => exact Nat.pos_of_ne_zero fun hzero => hpadding (by rw [hzero])
  | ping => trivial
  | ack a =>
    have hfirst : a.firstRange ≤ a.largest := by simpa [fault?] using hfault
    refine ⟨hroom _ (by simp [layout, body, Ack.layout]),
      hroom _ (by simp [layout, body, Ack.layout]), hfirst, rangesRefusal?_eq_none_iff.1 h, ?_⟩
    intro c hc
    exact ⟨hroom _ (by simp [layout, body, Ack.layout, hc, EcnCounts.layout]),
      hroom _ (by simp [layout, body, Ack.layout, hc, EcnCounts.layout]),
      hroom _ (by simp [layout, body, Ack.layout, hc, EcnCounts.layout])⟩
  | resetStream streamId errorCode finalSize =>
    exact ⟨hroom _ (by simp [layout, body]), hroom _ (by simp [layout, body]),
      hroom _ (by simp [layout, body])⟩
  | stopSending streamId errorCode =>
    exact ⟨hroom _ (by simp [layout, body]), hroom _ (by simp [layout, body])⟩
  | crypto offset data => exact Nat.le_of_not_lt (by simpa [refusal?] using h)
  | newToken token =>
    exact ⟨by simpa [fault?] using hfault, hroom _ (by simp [layout, body, Field.counted])⟩
  | stream s =>
    exact ⟨hroom _ (by simp [layout, body, StreamChunk.layout]), by simpa [refusal?] using h⟩
  | maxData maximum => exact hroom _ (by simp [layout, body])
  | maxStreamData streamId maximum =>
    exact ⟨hroom _ (by simp [layout, body]), hroom _ (by simp [layout, body])⟩
  | maxStreams bidirectional maximum => exact Nat.le_of_not_lt (by simpa [refusal?] using h)
  | dataBlocked maximum => exact hroom _ (by simp [layout, body])
  | streamDataBlocked streamId maximum =>
    exact ⟨hroom _ (by simp [layout, body]), hroom _ (by simp [layout, body])⟩
  | streamsBlocked bidirectional maximum => exact Nat.le_of_not_lt (by simpa [refusal?] using h)
  | newConnectionId i =>
    rw [fault?] at hfault
    split at hfault
    · cases hfault
    next hempty =>
    split at hfault
    · cases hfault
    next hretire =>
    refine ⟨hroom _ (by simp [layout, body, IssuedConnectionId.layout]),
      Nat.le_of_not_lt hretire, ?_⟩
    simpa [ConnectionId.isEmpty, ConnectionId.length, List.length_pos_iff] using hempty
  | retireConnectionId sequenceNumber => exact hroom _ (by simp [layout, body])
  | pathChallenge data => trivial
  | pathResponse data => trivial
  | connectionClose c =>
    refine ⟨hroom _ (by simp [layout, body, Closing.layout]), ?_,
      hroom _ (by simp [layout, body, Closing.layout, Field.counted])⟩
    intro t ht
    exact hroom _ (by simp [layout, body, Closing.layout, ht])
  | handshakeDone => trivial
  | raw frameType payload => cases hraw

/-- A frame that the wire can carry is read back from its bytes. -/
theorem decode_eq_ok {f : Frame} (h : f.WireValid) {bs : Bytes} (hencode : f.encode = .ok bs) :
    decode bs = .ok (f.settled, []) := by
  rcases f.isPadding_cases with hpadding | ⟨length, rfl⟩
  · have hend : f.isOpenEnded = true → ([] : Bytes) = [] := fun _ => rfl
    obtain ⟨first, body, hbytes, _, hread⟩ := encode_decode_of_isPadding_eq_false h hpadding hend
    rw [hencode, Except.ok.injEq] at hbytes
    rwa [List.append_nil, ← hbytes] at hread
  · obtain ⟨length, rfl⟩ := Nat.exists_eq_succ_of_ne_zero (Nat.ne_of_gt h)
    rw [encode_padding, Except.ok.injEq] at hencode
    rw [← hencode, ← List.append_nil (List.replicate _ _)]
    exact decode_padding length (by simp)

/-- A frame that is written and that the wire cannot carry is refused when its bytes are read. -/
theorem decode_eq_error {f : Frame} {what : String} (h : f.refusal? = some what) {bs : Bytes}
    (hencode : f.encode = .ok bs) : decode bs = .error (.frameEncoding what) := by
  obtain ⟨hfault, hwritten⟩ := encode_eq_ok hencode
  have hraw : f.isRaw = false := by
    cases f with
    | raw frameType payload => cases h
    | _ => rfl
  have hpadding : f.isPadding = false := by
    cases f with
    | padding length => cases h
    | _ => rfl
  obtain ⟨hpos, _⟩ := typeNumber_bounds hraw hpadding
  rw [layout_of_isPadding_eq_false hpadding] at hwritten
  have hnumber : ∀ width, RefusesFields (readNumber "truncated frame type" >>= fun n =>
      if n = 0 then readPadding width else readBody n)
      (.number f.typeNumber :: f.body) what [] := by
    intro width
    refine .number_bind ?_
    rw [if_neg (Nat.ne_of_gt hpos)]
    exact refusesFields_body hfault h
  have hread : decode (bs ++ []) = .error (.frameEncoding what) := hnumber _ bs hwritten
  rwa [List.append_nil] at hread

theorem name_settled (f : Frame) : f.settled.name = f.name := by
  cases f <;> rfl

/-- What is read from the bytes of a frame, if they are all there is: the frame as the wire shows
it, of the same kind, if the wire can carry it, and otherwise what the writer has overlooked. -/
theorem decode_of_encode {f : Frame} (hraw : f.isRaw = false) (hpadding : f ≠ .padding 0)
    {bs : Bytes} (hencode : f.encode = .ok bs) :
    (f.refusal? = none → decode bs = .ok (f.settled, []) ∧ f.settled.name = f.name)
      ∧ (∀ what, f.refusal? = some what → decode bs = .error (.frameEncoding what))
      ∧ (f.refusal? = none ↔ f.WireValid) := by
  have hvalid : f.refusal? = none → f.WireValid := wireValid_of_encode hraw hpadding hencode
  refine ⟨?_, fun what h => decode_eq_error h hencode, hvalid, refusal?_of_wireValid⟩
  intro h
  exact ⟨decode_eq_ok (hvalid h) hencode, name_settled f⟩

/-- As many streams as are allowed, and one more. -/
theorem decode_of_encode_maxStreams :
    decode [0x12, 0xd0, 0, 0, 0, 0, 0, 0, 0] = .ok (.maxStreams true maxStreamCount, [])
      ∧ decode [0x12, 0xd0, 0, 0, 0, 0, 0, 0, 1]
        = .error (.frameEncoding "stream count exceeds 2^60") := by
  have hmost : (Frame.maxStreams true maxStreamCount).encode
      = .ok [0x12, 0xd0, 0, 0, 0, 0, 0, 0, 0] := rfl
  have hmore : (Frame.maxStreams true (maxStreamCount + 1)).encode
      = .ok [0x12, 0xd0, 0, 0, 0, 0, 0, 0, 1] := rfl
  obtain ⟨hread, _⟩ := (decode_of_encode rfl (by simp) hmost).1 (by decide)
  exact ⟨hread, (decode_of_encode rfl (by simp) hmore).2.1 _ (by decide)⟩

/-- Frames that the writer lets through: further ranges and data of either kind that reach too far,
and too many streams. -/
def overreaching : List Frame :=
  [.ack { largest := 1, delay := 0, firstRange := 0, ranges := [⟨0, 0⟩], ecn := none },
    .ack { largest := 2, delay := 0, firstRange := 0, ranges := [⟨0, 1⟩], ecn := none },
    .crypto lastPosition [0],
    .stream { streamId := 0, offset := lastPosition, hasOffset := true, hasLength := true,
              fin := false, data := [0] },
    .maxStreams true (maxStreamCount + 1), .streamsBlocked false (maxStreamCount + 1)]

/-- They are written, and none of them is read back. -/
theorem overreaching_refused :
    overreaching.map (fun f => f.encode.isOk) = List.replicate 6 true
      ∧ overreaching.map (fun f => f.encode.bind decode) =
        [.error (.frameEncoding "ACK gap below zero"),
          .error (.frameEncoding "ACK range below zero"),
          .error (.frameEncoding "CRYPTO data beyond 2^62"),
          .error (.frameEncoding "STREAM data beyond 2^62"),
          .error (.frameEncoding "stream count exceeds 2^60"),
          .error (.frameEncoding "stream count exceeds 2^60")] :=
  ⟨rfl, rfl⟩

/-! ## Frames by themselves -/

/-- The frame can be written, and its bytes with nothing else there are read as a frame. -/
def ReadsAlone (f : Frame) : Prop :=
  ∃ bs, f.encode = .ok bs ∧ ∃ g after, decode bs = .ok (g, after)

/-- A frame that the wire can carry can be written. -/
theorem exists_encode_of_wireValid {f : Frame} (h : f.WireValid) : ∃ bs, f.encode = .ok bs := by
  rcases f.isPadding_cases with hpadding | ⟨length, rfl⟩
  · have hend : f.isOpenEnded = true → ([] : Bytes) = [] := fun _ => rfl
    obtain ⟨first, body, hbytes, _⟩ := encode_decode_of_isPadding_eq_false h hpadding hend
    exact ⟨_, hbytes⟩
  · exact ⟨_, encode_padding length⟩

/-- Apart from what owners write on their own, the frames whose bytes are read back are exactly
those that the wire can carry. -/
theorem readsAlone_iff {f : Frame} (hraw : f.isRaw = false) : f.ReadsAlone ↔ f.WireValid := by
  constructor
  · rintro ⟨bs, hencode, g, after, hread⟩
    have hpadding : f ≠ .padding 0 := by
      rintro rfl
      cases hencode
      cases hread
    refine wireValid_of_encode hraw hpadding hencode (Option.eq_none_iff_forall_ne_some.2 ?_)
    intro what hrefused
    rw [decode_eq_error hrefused hencode] at hread
    cases hread
  · intro hvalid
    obtain ⟨bs, hencode⟩ := exists_encode_of_wireValid hvalid
    exact ⟨bs, hencode, f.settled, [], decode_eq_ok hvalid hencode⟩

end Frame

end QuicTransport
