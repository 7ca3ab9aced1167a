import QuicTransport.Proofs.FrameGrammar

set_option autoImplicit false

/-! # A frame that is written is read back

A frame that the wire can carry (`Frame.WireValid`) has only numbers with room, so its fields can be
written. They are then at the front of what was written, where the reader finds them
(`encode_decode_of_isPadding_eq_false`). The type number in front decides which fields come, so the
match is made once for every type (`readBody_of_opens`).

What is read is not always what was written. The reader cannot know whether a position was written
on request or because it had to be, so it marks it as requested whenever it is there
(`Frame.settled`). -/

namespace QuicTransport

/-! ## Numbers that have room -/

/-- A number has room in a variable-length integer. -/
def FitsVarInt (n : Nat) : Prop := n < 0x4000000000000000

namespace Field

theorem fits_of_encodeAll {fs : List Field} {bs : Bytes} (h : encodeAll fs = .ok bs) {n : Nat}
    (hmem : .number n ∈ fs) : FitsVarInt n := by
  induction fs generalizing bs with
  | nil => cases hmem
  | cons f fs ih =>
    obtain ⟨front, back, hf, hfs, rfl⟩ := encodeAll_cons_eq_ok h
    rcases List.mem_cons.1 hmem with rfl | hmem
    · obtain ⟨hroom, _⟩ := VarInt.put_eq_ok hf
      exact hroom
    · exact ih hfs hmem

/-- A field that can be written. -/
def Fits : Field → Prop
  | .number n => FitsVarInt n
  | .octets _ => True

theorem exists_encodeAll {fs : List Field} (h : ∀ f ∈ fs, f.Fits) :
    ∃ bs, encodeAll fs = .ok bs := by
  induction fs with
  | nil => exact ⟨[], rfl⟩
  | cons f fs ih =>
    obtain ⟨hf, hfs⟩ := List.forall_mem_cons.1 h
    obtain ⟨back, hback⟩ := ih hfs
    cases f with
    | number n => exact ⟨_, encodeAll_cons (VarInt.put_of_lt hf) hback⟩
    | octets as => exact ⟨_, encodeAll_cons rfl hback⟩

end Field

namespace Frame

open QuicTransport.Field (Opens)

/-! ## Frames that the wire can carry -/

/-- A frame that the wire can carry: its numbers, written lengths among them, have room, and it
does not contradict itself. -/
def WireValid : Frame → Prop
  | .padding length => 0 < length
  | .ping => True
  | .ack a =>
    FitsVarInt a.largest ∧ FitsVarInt a.delay ∧ a.firstRange ≤ a.largest
      ∧ RangesFit (a.largest - a.firstRange) a.ranges
      ∧ ∀ c, a.ecn = some c → FitsVarInt c.ect0 ∧ FitsVarInt c.ect1 ∧ FitsVarInt c.ce
  | .resetStream streamId errorCode finalSize =>
    FitsVarInt streamId ∧ FitsVarInt errorCode ∧ FitsVarInt finalSize
  | .stopSending streamId errorCode => FitsVarInt streamId ∧ FitsVarInt errorCode
  | .crypto offset data => offset + data.length ≤ lastPosition
  | .newToken token => token ≠ [] ∧ FitsVarInt token.length
  | .stream s => FitsVarInt s.streamId ∧ s.offset + s.data.length ≤ lastPosition
  | .maxData maximum => FitsVarInt maximum
  | .maxStreamData streamId maximum => FitsVarInt streamId ∧ FitsVarInt maximum
  | .maxStreams _ maximum => maximum ≤ maxStreamCount
  | .dataBlocked maximum => FitsVarInt maximum
  | .streamDataBlocked streamId maximum => FitsVarInt streamId ∧ FitsVarInt maximum
  | .streamsBlocked _ maximum => maximum ≤ maxStreamCount
  | .newConnectionId i =>
    FitsVarInt i.sequenceNumber ∧ i.retirePriorTo ≤ i.sequenceNumber ∧ 0 < i.connectionId.length
  | .retireConnectionId sequenceNumber => FitsVarInt sequenceNumber
  | .pathChallenge _ => True
  | .pathResponse _ => True
  | .connectionClose c =>
    FitsVarInt c.errorCode ∧ (∀ t, c.frameType = some t → FitsVarInt t)
      ∧ FitsVarInt c.reason.length
  | .handshakeDone => True
  | .raw _ _ => False

/-- The frame as the wire shows it: a position that is written counts as requested. -/
def settled : Frame → Frame
  | .stream s => .stream { s with hasOffset := s.writesOffset }
  | f => f

/-- Whether the frame has no end of its own and reaches to the end of the packet. -/
def isOpenEnded : Frame → Bool
  | .stream s => !s.hasLength
  | _ => false

/-- Whether the frame is one that its owner wrote and no reader knows. -/
def isRaw : Frame → Bool
  | .raw _ _ => true
  | _ => false

theorem isRaw_of_wireValid {f : Frame} (h : f.WireValid) : f.isRaw = false := by
  cases f with
  | raw frameType payload => exact h.elim
  | _ => rfl

/-- Nothing but their numbers stands in the way of such frames. -/
theorem fault?_of_wireValid {f : Frame} (h : f.WireValid) : f.fault? = none := by
  cases f with
  | ack a =>
    rw [fault?, if_neg (by have := h.2.2.1; omega)]
  | newToken token =>
    rw [fault?, if_neg (by simpa using h.1)]
  | newConnectionId i =>
    have hne : i.connectionId.isEmpty = false := by
      have hpos := h.2.2
      rw [ConnectionId.length, List.length_pos_iff] at hpos
      simpa [ConnectionId.isEmpty] using hpos
    rw [fault?, hne, if_neg (by simp), if_neg (by have := h.2.1; omega)]
  | _ => rfl

/-- A range takes up two packet numbers or more, so ranges that fit are few enough to count. -/
theorem length_le_of_rangesFit {ranges : List AckRange} {smallest : Nat}
    (h : RangesFit smallest ranges) : ranges.length ≤ smallest := by
  induction ranges generalizing smallest with
  | nil => exact Nat.zero_le _
  | cons r rs ih =>
    have hrest := ih h.2
    have hfirst := h.1
    rw [List.length_cons]
    omega

theorem fits_of_rangesFit {ranges : List AckRange} {smallest : Nat}
    (hsmallest : FitsVarInt smallest) (h : RangesFit smallest ranges) :
    ∀ field ∈ ranges.flatMap AckRange.layout, field.Fits := by
  unfold FitsVarInt at hsmallest
  induction ranges generalizing smallest with
  | nil => exact List.forall_mem_nil _
  | cons r rs ih =>
    obtain ⟨hfirst, hrest⟩ := h
    have hgap : FitsVarInt r.gap := by
      unfold FitsVarInt
      omega
    have hlength : FitsVarInt r.length := by
      unfold FitsVarInt
      omega
    have hmore := ih (by omega) hrest
    simp only [List.flatMap_cons, AckRange.layout, List.cons_append, List.nil_append,
      List.forall_mem_cons]
    exact ⟨hgap, hlength, hmore⟩

/-- All fields of such a frame can be written. -/
theorem fits_of_wireValid {f : Frame} (h : f.WireValid) : ∀ field ∈ f.body, field.Fits := by
  cases f with
  | padding length => exact List.forall_mem_nil _
  | ping => exact List.forall_mem_nil _
  | ack a =>
    obtain ⟨hlargest, hdelay, hfirst, hranges, hecn⟩ := h
    have hcount := length_le_of_rangesFit hranges
    have hbelow : ∀ n ≤ a.largest, FitsVarInt n := fun n hn => Nat.lt_of_le_of_lt hn hlargest
    have hcounts : ∀ field ∈ (a.ecn.map EcnCounts.layout).getD [], field.Fits := by
      cases hfound : a.ecn with
      | none => exact List.forall_mem_nil _
      | some c => simpa [EcnCounts.layout, Field.Fits] using hecn c hfound
    simp only [body, Ack.layout, List.cons_append, List.nil_append, List.forall_mem_cons,
      List.forall_mem_append]
    exact ⟨hlargest, hdelay, hbelow _ (by omega), hbelow _ hfirst,
      fits_of_rangesFit (hbelow _ (by omega)) hranges, hcounts⟩
  | resetStream streamId errorCode finalSize => simpa [body, Field.Fits, WireValid] using h
  | stopSending streamId errorCode => simpa [body, Field.Fits, WireValid] using h
  | crypto offset data =>
    have hbelow : ∀ n ≤ offset + data.length, FitsVarInt n := fun n hn =>
      Nat.lt_of_le_of_lt (Nat.le_trans hn h) (by decide)
    have hoffset := hbelow offset (Nat.le_add_right _ _)
    have hlength := hbelow data.length (Nat.le_add_left _ _)
    simpa [body, Field.counted, Field.Fits] using ⟨hoffset, hlength⟩
  | newToken token => simpa [body, Field.counted, Field.Fits] using h.2
  | stream s =>
    obtain ⟨hid, hlast⟩ := h
    have hbelow : ∀ n ≤ s.offset + s.data.length, FitsVarInt n := fun n hn =>
      Nat.lt_of_le_of_lt (Nat.le_trans hn hlast) (by decide)
    have hoffset := hbelow s.offset (Nat.le_add_right _ _)
    have hlength := hbelow s.data.length (Nat.le_add_left _ _)
    simp only [body, StreamChunk.layout, List.forall_mem_cons, List.forall_mem_append]
    refine ⟨hid, ⟨?_, ?_⟩, trivial, List.forall_mem_nil _⟩
    · split
      · simpa [Field.Fits] using hoffset
      · exact List.forall_mem_nil _
    · split
      · simpa [Field.Fits] using hlength
      · exact List.forall_mem_nil _
  | maxData maximum => simpa [body, Field.Fits, WireValid] using h
  | maxStreamData streamId maximum => simpa [body, Field.Fits, WireValid] using h
  | maxStreams bidirectional maximum =>
    have hroom : FitsVarInt maximum := Nat.lt_of_le_of_lt h (by decide)
    simpa [body, Field.Fits] using hroom
  | dataBlocked maximum => simpa [body, Field.Fits, WireValid] using h
  | streamDataBlocked streamId maximum => simpa [body, Field.Fits, WireValid] using h
  | streamsBlocked bidirectional maximum =>
    have hroom : FitsVarInt maximum := Nat.lt_of_le_of_lt h (by decide)
    simpa [body, Field.Fits] using hroom
  | newConnectionId i =>
    obtain ⟨hsequence, hretire, _⟩ := h
    have hbelow : FitsVarInt i.retirePriorTo := Nat.lt_of_le_of_lt hretire hsequence
    simpa [body, IssuedConnectionId.layout, Field.Fits] using ⟨hsequence, hbelow⟩
  | retireConnectionId sequenceNumber => simpa [body, Field.Fits, WireValid] using h
  | pathChallenge data => simp [body, Field.Fits]
  | pathResponse data => simp [body, Field.Fits]
  | connectionClose c =>
    obtain ⟨hcode, htype, hlength⟩ := h
    simpa [body, Closing.layout, Field.counted, Field.Fits, or_imp, forall_and]
      using ⟨hcode, htype, hlength⟩
  | handshakeDone => exact List.forall_mem_nil _
  | raw frameType payload => exact h.elim

/-! ## Every type -/

/-- Where a type comes in variants, the type number tells the reader which one it is. -/
theorem readBody_ack (a : Ack) :
    readBody (Frame.ack a).typeNumber = Frame.ack <$> readAck a.ecn.isSome := by
  rw [typeNumber]
  cases a.ecn.isSome <;> rfl

theorem readBody_stream (s : StreamChunk) :
    readBody (Frame.stream s).typeNumber =
      Frame.stream <$> readStream s.writesOffset s.hasLength s.fin := by
  rw [typeNumber]
  cases s.writesOffset <;> cases s.hasLength <;> cases s.fin <;> rfl

theorem readBody_closing (c : Closing) :
    readBody (Frame.connectionClose c).typeNumber =
      Frame.connectionClose <$> readClosing c.frameType.isSome := by
  rw [typeNumber]
  cases c.frameType.isSome <;> rfl

theorem typeNumber_bounds {f : Frame} (hraw : f.isRaw = false) (hpadding : f.isPadding = false) :
    0 < f.typeNumber ∧ f.typeNumber < 0x40 := by
  cases f with
  | padding length => cases hpadding
  | ack a =>
    rw [typeNumber]
    split <;> decide
  | stream s =>
    rw [typeNumber]
    cases s.writesOffset <;> cases s.hasLength <;> cases s.fin <;> decide
  | maxStreams bidirectional maximum =>
    rw [typeNumber]
    split <;> decide
  | streamsBlocked bidirectional maximum =>
    rw [typeNumber]
    split <;> decide
  | connectionClose c =>
    rw [typeNumber]
    split <;> decide
  | raw frameType payload => cases hraw
  | _ => simp [typeNumber]

theorem layout_of_isPadding_eq_false {f : Frame} (hpadding : f.isPadding = false) :
    f.layout = .number f.typeNumber :: f.body := by
  cases f with
  | padding length => cases hpadding
  | _ => rfl

/-- Where its fields are, a frame that the wire can carry is read. -/
theorem readBody_of_opens {f : Frame} (h : f.WireValid) (hpadding : f.isPadding = false)
    {bs rest : Bytes} (hopens : Opens f.body bs rest) (hend : f.isOpenEnded = true → rest = []) :
    readBody f.typeNumber bs = .ok (f.settled, rest) := by
  cases f with
  | padding length => cases hpadding
  | ping =>
    cases hopens
    rfl
  | ack a =>
    obtain ⟨_, _, hfirst, hranges, _⟩ := h
    rw [readBody_ack]
    exact Reader.map_eq_ok.2 ⟨a, readAck_eq_ok.2 ⟨rfl, hfirst, hranges, hopens⟩, rfl⟩
  | resetStream streamId errorCode finalSize => exact triple_eq_ok.2 ⟨_, _, _, rfl, hopens⟩
  | stopSending streamId errorCode => exact pair_eq_ok.2 ⟨_, _, rfl, hopens⟩
  | crypto offset data => exact readCrypto_eq_ok.2 ⟨offset, data, rfl, h, hopens⟩
  | newToken token => exact readNewToken_eq_ok.2 ⟨token, rfl, h.1, hopens⟩
  | stream s =>
    have hwrites : { s with hasOffset := s.writesOffset }.writesOffset = s.writesOffset := by
      simp [StreamChunk.writesOffset]
    have hlayout : { s with hasOffset := s.writesOffset }.layout = s.layout := by
      rw [StreamChunk.layout, StreamChunk.layout, hwrites]
    rw [readBody_stream]
    refine Reader.map_eq_ok.2 ⟨{ s with hasOffset := s.writesOffset }, readStream_eq_ok.2 ?_, rfl⟩
    exact ⟨⟨hwrites, rfl, rfl⟩, hwrites.symm, h.2, hlayout ▸ hopens,
      by simpa [isOpenEnded] using hend⟩
  | maxData maximum => exact number_eq_ok.2 ⟨_, rfl, hopens⟩
  | maxStreamData streamId maximum => exact pair_eq_ok.2 ⟨_, _, rfl, hopens⟩
  | maxStreams bidirectional maximum =>
    cases bidirectional <;> exact streamCount_eq_ok.2 ⟨_, rfl, h, hopens⟩
  | dataBlocked maximum => exact number_eq_ok.2 ⟨_, rfl, hopens⟩
  | streamDataBlocked streamId maximum => exact pair_eq_ok.2 ⟨_, _, rfl, hopens⟩
  | streamsBlocked bidirectional maximum =>
    cases bidirectional <;> exact streamCount_eq_ok.2 ⟨_, rfl, h, hopens⟩
  | newConnectionId i =>
    obtain ⟨_, hretire, hlength⟩ := h
    exact Reader.map_eq_ok.2 ⟨i, readIssued_eq_ok.2 ⟨hretire, hlength, hopens⟩, rfl⟩
  | retireConnectionId sequenceNumber => exact number_eq_ok.2 ⟨_, rfl, hopens⟩
  | pathChallenge data => exact fixed_eq_ok.2 ⟨_, rfl, hopens⟩
  | pathResponse data => exact fixed_eq_ok.2 ⟨_, rfl, hopens⟩
  | connectionClose c =>
    rw [readBody_closing]
    exact Reader.map_eq_ok.2 ⟨c, readClosing_eq_ok.2 ⟨rfl, hopens⟩, rfl⟩
  | handshakeDone =>
    cases hopens
    rfl
  | raw frameType payload => exact h.elim

/-! ## Whole frames -/

/-- A frame that the wire can carry is read wherever its fields are, its type number among them. -/
theorem decode_of_opens {f : Frame} (h : f.WireValid) (hpadding : f.isPadding = false)
    {bs rest : Bytes} (hopens : Opens f.layout bs rest)
    (hend : f.isOpenEnded = true → rest = []) : decode bs = .ok (f.settled, rest) := by
  obtain ⟨hpos, _⟩ := typeNumber_bounds (isRaw_of_wireValid h) hpadding
  rw [layout_of_isPadding_eq_false hpadding] at hopens
  obtain _ | ⟨hcode, hbody⟩ := hopens
  refine Reader.bind_eq_ok.2 ⟨f.typeNumber, _, readNumber_eq_ok.2 ⟨_, hcode, rfl⟩, ?_⟩
  rw [if_neg (Nat.ne_of_gt hpos)]
  exact readBody_of_opens h hpadding hbody hend

/-- A frame that is not padding is written, and read back in front of whatever follows it. -/
theorem encode_decode_of_isPadding_eq_false {f : Frame} (h : f.WireValid)
    (hpadding : f.isPadding = false) {rest : Bytes} (hend : f.isOpenEnded = true → rest = []) :
    ∃ first bs, f.encode = .ok (first :: bs) ∧ first ≠ 0
      ∧ decode (first :: bs ++ rest) = .ok (f.settled, rest) := by
  obtain ⟨hpos, hsmall⟩ := typeNumber_bounds (isRaw_of_wireValid h) hpadding
  obtain ⟨bs, hbs⟩ := Field.exists_encodeAll (fits_of_wireValid h)
  have hput : (Field.number f.typeNumber).encode = .ok [UInt8.ofNat f.typeNumber] := by
    have hroom : FitsVarInt f.typeNumber := by
      unfold FitsVarInt
      omega
    rw [← VarInt.encode_of_lt (v := ⟨f.typeNumber, hroom⟩) hsmall]
    exact VarInt.put_of_lt hroom
  have hwritten : Field.encodeAll f.layout = .ok (UInt8.ofNat f.typeNumber :: bs) := by
    rw [layout_of_isPadding_eq_false hpadding]
    exact Field.encodeAll_cons hput hbs
  refine ⟨UInt8.ofNat f.typeNumber, bs, ?_, ?_, ?_⟩
  · rw [encode, fault?_of_wireValid h]
    exact hwritten
  · -- a first byte of zero would be padding
    intro hzero
    have hmod := congrArg UInt8.toNat hzero
    rw [UInt8.toNat_ofNat', Nat.mod_eq_of_lt (by omega)] at hmod
    exact Nat.ne_of_gt hpos hmod
  · exact decode_of_opens h hpadding (Opens.of_encodeAll hwritten rest) hend

theorem encode_padding (length : Nat) :
    (Frame.padding length).encode = .ok (List.replicate length 0) := by
  have hfields : Field.encodeAll [.octets (List.replicate length 0)] =
      .ok (List.replicate length 0 ++ []) := Field.encodeAll_cons rfl rfl
  rw [List.append_nil] at hfields
  exact hfields

/-- A type number of zero, at any width, is read together with all the zero bytes behind it. -/
theorem decode_zeros {code rest : Bytes} (hcode : VarInt.IsCode 0 code) (zeros : Nat)
    (hrest : ∀ b, rest.head? = some b → b ≠ 0) :
    decode (code ++ (List.replicate zeros 0 ++ rest)) =
      .ok (.padding (code.length + zeros), rest) := by
  obtain ⟨first, tail, rfl, hwidth⟩ := hcode.exists_cons
  have hrun : Reader.takeWhile (· == 0) (List.replicate zeros 0 ++ rest)
      = .ok (List.replicate zeros 0, rest) :=
    Reader.takeWhile_eq_ok.2 ⟨rfl, by simp, by simpa using hrest⟩
  refine Reader.bind_eq_ok.2 ⟨0, _, readNumber_eq_ok.2 ⟨_, hcode, rfl⟩, ?_⟩
  rw [if_pos rfl]
  refine Reader.map_eq_ok.2 ⟨_, hrun, ?_⟩
  rw [List.length_replicate, ← hwidth]
  rfl

/-- Padding is read together with all the zero bytes behind it. -/
theorem decode_padding (length : Nat) {rest : Bytes} (hrest : ∀ b, rest.head? = some b → b ≠ 0) :
    decode (List.replicate (length + 1) 0 ++ rest) = .ok (.padding (length + 1), rest) := by
  have hcode : VarInt.IsCode 0 [0] := ⟨.one, by decide, rfl⟩
  have hread := decode_zeros hcode length hrest
  rwa [List.length_singleton, Nat.add_comm 1] at hread

end Frame

end QuicTransport
