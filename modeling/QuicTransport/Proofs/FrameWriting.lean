import Mathlib.Algebra.Order.Ring.Nat
import QuicTransport.Proofs.FrameAcceptance
import QuicTransport.Proofs.VarIntPadding

set_option autoImplicit false

/-! # Writing a frame into a buffer

A writer with a buffer appends field after field, and it may find out late that a field has no room
on the wire. `Frame.write` is that writer: it leaves everything that it wrote before it failed, and
`Frame.writeOrRevert` cuts the buffer back to where it began. `Frame.appendTo` decides first and
writes then, and nobody can tell the two apart (`Frame.appendTo_eq_writeOrRevert`).

The length of a frame is counted over its fields. `Frame.size` is the same count written out kind by
kind, as the owner of a packet buffer would do it, and `Frame.writtenNumbers` are the numbers that
the wire must have room for. A frame is refused for one of these numbers, or because it contradicts
itself, and for nothing else (`Frame.encode_eq_error_iff`). -/

namespace QuicTransport

/-! ## Fields -/

namespace Field

/-- Append a field to a buffer. -/
def write (buffer : Bytes) (f : Field) : Result Unit × Bytes :=
  match f.encode with
  | .ok bs => (.ok (), buffer ++ bs)
  | .error e => (.error e, buffer)

/-- Append fields to a buffer, up to the first one that cannot be written. -/
def writeAll (buffer : Bytes) : List Field → Result Unit × Bytes
  | [] => (.ok (), buffer)
  | f :: fs =>
    match f.write buffer with
    | (.ok _, grown) => writeAll grown fs
    | (.error e, grown) => (.error e, grown)

theorem writeAll_of_encodeAll {fs : List Field} {bs : Bytes} (h : encodeAll fs = .ok bs)
    (buffer : Bytes) : writeAll buffer fs = (.ok (), buffer ++ bs) := by
  induction fs generalizing bs buffer with
  | nil =>
    injection h with h
    simp [writeAll, ← h]
  | cons f fs ih =>
    obtain ⟨front, back, hf, hfs, rfl⟩ := encodeAll_cons_eq_ok h
    simp [writeAll, write, hf, ih hfs]

/-- A writer that fails has already written the fields in front. -/
theorem writeAll_of_encodeAll_eq_error {fs : List Field} {e : Error} (h : encodeAll fs = .error e)
    (buffer : Bytes) : ∃ written, writeAll buffer fs = (.error e, buffer ++ written) := by
  induction fs generalizing buffer with
  | nil => cases h
  | cons f fs ih =>
    rw [encodeAll] at h
    rcases Result.bind_eq_error.1 h with hf | ⟨front, hf, h⟩
    · exact ⟨[], by simp [writeAll, write, hf]⟩
    · rcases Result.bind_eq_error.1 h with hfs | ⟨back, _, hback⟩
      · obtain ⟨written, hwritten⟩ := ih hfs (buffer ++ front)
        exact ⟨front ++ written, by simp [writeAll, write, hf, hwritten]⟩
      · cases hback

/-- The number of a field, if it is one. -/
def number? : Field → Option Nat
  | .number n => some n
  | .octets _ => none

/-- Whether a number has no room in a variable-length integer. -/
def isTooLarge (n : Nat) : Bool := decide (0x4000000000000000 ≤ n)

/-- Fields are refused for their numbers only, and the first one that is too large decides. -/
theorem encodeAll_eq_error_iff {fs : List Field} {e : Error} :
    encodeAll fs = .error e
      ↔ ∃ n, (fs.filterMap number?).find? isTooLarge = some n ∧ e = .varIntOutOfRange n := by
  induction fs with
  | nil => simp [encodeAll]
  | cons f fs ih =>
    have hbind : ∀ {front}, f.encode = .ok front →
        (encodeAll (f :: fs) = .error e ↔ encodeAll fs = .error e) := by
      intro front hf
      rw [encodeAll, hf]
      cases encodeAll fs <;> simp [bind, Except.bind, pure, Except.pure]
    cases f with
    | octets bs => simpa [number?] using (hbind rfl).trans ih
    | number n =>
      by_cases hroom : n < 0x4000000000000000
      · simpa [number?, isTooLarge, Nat.not_le.2 hroom] using
          (hbind (VarInt.put_of_lt hroom)).trans ih
      · have hlarge := Nat.le_of_not_lt hroom
        have hfirst : encodeAll (.number n :: fs) = .error (.varIntOutOfRange n) := by
          rw [encodeAll, encode, VarInt.put_of_le hlarge]
          rfl
        simp [hfirst, number?, isTooLarge, hlarge, eq_comm]

end Field

namespace Frame

/-! ## What the wire has to hold -/

/-- The numbers that are written as variable-length integers, in the order of writing. Padding is
written without its length, and the length of a connection identifier takes a byte of its own. -/
def writtenNumbers (f : Frame) : List Nat :=
  match f with
  | .padding _ => []
  | .ping => [f.typeNumber]
  | .ack a =>
    [f.typeNumber, a.largest, a.delay, a.ranges.length, a.firstRange]
      ++ a.ranges.flatMap (fun r => [r.gap, r.length])
      ++ (a.ecn.map fun c => [c.ect0, c.ect1, c.ce]).getD []
  | .resetStream streamId errorCode finalSize => [f.typeNumber, streamId, errorCode, finalSize]
  | .stopSending streamId errorCode => [f.typeNumber, streamId, errorCode]
  | .crypto offset data => [f.typeNumber, offset, data.length]
  | .newToken token => [f.typeNumber, token.length]
  | .stream s =>
    [f.typeNumber, s.streamId] ++ (if s.writesOffset then [s.offset] else [])
      ++ (if s.hasLength then [s.data.length] else [])
  | .maxData maximum => [f.typeNumber, maximum]
  | .maxStreamData streamId maximum => [f.typeNumber, streamId, maximum]
  | .maxStreams _ maximum => [f.typeNumber, maximum]
  | .dataBlocked maximum => [f.typeNumber, maximum]
  | .streamDataBlocked streamId maximum => [f.typeNumber, streamId, maximum]
  | .streamsBlocked _ maximum => [f.typeNumber, maximum]
  | .newConnectionId i => [f.typeNumber, i.sequenceNumber, i.retirePriorTo]
  | .retireConnectionId sequenceNumber => [f.typeNumber, sequenceNumber]
  | .pathChallenge _ => [f.typeNumber]
  | .pathResponse _ => [f.typeNumber]
  | .connectionClose c => [f.typeNumber, c.errorCode] ++ c.frameType.toList ++ [c.reason.length]
  | .handshakeDone => [f.typeNumber]
  | .raw frameType _ => [frameType]

theorem filterMap_number?_layout (f : Frame) :
    f.layout.filterMap Field.number? = f.writtenNumbers := by
  cases f with
  | ack a =>
    have hranges : (a.ranges.flatMap AckRange.layout).filterMap Field.number?
        = a.ranges.flatMap (fun r => [r.gap, r.length]) := by
      rw [List.filterMap_flatMap]
      rfl
    cases hecn : a.ecn <;>
      simp [layout, body, Ack.layout, EcnCounts.layout, writtenNumbers, Field.number?, hranges,
        hecn]
  | stream s =>
    by_cases hoffset : s.writesOffset = true <;> by_cases hlength : s.hasLength = true <;>
      simp [layout, body, StreamChunk.layout, writtenNumbers, Field.number?, hoffset, hlength]
  | connectionClose c =>
    cases htype : c.frameType <;>
      simp [layout, body, Closing.layout, Field.counted, writtenNumbers, Field.number?, htype]
  | _ =>
    simp [layout, body, IssuedConnectionId.layout, Field.counted, writtenNumbers, Field.number?,
      typeNumber]

/-- Whether the frame says something that no reader would believe. -/
def Contradicts : Frame → Prop
  | .ack a => a.largest < a.firstRange
  | .newToken token => token = []
  | .newConnectionId i => i.connectionId.bytes = [] ∨ i.sequenceNumber < i.retirePriorTo
  | _ => False

theorem fault?_eq_none_iff {f : Frame} : f.fault? = none ↔ ¬ f.Contradicts := by
  cases f with
  | ack a => simp [fault?, Contradicts]
  | newToken token => simp [fault?, Contradicts]
  | newConnectionId i =>
    by_cases hid : i.connectionId.bytes = [] <;>
      simp [fault?, Contradicts, ConnectionId.isEmpty, hid]
  | _ => simp [fault?, Contradicts]

/-- A frame is refused because it contradicts itself, or else for the first of its numbers that is
too large. -/
theorem encode_eq_error_iff {f : Frame} {e : Error} :
    f.encode = .error e ↔
      (∃ detail, f.fault? = some detail ∧ e = .frameEncoding detail)
        ∨ f.fault? = none ∧ ∃ n, f.writtenNumbers.find? Field.isTooLarge = some n
          ∧ e = .varIntOutOfRange n := by
  rw [encode, ← filterMap_number?_layout]
  cases hfault : f.fault? with
  | some detail => simp [eq_comm]
  | none => simp [Field.encodeAll_eq_error_iff]

/-! ## The length, kind by kind -/

open VarInt (lengthOf)

/-- The number of bytes that a frame takes, counted kind by kind. -/
def size (f : Frame) : Nat :=
  match f with
  | .padding length => length
  | .ping => lengthOf f.typeNumber
  | .ack a =>
    lengthOf f.typeNumber + lengthOf a.largest + lengthOf a.delay + lengthOf a.ranges.length
      + lengthOf a.firstRange
      + (a.ranges.map fun r => lengthOf r.gap + lengthOf r.length).sum
      + (a.ecn.map fun c => lengthOf c.ect0 + lengthOf c.ect1 + lengthOf c.ce).getD 0
  | .resetStream streamId errorCode finalSize =>
    lengthOf f.typeNumber + lengthOf streamId + lengthOf errorCode + lengthOf finalSize
  | .stopSending streamId errorCode =>
    lengthOf f.typeNumber + lengthOf streamId + lengthOf errorCode
  | .crypto offset data =>
    lengthOf f.typeNumber + lengthOf offset + lengthOf data.length + data.length
  | .newToken token => lengthOf f.typeNumber + lengthOf token.length + token.length
  | .stream s =>
    lengthOf f.typeNumber + lengthOf s.streamId + s.data.length
      + (if s.writesOffset then lengthOf s.offset else 0)
      + (if s.hasLength then lengthOf s.data.length else 0)
  | .maxData maximum => lengthOf f.typeNumber + lengthOf maximum
  | .maxStreamData streamId maximum =>
    lengthOf f.typeNumber + lengthOf streamId + lengthOf maximum
  | .maxStreams _ maximum => lengthOf f.typeNumber + lengthOf maximum
  | .dataBlocked maximum => lengthOf f.typeNumber + lengthOf maximum
  | .streamDataBlocked streamId maximum =>
    lengthOf f.typeNumber + lengthOf streamId + lengthOf maximum
  | .streamsBlocked _ maximum => lengthOf f.typeNumber + lengthOf maximum
  | .newConnectionId i =>
    lengthOf f.typeNumber + lengthOf i.sequenceNumber + lengthOf i.retirePriorTo + 1
      + i.connectionId.length + 16
  | .retireConnectionId sequenceNumber => lengthOf f.typeNumber + lengthOf sequenceNumber
  | .pathChallenge _ => lengthOf f.typeNumber + 8
  | .pathResponse _ => lengthOf f.typeNumber + 8
  | .connectionClose c =>
    lengthOf f.typeNumber + lengthOf c.errorCode + (c.frameType.map lengthOf).getD 0
      + lengthOf c.reason.length + c.reason.length
  | .handshakeDone => lengthOf f.typeNumber
  | .raw frameType payload => lengthOf frameType + payload.length

theorem encodedLength_eq_sum (f : Frame) : f.encodedLength = (f.layout.map Field.length).sum := by
  rw [encodedLength, List.sum_eq_foldr, List.foldr_map]

/-- The two ways to count agree. -/
theorem encodedLength_eq_size (f : Frame) : f.encodedLength = f.size := by
  rw [encodedLength_eq_sum]
  cases f with
  | ack a =>
    have hranges : ((a.ranges.flatMap AckRange.layout).map Field.length).sum
        = (a.ranges.map fun r => lengthOf r.gap + lengthOf r.length).sum := by
      induction a.ranges with
      | nil => rfl
      | cons r rs ih => simp [AckRange.layout, Field.length, ih, Nat.add_assoc]
    cases hecn : a.ecn <;>
      simp [layout, body, Ack.layout, EcnCounts.layout, size, Field.length, hranges, hecn] <;> omega
  | stream s =>
    by_cases hoffset : s.writesOffset = true <;> by_cases hlength : s.hasLength = true <;>
      simp [layout, body, StreamChunk.layout, size, Field.length, hoffset, hlength] <;> omega
  | connectionClose c =>
    cases htype : c.frameType <;>
      simp [layout, body, Closing.layout, Field.counted, size, Field.length, htype] <;> omega
  | newConnectionId i =>
    simp [layout, body, IssuedConnectionId.layout, size, Field.length, i.resetToken.property,
      ConnectionId.length]
    omega
  | pathChallenge data => simp [layout, body, size, Field.length, data.property]
  | pathResponse data => simp [layout, body, size, Field.length, data.property]
  | _ => simp [layout, body, Field.counted, size, Field.length, typeNumber, Nat.add_assoc]

/-! ## Writing in place -/

/-- Append a frame to a buffer, with no way back: the type number first, then the fields. -/
def write (buffer : Bytes) (f : Frame) : Result Unit × Bytes :=
  match f with
  | .padding length => (.ok (), buffer ++ List.replicate length 0)
  | f =>
    match (Field.number f.typeNumber).write buffer with
    | (.ok _, grown) =>
      match f.fault? with
      | some detail => (.error (.frameEncoding detail), grown)
      | none => Field.writeAll grown f.body
    | (.error e, grown) => (.error e, grown)

/-- Append a frame to a buffer and count what was written. A failure cuts the buffer back. -/
def writeOrRevert (buffer : Bytes) (f : Frame) : Result Nat × Bytes :=
  match f.write buffer with
  | (.ok _, grown) => (.ok (grown.length - buffer.length), grown)
  | (.error e, grown) => (.error e, grown.take buffer.length)

theorem write_of_fault?_eq_none {f : Frame} (h : f.fault? = none) (buffer : Bytes) :
    f.write buffer = Field.writeAll buffer f.layout := by
  cases hpadding : f.isPadding with
  | true =>
    cases f with
    | padding length => rfl
    | _ => cases hpadding
  | false =>
    rw [layout_of_isPadding_eq_false hpadding, Field.writeAll]
    cases f with
    | padding length => cases hpadding
    | _ => simp only [write, h]

/-- A fault is found when the type number has been written. -/
theorem write_of_fault? {f : Frame} {detail : String} (h : f.fault? = some detail)
    (buffer : Bytes) :
    ∃ written, f.write buffer = (.error (.frameEncoding detail), buffer ++ written) := by
  have hraw : f.isRaw = false := by
    cases f with
    | raw frameType payload => cases h
    | _ => rfl
  have hpadding : f.isPadding = false := by
    cases f with
    | padding length => cases h
    | _ => rfl
  have hroom : f.typeNumber < 0x4000000000000000 := by
    have hsmall := (typeNumber_bounds hraw hpadding).2
    omega
  refine ⟨VarInt.encode ⟨f.typeNumber, hroom⟩, ?_⟩
  cases f with
  | padding length => cases hpadding
  | _ => simp [write, Field.write, Field.encode, VarInt.put_of_lt hroom, h]

theorem write_of_encode {f : Frame} {bs : Bytes} (h : f.encode = .ok bs) (buffer : Bytes) :
    f.write buffer = (.ok (), buffer ++ bs) := by
  obtain ⟨hfault, hfields⟩ := encode_eq_ok h
  rw [write_of_fault?_eq_none hfault, Field.writeAll_of_encodeAll hfields]

theorem write_of_encode_eq_error {f : Frame} {e : Error} (h : f.encode = .error e)
    (buffer : Bytes) : ∃ written, f.write buffer = (.error e, buffer ++ written) := by
  cases hfault : f.fault? with
  | some detail =>
    rw [encode, hfault] at h
    cases h
    exact write_of_fault? hfault buffer
  | none =>
    rw [encode, hfault] at h
    rw [write_of_fault?_eq_none hfault]
    exact Field.writeAll_of_encodeAll_eq_error h buffer

theorem appendTo_eq_writeOrRevert (buffer : Bytes) (f : Frame) :
    f.appendTo buffer = f.writeOrRevert buffer := by
  cases h : f.encode with
  | ok bs => simp [appendTo, writeOrRevert, h, write_of_encode h]
  | error e =>
    obtain ⟨written, hwritten⟩ := write_of_encode_eq_error h buffer
    simp [appendTo, writeOrRevert, h, hwritten]

/-! ## Exact, independent of the buffer, all or nothing -/

theorem exists_encode_eq_error_iff {f : Frame} :
    (∃ e, f.encode = .error e) ↔ (∃ n ∈ f.writtenNumbers, 2 ^ 62 ≤ n) ∨ f.Contradicts := by
  constructor
  · rintro ⟨e, h⟩
    rcases encode_eq_error_iff.1 h with ⟨detail, hfault, _⟩ | ⟨_, n, hfind, _⟩
    · have hfault' : f.fault? ≠ none := by simp [hfault]
      exact Or.inr (by simpa [fault?_eq_none_iff] using hfault')
    · have hlarge : 2 ^ 62 ≤ n := by simpa [Field.isTooLarge] using List.find?_some hfind
      exact Or.inl ⟨n, List.mem_of_find?_eq_some hfind, hlarge⟩
  · intro h
    cases hfault : f.fault? with
    | some detail => exact ⟨_, encode_eq_error_iff.2 (Or.inl ⟨detail, hfault, rfl⟩)⟩
    | none =>
      rcases h with ⟨n, hmem, hlarge⟩ | hcontradicts
      · have hfind : (f.writtenNumbers.find? Field.isTooLarge).isSome = true := by
          simpa [Field.isTooLarge] using ⟨n, hmem, hlarge⟩
        obtain ⟨m, hm⟩ := Option.isSome_iff_exists.1 hfind
        exact ⟨_, encode_eq_error_iff.2 (Or.inr ⟨hfault, m, hm, rfl⟩)⟩
      · exact absurd hcontradicts (fault?_eq_none_iff.1 hfault)

/-- A frame either adds as many bytes as it is long, the same ones behind every buffer, or leaves
every buffer as it was. It is refused exactly if one of the numbers to be written has no room or the
frame contradicts itself. All of this holds of the writer that goes field by field and cuts the
buffer back after a failure. -/
theorem appendTo_exact (f : Frame) :
    (∀ buffer, appendTo buffer f = writeOrRevert buffer f)
      ∧ f.encodedLength = f.size
      ∧ ((∃ bs : Bytes, bs.length = f.encodedLength
            ∧ ∀ buffer, appendTo buffer f = (.ok f.encodedLength, buffer ++ bs))
          ∨ ∃ e, ∀ buffer, appendTo buffer f = (.error e, buffer))
      ∧ ∀ buffer, (∃ e, (appendTo buffer f).1 = .error e)
          ↔ (∃ n ∈ f.writtenNumbers, 2 ^ 62 ≤ n) ∨ f.Contradicts := by
  refine ⟨fun buffer => appendTo_eq_writeOrRevert buffer f, encodedLength_eq_size f, ?_, ?_⟩
  · cases h : f.encode with
    | ok bs =>
      have hlength := length_of_encode h
      exact Or.inl ⟨bs, hlength, fun buffer => by simp [appendTo, h, hlength]⟩
    | error e => exact Or.inr ⟨e, fun buffer => by simp [appendTo, h]⟩
  · intro buffer
    rw [← exists_encode_eq_error_iff, appendTo]
    cases f.encode <;> simp

/-- A writer that got as far as the last of three numbers takes back the first two. -/
example :
    let f := Frame.resetStream 1 2 (2 ^ 62)
    f.write [7] = (.error (.varIntOutOfRange (2 ^ 62)), [7, 4, 1, 2])
      ∧ f.writeOrRevert [7] = (.error (.varIntOutOfRange (2 ^ 62)), [7]) := by
  decide

end Frame

end QuicTransport
