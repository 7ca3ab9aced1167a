import QuicTransport.Packet
import QuicTransport.Proofs.FrameAcceptance
import QuicTransport.Proofs.FrameSequence

set_option autoImplicit false

/-! # Padding for the header protection sample

A payload that is too short for the sample gets zero bytes at its end, which are meant to be read as
PADDING. They are, as long as the last frame knows where it ends: the padded payload is then what a
longer list of frames would have been written as, with a padding frame at its end, and everything
else is read back as it was.

Data without a length does not know where it ends and takes the zero bytes for its own
(`encode_stream_append`). Few payloads are both so short and open at the end. Data without a length
takes two bytes at least and every other frame one, and no payload of three bytes is padded. What
is left is one kind of packet (`Packet.stretched?`): a packet number of one byte, and one frame that has
nothing in it but the number of its stream. -/

namespace QuicTransport

namespace Frame

/-! ## What frames say apart from padding -/

/-- The frames that are not padding. -/
def content (fs : List Frame) : List Frame := fs.filter fun f => !f.isPadding

theorem content_cons {f : Frame} (h : f.isPadding = false) (fs : List Frame) :
    content (f :: fs) = f :: content fs := by
  rw [content, List.filter_cons_of_pos (by simp [h])]
  rfl

theorem content_padding_cons (length : Nat) (fs : List Frame) :
    content (.padding length :: fs) = content fs := rfl

theorem content_append_padding (fs : List Frame) (length : Nat) :
    content (fs ++ [.padding length]) = content fs := by
  rw [content, List.filter_append]
  exact List.append_nil _

theorem content_addPadding (length : Nat) (fs : List Frame) :
    content (addPadding length fs) = content fs := by
  cases fs with
  | nil => rfl
  | cons f fs => cases f <;> rfl

theorem content_mergePadding (fs : List Frame) : content (mergePadding fs) = content fs := by
  induction fs with
  | nil => rfl
  | cons f fs ih =>
    rcases f.isPadding_cases with hpadding | ⟨length, rfl⟩
    · rw [mergePadding_cons hpadding, content_cons hpadding, content_cons hpadding, ih]
    · rw [mergePadding, content_addPadding, content_padding_cons, ih]

theorem content_map_settled (fs : List Frame) :
    content (fs.map settled) = (content fs).map settled := by
  rw [content, content, List.filter_map]
  congr 2
  funext f
  rw [Function.comp_apply, isPadding_settled]

/-! ## The length of what is written -/

theorem encodedLength_of_isPadding_eq_false {f : Frame} (h : f.isPadding = false) :
    f.encodedLength =
      VarInt.lengthOf f.typeNumber + f.body.foldr (fun field total => field.length + total) 0 := by
  rw [encodedLength, layout_of_isPadding_eq_false h]
  rfl

theorem encodedLength_pos {f : Frame} (h : f.WireValid) : 0 < f.encodedLength := by
  rcases f.isPadding_cases with hpadding | ⟨length, rfl⟩
  · rw [encodedLength_of_isPadding_eq_false hpadding]
    have := lengthOf_pos f.typeNumber
    omega
  · have hlength : (Frame.padding length).encodedLength = length := by
      simp [encodedLength, layout, Field.length]
    rw [hlength]
    exact h

/-- Each frame takes at least one byte. -/
theorem length_le_of_written {fs : List Frame} {parts : List Bytes}
    (hvalid : ∀ f ∈ fs, f.WireValid) (hwritten : fs.map Frame.encode = parts.map .ok) :
    fs.length ≤ parts.flatten.length := by
  induction fs generalizing parts with
  | nil => exact Nat.zero_le _
  | cons f fs ih =>
    cases parts with
    | nil => cases hwritten
    | cons part parts =>
      rw [List.map_cons, List.map_cons, List.cons.injEq] at hwritten
      have hrest := ih (fun g hg => hvalid g (List.mem_cons_of_mem _ hg)) hwritten.2
      have hpos := encodedLength_pos (hvalid f List.mem_cons_self)
      rw [← length_of_encode hwritten.1] at hpos
      rw [List.length_cons, List.flatten_cons, List.length_append]
      omega

end Frame

/-! ## Data without a length -/

namespace StreamChunk

/-- Data that has neither a length nor a position nor any bytes, in a stream whose number takes one
byte: two bytes on the wire, and no end. -/
def isBare (s : StreamChunk) : Bool :=
  !s.hasLength && !s.writesOffset && s.data.isEmpty && decide (s.streamId < 0x40)

theorem isBare_iff {s : StreamChunk} :
    s.isBare = true ↔
      s.hasLength = false ∧ s.writesOffset = false ∧ s.data = [] ∧ s.streamId < 0x40 := by
  simp only [isBare, Bool.and_eq_true, Bool.not_eq_true', List.isEmpty_iff, decide_eq_true_eq,
    and_assoc]

/-- The fields in front of data without a length do not depend on the data. -/
theorem layout_of_hasLength_eq_false {s : StreamChunk} (h : s.hasLength = false) :
    s.layout = (.number s.streamId :: if s.writesOffset then [.number s.offset] else [])
      ++ [.octets s.data] := by
  rw [layout, h]
  simp

end StreamChunk

namespace Frame

/-- Bytes that follow data without a length become part of it. -/
theorem encode_stream_append {s : StreamChunk} (h : s.hasLength = false) {bs : Bytes}
    (hencode : (Frame.stream s).encode = .ok bs) (more : Bytes) :
    (Frame.stream { s with data := s.data ++ more }).encode = .ok (bs ++ more) := by
  have hlayout : ∀ data, (Frame.stream { s with data }).layout =
      (.number (Frame.stream s).typeNumber :: .number s.streamId ::
        if s.writesOffset then [.number s.offset] else []) ++ [.octets data] := by
    intro data
    have hbody : ({ s with data } : StreamChunk).layout =
        (.number s.streamId :: if s.writesOffset then [.number s.offset] else [])
          ++ [.octets data] := StreamChunk.layout_of_hasLength_eq_false h
    rw [layout_of_isPadding_eq_false rfl, body, hbody]
    rfl
  have hwritten : Field.encodeAll (Frame.stream { s with data := s.data }).layout = .ok bs :=
    (encode_eq_ok hencode).2
  rw [hlayout] at hwritten
  obtain ⟨front, back, hfront, hback, rfl⟩ := Field.encodeAll_append_eq_ok hwritten
  cases hback
  change Field.encodeAll (Frame.stream { s with data := s.data ++ more }).layout = _
  rw [hlayout, Field.encodeAll_append hfront (Field.encodeAll_cons rfl rfl), List.append_nil,
    List.append_nil, List.append_assoc]

theorem encodedLength_stream {s : StreamChunk} (h : s.hasLength = false) :
    (Frame.stream s).encodedLength = 1 + VarInt.lengthOf s.streamId
      + (if s.writesOffset then VarInt.lengthOf s.offset else 0) + s.data.length := by
  have hsmall : VarInt.lengthOf (Frame.stream s).typeNumber = 1 := by
    have hbounds := typeNumber_bounds (f := .stream s) rfl rfl
    rw [VarInt.lengthOf, if_pos hbounds.2]
  rw [encodedLength_of_isPadding_eq_false rfl, hsmall, body,
    StreamChunk.layout_of_hasLength_eq_false h]
  cases s.writesOffset with
  | true => simp [Field.length]; omega
  | false => simp [Field.length]; omega

theorem encodedLength_of_isBare {s : StreamChunk} (h : s.isBare = true) :
    (Frame.stream s).encodedLength = 2 := by
  obtain ⟨hlength, hoffset, hdata, hid⟩ := StreamChunk.isBare_iff.1 h
  rw [encodedLength_stream hlength, hoffset, hdata, VarInt.lengthOf, if_pos hid]
  rfl

theorem isBare_of_encodedLength_le {s : StreamChunk} (h : s.hasLength = false)
    (hshort : (Frame.stream s).encodedLength ≤ 2) : s.isBare = true := by
  rw [encodedLength_stream h] at hshort
  have hid := lengthOf_pos s.streamId
  have hoffset := lengthOf_pos s.offset
  rw [StreamChunk.isBare_iff]
  refine ⟨h, ?_, ?_, ?_⟩
  · cases hwrites : s.writesOffset with
    | false => rfl
    | true =>
      rw [hwrites, if_pos rfl] at hshort
      omega
  · exact List.length_eq_zero_iff.1 (by omega)
  · by_contra hlarge
    have hwide : 2 ≤ VarInt.lengthOf s.streamId := by
      rw [VarInt.lengthOf, if_neg hlarge]
      split
      · decide
      · split <;> decide
    omega

/-- Frames without an end among few bytes stand alone. -/
theorem eq_stream_of_short {fs : List Frame} {parts : List Bytes} (hvalid : ∀ f ∈ fs, f.WireValid)
    (hwritten : fs.map Frame.encode = parts.map .ok) {f : Frame} (hmem : f ∈ fs)
    (hend : f.isOpenEnded = true) (hshort : parts.flatten.length ≤ 2) :
    ∃ s, fs = [.stream s] ∧ s.isBare = true := by
  cases f with
  | stream s =>
    have hlength : s.hasLength = false := by simpa [isOpenEnded] using hend
    obtain ⟨front, back, rfl⟩ := List.append_of_mem hmem
    rw [List.map_append, List.map_cons, eq_comm, List.map_eq_append_iff] at hwritten
    obtain ⟨before, others, rfl, hbefore, hothers⟩ := hwritten
    obtain ⟨part, after, rfl, hpart, hafter⟩ := List.map_eq_cons_iff.1 hothers
    have hfront := length_le_of_written
      (fun g hg => hvalid g (List.mem_append_left _ hg)) hbefore.symm
    have hback := length_le_of_written
      (fun g hg => hvalid g (List.mem_append_right _ (List.mem_cons_of_mem _ hg))) hafter.symm
    have hstream := length_of_encode hpart.symm
    have htwo := encodedLength_stream hlength
    have hid := lengthOf_pos s.streamId
    rw [List.flatten_append, List.flatten_cons, List.length_append, List.length_append] at hshort
    have hnone : front = [] ∧ back = [] :=
      ⟨List.length_eq_zero_iff.1 (by omega), List.length_eq_zero_iff.1 (by omega)⟩
    refine ⟨s, ?_, isBare_of_encodedLength_le hlength (by omega)⟩
    rw [hnone.1, hnone.2]
    rfl
  | _ => cases hend

/-! ## Zero bytes at the end -/

theorem survives_of_written {fs : List Frame} {parts : List Bytes}
    (hvalid : ∀ f ∈ fs, f.WireValid) (hopen : ∀ f ∈ fs.dropLast, f.isOpenEnded = false)
    (hwritten : fs.map Frame.encode = parts.map .ok) : Survives fs parts := by
  obtain ⟨parts', hsurvives⟩ := exists_survives hvalid hopen
  have hinjective : Function.Injective (Except.ok (ε := Error) (α := Bytes)) := by
    intro a b h
    injection h
  have heq : parts.map Except.ok = parts'.map (Except.ok (ε := Error)) :=
    hwritten.symm.trans hsurvives.encode
  rw [List.map_injective_iff.2 hinjective heq]
  exact hsurvives

/-- Zero bytes after frames that all know where they end are read as padding. -/
theorem decodeAll_append_zeros {fs : List Frame} {parts : List Bytes}
    (hvalid : ∀ f ∈ fs, f.WireValid) (hopen : ∀ f ∈ fs.dropLast, f.isOpenEnded = false)
    (hwritten : fs.map Frame.encode = parts.map .ok) {n : Nat}
    (hend : 0 < n → ∀ f ∈ fs, f.isOpenEnded = false) :
    ∃ frames, decodeAll (parts.flatten ++ List.replicate n 0) = .ok frames
      ∧ content frames = (content fs).map settled := by
  cases n with
  | zero =>
    have hsurvives := survives_of_written hvalid hopen hwritten
    refine ⟨mergePadding (fs.map settled), ?_, ?_⟩
    · rw [List.replicate_zero, List.append_nil]
      exact hsurvives.decode
    · rw [content_mergePadding, content_map_settled]
  | succ n =>
    -- the same bytes as with one more frame
    have hpadded : (fs ++ [padding (n + 1)]).map Frame.encode =
        (parts ++ [List.replicate (n + 1) 0]).map .ok := by
      rw [List.map_append, List.map_append, hwritten, List.map_singleton, encode_padding]
      rfl
    have hvalid' : ∀ f ∈ fs ++ [padding (n + 1)], f.WireValid := by
      intro f hf
      rcases List.mem_append.1 hf with hf | hf
      · exact hvalid f hf
      · rw [List.mem_singleton.1 hf]
        exact Nat.succ_pos n
    have hopen' : ∀ f ∈ (fs ++ [padding (n + 1)]).dropLast, f.isOpenEnded = false := by
      rw [List.dropLast_concat]
      exact hend (Nat.succ_pos n)
    have hsurvives := survives_of_written hvalid' hopen' hpadded
    refine ⟨mergePadding ((fs ++ [padding (n + 1)]).map settled), ?_, ?_⟩
    · have hdecode := hsurvives.decode
      rwa [List.flatten_concat] at hdecode
    · rw [content_mergePadding, content_map_settled, content_append_padding]

/-- One zero byte after bare data is read as the first byte of that data. -/
theorem decodeAll_append_zero_of_isBare {s : StreamChunk} (hbare : s.isBare = true) {bs : Bytes}
    (hencode : (Frame.stream s).encode = .ok bs) :
    decodeAll (bs ++ [0]) = .ok [.stream { s with data := [0] }] := by
  obtain ⟨hlength, hoffset, hdata, hid⟩ := StreamChunk.isBare_iff.1 hbare
  obtain ⟨hrequested, hzero⟩ : s.hasOffset = false ∧ s.offset = 0 := by
    simp only [StreamChunk.writesOffset, Bool.or_eq_false_iff, decide_eq_false_iff_not] at hoffset
    exact ⟨hoffset.1, by omega⟩
  have hlonger := encode_stream_append hlength hencode [0]
  rw [hdata, List.nil_append] at hlonger
  have hvalid : (Frame.stream { s with data := [0] }).WireValid := by
    constructor
    · change s.streamId < 0x4000000000000000
      omega
    · change s.offset + [(0 : UInt8)].length ≤ lastPosition
      rw [hzero]
      decide
  have hsettled : (Frame.stream { s with data := [0] }).settled =
      .stream { s with data := [0] } := by
    simp only [settled, StreamChunk.writesOffset, hrequested, hzero]
    rfl
  have hsurvives : Survives [Frame.stream { s with data := [0] }] [bs ++ [0]] := by
    refine survives_of_written ?_ (by simp) ?_
    · intro f hf
      rwa [List.mem_singleton.1 hf]
    · rw [List.map_singleton, hlonger]
      rfl
  have hdecode := hsurvives.decode
  rw [List.map_singleton, hsettled] at hdecode
  rw [← List.append_nil (bs ++ [0])]
  exact hdecode

end Frame

/-! ## Payloads of packets -/

namespace Packet

theorem framesPayload_eq_ok {epoch : Epoch} {fs : List Frame} {bs : Bytes}
    (h : framesPayload epoch fs = .ok bs) :
    ∃ parts : List Bytes, fs.map Frame.encode = parts.map .ok ∧ bs = parts.flatten := by
  induction fs generalizing bs with
  | nil =>
    cases h
    exact ⟨[], rfl, rfl⟩
  | cons f fs ih =>
    rw [framesPayload] at h
    split at h
    · obtain ⟨front, hfront, h⟩ := Result.bind_eq_ok.1 h
      obtain ⟨back, hback, h⟩ := Result.bind_eq_ok.1 h
      obtain ⟨parts, hparts, rfl⟩ := ih hback
      cases h
      refine ⟨front :: parts, ?_, rfl⟩
      rw [List.map_cons, List.map_cons, hfront, hparts]
    · cases h

theorem numberedPayload_eq_ok {epoch : Epoch} {w : PacketNumber.Width} {fs : List Frame}
    {payload : Bytes} (h : numberedPayload epoch w fs = .ok payload) :
    ∃ parts : List Bytes, fs.map Frame.encode = parts.map .ok
      ∧ payload = padTo (leastPayload w) parts.flatten := by
  unfold numberedPayload at h
  cases hframes : framesPayload epoch fs with
  | error e =>
    rw [hframes] at h
    cases h
  | ok written =>
    rw [hframes] at h
    obtain ⟨parts, hparts, rfl⟩ := framesPayload_eq_ok hframes
    injection h with h
    exact ⟨parts, hparts, h.symm⟩

/-- The data that takes the padding for its own: alone in its packet, bare, and behind a packet
number of one byte. -/
def stretched? : PacketNumber.Width → List Frame → Option StreamChunk
  | .one, [.stream s] => if s.isBare then some s else none
  | _, _ => none

theorem stretched?_eq_some {w : PacketNumber.Width} {fs : List Frame} {s : StreamChunk}
    (h : stretched? w fs = some s) : w = .one ∧ fs = [.stream s] ∧ s.isBare = true := by
  unfold stretched? at h
  split at h
  · split at h
    · next hbare =>
      cases h
      exact ⟨rfl, rfl, hbare⟩
    · cases h
  · cases h

theorem leastPayload_le_three (w : PacketNumber.Width) : leastPayload w ≤ 3 := by
  cases w <;> decide

theorem eq_one_of_lt_leastPayload {w : PacketNumber.Width} (h : 2 < leastPayload w) : w = .one := by
  cases w with
  | one => rfl
  | _ => exact absurd h (by decide)

/-- Frames that are padded know where they end, unless they are stretched. -/
theorem isOpenEnded_eq_false_of_padded {w : PacketNumber.Width} {fs : List Frame}
    {parts : List Bytes} (hvalid : ∀ f ∈ fs, f.WireValid)
    (hwritten : fs.map Frame.encode = parts.map .ok) (hstretched : stretched? w fs = none)
    (hshort : parts.flatten.length < leastPayload w) : ∀ f ∈ fs, f.isOpenEnded = false := by
  intro f hf
  rw [← Bool.not_eq_true]
  intro hend
  have hthree := leastPayload_le_three w
  obtain ⟨s, rfl, hbare⟩ := Frame.eq_stream_of_short hvalid hwritten hf hend (by omega)
  obtain ⟨part, rest, rfl, hpart, hrest⟩ := List.map_eq_cons_iff.1 hwritten.symm
  have htwo : part.length = 2 := by
    rw [Frame.length_of_encode hpart.symm, Frame.encodedLength_of_isBare hbare]
  rw [List.flatten_cons, List.length_append] at hshort
  have hone : w = .one := eq_one_of_lt_leastPayload (by omega)
  rw [hone, stretched?, if_pos hbare] at hstretched
  cases hstretched

theorem decodeAll_of_stretched {epoch : Epoch} {w : PacketNumber.Width} {fs : List Frame}
    {payload : Bytes} {s : StreamChunk} (hpayload : numberedPayload epoch w fs = .ok payload)
    (hstretched : stretched? w fs = some s) :
    Frame.decodeAll payload = .ok [.stream { s with data := [0] }] := by
  obtain ⟨rfl, rfl, hbare⟩ := stretched?_eq_some hstretched
  obtain ⟨parts, hwritten, rfl⟩ := numberedPayload_eq_ok hpayload
  obtain ⟨part, rest, rfl, hpart, hrest⟩ := List.map_eq_cons_iff.1 hwritten.symm
  rw [List.map_eq_nil_iff.1 hrest, List.flatten_singleton]
  have hlength : part.length = 2 := by
    rw [Frame.length_of_encode hpart.symm, Frame.encodedLength_of_isBare hbare]
  rw [padTo, hlength]
  exact Frame.decodeAll_append_zero_of_isBare hbare hpart.symm

theorem decodeAll_of_not_stretched {epoch : Epoch} {w : PacketNumber.Width} {fs : List Frame}
    {payload : Bytes} (hvalid : ∀ f ∈ fs, f.WireValid)
    (hopen : ∀ f ∈ fs.dropLast, f.isOpenEnded = false)
    (hpayload : numberedPayload epoch w fs = .ok payload) (hstretched : stretched? w fs = none) :
    ∃ frames, Frame.decodeAll payload = .ok frames
      ∧ Frame.content frames = (Frame.content fs).map Frame.settled := by
  obtain ⟨parts, hwritten, rfl⟩ := numberedPayload_eq_ok hpayload
  refine Frame.decodeAll_append_zeros hvalid hopen hwritten ?_
  intro hpadded
  exact isOpenEnded_eq_false_of_padded hvalid hwritten hstretched (by omega)

/-- The frames of a packet are written, padded for the sample, and read back. Except for the packet
whose only frame is stretched by the padding, its frames come back in order, apart from padding. -/
theorem decodeAll_payloadBytes {p : Packet} {number : Nat} {w : PacketNumber.Width}
    {payload : Bytes} (hnumber : p.number? = some (number, w))
    (hframes : ∀ f ∈ p.frames, f.isRaw = false ∧ f.ReadsAlone)
    (hopen : ∀ f ∈ p.frames.dropLast, f.isOpenEnded = false)
    (hpayload : p.payloadBytes = .ok payload) :
    ∃ frames, Frame.decodeAll payload = .ok frames ∧
      match stretched? w p.frames with
      | none => Frame.content frames = (Frame.content p.frames).map Frame.settled
      | some s => frames = [.stream { s with data := [0] }] := by
  have hvalid : ∀ f ∈ p.frames, f.WireValid := by
    intro f hf
    exact (Frame.readsAlone_iff (hframes f hf).1).1 (hframes f hf).2
  obtain ⟨epoch, hnumbered⟩ : ∃ epoch, numberedPayload epoch w p.frames = .ok payload := by
    cases p with
    | versionNegotiation v => cases hnumber
    | _ =>
      cases hnumber
      exact ⟨_, hpayload⟩
  cases hstretched : stretched? w p.frames with
  | none => exact decodeAll_of_not_stretched hvalid hopen hnumbered hstretched
  | some s => exact ⟨_, decodeAll_of_stretched hnumbered hstretched, rfl⟩

/-- Behind a packet number of one byte, a PING with padding of its own gets more of it. -/
theorem decodeAll_payloadBytes_ping :
    let p : Packet := .oneRtt ⟨⟨.empty, false, false, 1, .one⟩, [.padding 1, .ping]⟩
    (∀ f ∈ p.frames, f.isRaw = false ∧ f.ReadsAlone)
      ∧ p.payloadBytes = .ok [0, 1, 0]
      ∧ ∃ frames, Frame.decodeAll [0, 1, 0] = .ok frames ∧ Frame.content frames = [.ping] := by
  intro p
  have hnumber : p.number? = some (1, .one) := rfl
  have hpayload : p.payloadBytes = .ok [0, 1, 0] := by decide
  have hframes : ∀ f ∈ p.frames, f.isRaw = false ∧ f.ReadsAlone := by
    intro f hf
    rcases List.mem_cons.1 hf with rfl | hf
    · exact ⟨rfl, [0], rfl, .padding 1, [], rfl⟩
    · rw [List.mem_singleton.1 hf]
      exact ⟨rfl, [1], rfl, .ping, [], rfl⟩
  exact ⟨hframes, hpayload, decodeAll_payloadBytes hnumber hframes (by decide) hpayload⟩

/-- Data that is read back by itself, and that has one byte more when it comes out of its packet. -/
theorem payloadBytes_bare :
    let s : StreamChunk := ⟨0, 0, false, false, false, []⟩
    let p : Packet := .oneRtt ⟨⟨.empty, false, false, 1, .one⟩, [.stream s]⟩
    (∀ f ∈ p.frames, f.isRaw = false ∧ f.ReadsAlone)
      ∧ (∀ f ∈ p.frames.dropLast, f.isOpenEnded = false)
      ∧ p.payloadBytes = .ok [8, 0, 0]
      ∧ Frame.decodeAll [8, 0, 0] = .ok [.stream { s with data := [0] }]
      ∧ Frame.content [.stream { s with data := [0] }] ≠
        (Frame.content p.frames).map Frame.settled := by
  intro s p
  refine ⟨?_, by decide, by decide, by decide +kernel, by decide⟩
  intro f hf
  rw [List.mem_singleton.1 hf]
  exact ⟨rfl, [8, 0], by decide, .stream s, [], by decide⟩

end Packet

end QuicTransport
