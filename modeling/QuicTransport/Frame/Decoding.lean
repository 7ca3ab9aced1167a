import QuicTransport.Frame.Basic
import QuicTransport.Reader

set_option autoImplicit false

/-! # Reading frames

`Frame.decode` reads one frame from the front of a payload. The type number comes first, in any of
its widths; each type has a reader for what follows it. Padding is read as a run: one frame stands
for all the zero bytes that follow each other.

A frame that contradicts itself is refused although all of its bytes are there: an acknowledgement
that goes below packet number zero, data beyond the last position of a stream, a stream count above
2^60, an empty token, a connection identifier that is empty or too long.

A payload is read by `Frame.decodeEach`, frame after frame up to the first that fails, and
`Frame.decodeAll` gives all of them or that failure. -/

namespace QuicTransport

namespace Frame

/-- The last position of data in a stream. -/
def lastPosition : Nat := VarInt.max.value

/-- The largest number of streams of a kind. -/
def maxStreamCount : Nat := 0x1000000000000000

/-! ## Fields -/

/-- The next number of a frame. -/
def readNumber (what : String) : Reader Nat := Reader.varInt (.frameEncoding what)

/-- The next `n` bytes of a frame. -/
def readBytes (n : Nat) (what : String) : Reader Bytes := Reader.bytes n (.frameEncoding what)

/-- The next `n` bytes of a frame, with their number in the type. -/
def readFixed (n : Nat) (what : String) : Reader (FixedBytes n) :=
  Reader.fixed n (.frameEncoding what)

/-- Refuse a frame unless a condition holds. -/
def insist (condition : Bool) (what : String) : Reader Unit :=
  Reader.require condition (.frameEncoding what)

/-! ## Acknowledgements -/

/-- The next `count` further ranges, the first of them below the packet number `smallest`. -/
def readRanges : (count smallest : Nat) → Reader (List AckRange)
  | 0, _ => pure []
  | count + 1, smallest => do
    let gap ← readNumber "ACK gap"
    let length ← readNumber "ACK range length"
    insist (gap + 2 ≤ smallest) "ACK gap below zero"
    insist (length ≤ smallest - gap - 2) "ACK range below zero"
    let ranges ← readRanges count (smallest - gap - 2 - length)
    return ⟨gap, length⟩ :: ranges

/-- The congestion counts. -/
def readEcnCounts : Reader EcnCounts := do
  let ect0 ← readNumber "ECT0 count"
  let ect1 ← readNumber "ECT1 count"
  let ce ← readNumber "ECN-CE count"
  return ⟨ect0, ect1, ce⟩

/-- The congestion counts, where the type says that they are there. -/
def readEcn : (counted : Bool) → Reader (Option EcnCounts)
  | true => some <$> readEcnCounts
  | false => pure none

/-- An acknowledgement. Each further range takes at least two bytes, so a count that the rest of the
payload has no room for is refused before anything is read. -/
def readAck (counted : Bool) : Reader Ack := do
  let largest ← readNumber "ACK largest acknowledged"
  let delay ← readNumber "ACK delay"
  let count ← readNumber "ACK range count"
  let firstRange ← readNumber "ACK first range"
  insist (firstRange ≤ largest) "first ACK range exceeds largest acknowledged"
  Reader.atLeast (2 * count) (.frameEncoding "ACK range count exceeds frame")
  let ranges ← readRanges count (largest - firstRange)
  let ecn ← readEcn counted
  return { largest, delay, firstRange, ranges, ecn }

/-! ## Data -/

/-- Handshake data. -/
def readCrypto : Reader Frame := do
  let offset ← readNumber "CRYPTO offset"
  let length ← readNumber "CRYPTO length"
  insist (offset + length ≤ lastPosition) "CRYPTO data beyond 2^62"
  let data ← readBytes length "truncated CRYPTO data"
  return .crypto offset data

/-- A token. -/
def readNewToken : Reader Frame := do
  let length ← readNumber "NEW_TOKEN length"
  insist (0 < length) "empty NEW_TOKEN"
  let token ← readBytes length "truncated NEW_TOKEN"
  return .newToken token

/-- The position of application data, where the type says that it is there. -/
def readStreamOffset : (hasOffset : Bool) → Reader Nat
  | true => readNumber "STREAM offset"
  | false => pure 0

/-- Application data of the length that is written, or else all that is left. -/
def readStreamData : (hasLength : Bool) → Reader Bytes
  | true => do
    let length ← readNumber "STREAM length"
    readBytes length "truncated STREAM data"
  | false => Reader.remainder

/-- Application data. -/
def readStream (hasOffset hasLength fin : Bool) : Reader StreamChunk := do
  let streamId ← readNumber "STREAM stream id"
  let offset ← readStreamOffset hasOffset
  let data ← readStreamData hasLength
  insist (offset + data.length ≤ lastPosition) "STREAM data beyond 2^62"
  return { streamId, offset, hasOffset, hasLength, fin, data }

/-- A number of streams. -/
def readStreamCount (what : String) : Reader Nat := do
  let count ← readNumber what
  insist (count ≤ maxStreamCount) "stream count exceeds 2^60"
  return count

/-! ## The connection -/

/-- A connection identifier with its length in front, neither empty nor too long. -/
def readIssuedCid : Reader ConnectionId := do
  let length ← Reader.byte (.frameEncoding "NEW_CONNECTION_ID length")
  insist (0 < length.toNat && length.toNat ≤ 20) "invalid NEW_CONNECTION_ID length"
  let bs ← readBytes length.toNat "truncated NEW_CONNECTION_ID"
  match ConnectionId.ofBytes? bs with
  | some cid => return cid
  | none => Reader.fail (.frameEncoding "invalid NEW_CONNECTION_ID length")

/-- An issued connection identifier. -/
def readIssued : Reader IssuedConnectionId := do
  let sequenceNumber ← readNumber "NEW_CONNECTION_ID sequence"
  let retirePriorTo ← readNumber "NEW_CONNECTION_ID retire prior to"
  insist (retirePriorTo ≤ sequenceNumber) "retire_prior_to exceeds sequence number"
  let connectionId ← readIssuedCid
  let resetToken ← readFixed 16 "truncated stateless reset token"
  return { sequenceNumber, retirePriorTo, connectionId, resetToken }

/-- The type of the frame that caused a transport error. -/
def readTrigger : (isTransport : Bool) → Reader (Option Nat)
  | true => some <$> readNumber "CONNECTION_CLOSE frame type"
  | false => pure none

/-- A closing. -/
def readClosing (isTransport : Bool) : Reader Closing := do
  let errorCode ← readNumber "CONNECTION_CLOSE error code"
  let frameType ← readTrigger isTransport
  let length ← readNumber "CONNECTION_CLOSE reason length"
  let reason ← readBytes length "truncated CONNECTION_CLOSE reason"
  return { errorCode, frameType, reason }

/-! ## Frames -/

/-- What follows the type number of a frame that is not padding. -/
def readBody : (typeNumber : Nat) → Reader Frame
  | 0x01 => pure .ping
  | 0x02 => .ack <$> readAck false
  | 0x03 => .ack <$> readAck true
  | 0x04 => do
    let streamId ← readNumber "RESET_STREAM stream id"
    let errorCode ← readNumber "RESET_STREAM error code"
    let finalSize ← readNumber "RESET_STREAM final size"
    return .resetStream streamId errorCode finalSize
  | 0x05 => do
    let streamId ← readNumber "STOP_SENDING stream id"
    let errorCode ← readNumber "STOP_SENDING error code"
    return .stopSending streamId errorCode
  | 0x06 => readCrypto
  | 0x07 => readNewToken
  | 0x08 => .stream <$> readStream false false false
  | 0x09 => .stream <$> readStream false false true
  | 0x0a => .stream <$> readStream false true false
  | 0x0b => .stream <$> readStream false true true
  | 0x0c => .stream <$> readStream true false false
  | 0x0d => .stream <$> readStream true false true
  | 0x0e => .stream <$> readStream true true false
  | 0x0f => .stream <$> readStream true true true
  | 0x10 => .maxData <$> readNumber "MAX_DATA"
  | 0x11 => do
    let streamId ← readNumber "MAX_STREAM_DATA stream id"
    let maximum ← readNumber "MAX_STREAM_DATA"
    return .maxStreamData streamId maximum
  | 0x12 => .maxStreams true <$> readStreamCount "MAX_STREAMS"
  | 0x13 => .maxStreams false <$> readStreamCount "MAX_STREAMS"
  | 0x14 => .dataBlocked <$> readNumber "DATA_BLOCKED"
  | 0x15 => do
    let streamId ← readNumber "STREAM_DATA_BLOCKED stream id"
    let maximum ← readNumber "STREAM_DATA_BLOCKED"
    return .streamDataBlocked streamId maximum
  | 0x16 => .streamsBlocked true <$> readStreamCount "STREAMS_BLOCKED"
  | 0x17 => .streamsBlocked false <$> readStreamCount "STREAMS_BLOCKED"
  | 0x18 => .newConnectionId <$> readIssued
  | 0x19 => .retireConnectionId <$> readNumber "RETIRE_CONNECTION_ID"
  | 0x1a => .pathChallenge <$> readFixed 8 "truncated PATH_CHALLENGE"
  | 0x1b => .pathResponse <$> readFixed 8 "truncated PATH_RESPONSE"
  | 0x1c => .connectionClose <$> readClosing true
  | 0x1d => .connectionClose <$> readClosing false
  | 0x1e => pure .handshakeDone
  | _ => Reader.fail (.frameEncoding "unknown frame type")

/-- Padding whose first byte announced a type number of the given width: that number and all the
zero bytes after it. -/
def readPadding (width : VarInt.Width) : Reader Frame := do
  let zeros ← Reader.takeWhile (· == 0)
  return .padding (width.bytes + zeros.length)

/-- One frame from the front of a payload. -/
def decode : Reader Frame := fun bs =>
  (do
    let typeNumber ← readNumber "truncated frame type"
    if typeNumber = 0 then readPadding (VarInt.Width.announced (bs.headD 0))
    else readBody typeNumber : Reader Frame) bs

/-! ## What is left of a payload -/

private theorem sound_readNumber (what : String) : (readNumber what).Sound := Reader.sound_varInt _

private theorem sound_insist (condition : Bool) (what : String) : (insist condition what).Sound :=
  Reader.sound_require _ _

private theorem sound_readRanges (count smallest : Nat) : (readRanges count smallest).Sound := by
  induction count generalizing smallest with
  | zero => exact Reader.sound_pure _
  | succ count ih =>
    exact Reader.sound_bind (sound_readNumber _) fun _ => Reader.sound_bind (sound_readNumber _)
      fun _ => Reader.sound_bind (sound_insist _ _) fun _ => Reader.sound_bind (sound_insist _ _)
      fun _ => Reader.sound_bind (ih _) fun _ => Reader.sound_pure _

private theorem sound_readEcn (counted : Bool) : (readEcn counted).Sound := by
  cases counted with
  | false => exact Reader.sound_pure _
  | true =>
    exact Reader.sound_map _ (Reader.sound_bind (sound_readNumber _) fun _ =>
      Reader.sound_bind (sound_readNumber _) fun _ => Reader.sound_bind (sound_readNumber _)
      fun _ => Reader.sound_pure _)

private theorem sound_readAck (counted : Bool) : (readAck counted).Sound :=
  Reader.sound_bind (sound_readNumber _) fun _ => Reader.sound_bind (sound_readNumber _)
    fun _ => Reader.sound_bind (sound_readNumber _) fun _ => Reader.sound_bind (sound_readNumber _)
    fun _ => Reader.sound_bind (sound_insist _ _) fun _ => Reader.sound_bind
    (Reader.sound_atLeast _ _) fun _ => Reader.sound_bind (sound_readRanges _ _)
    fun _ => Reader.sound_bind (sound_readEcn _) fun _ => Reader.sound_pure _

private theorem sound_readStream (hasOffset hasLength fin : Bool) :
    (readStream hasOffset hasLength fin).Sound := by
  refine Reader.sound_bind (sound_readNumber _) fun _ => Reader.sound_bind ?_ fun _ =>
    Reader.sound_bind ?_ fun _ => Reader.sound_bind (sound_insist _ _) fun _ => Reader.sound_pure _
  · cases hasOffset with
    | false => exact Reader.sound_pure _
    | true => exact sound_readNumber _
  · cases hasLength with
    | false => exact Reader.sound_remainder
    | true => exact Reader.sound_bind (sound_readNumber _) fun _ => Reader.sound_bytes _ _

private theorem sound_readStreamCount (what : String) : (readStreamCount what).Sound :=
  Reader.sound_bind (sound_readNumber _) fun _ => Reader.sound_bind (sound_insist _ _)
    fun _ => Reader.sound_pure _

private theorem sound_readIssuedCid : readIssuedCid.Sound := by
  refine Reader.sound_bind (Reader.sound_byte _) fun _ => Reader.sound_bind (sound_insist _ _)
    fun _ => Reader.sound_bind (Reader.sound_bytes _ _) fun bs => ?_
  split
  · exact Reader.sound_pure _
  · exact Reader.sound_fail _

private theorem sound_readIssued : readIssued.Sound :=
  Reader.sound_bind (sound_readNumber _) fun _ => Reader.sound_bind (sound_readNumber _)
    fun _ => Reader.sound_bind (sound_insist _ _) fun _ => Reader.sound_bind sound_readIssuedCid
    fun _ => Reader.sound_bind (Reader.sound_fixed _ _) fun _ => Reader.sound_pure _

private theorem sound_readClosing (isTransport : Bool) : (readClosing isTransport).Sound := by
  refine Reader.sound_bind (sound_readNumber _) fun _ => Reader.sound_bind ?_ fun _ =>
    Reader.sound_bind (sound_readNumber _) fun _ => Reader.sound_bind (Reader.sound_bytes _ _)
    fun _ => Reader.sound_pure _
  cases isTransport with
  | false => exact Reader.sound_pure _
  | true => exact Reader.sound_map _ (sound_readNumber _)

private theorem sound_readPair (a b : String) (f : Nat → Nat → Frame) :
    (do let x ← readNumber a; let y ← readNumber b; return f x y : Reader Frame).Sound :=
  Reader.sound_bind (sound_readNumber _) fun _ => Reader.sound_bind (sound_readNumber _)
    fun _ => Reader.sound_pure _

/-- What follows a type number is read from the front. -/
theorem sound_readBody (typeNumber : Nat) : (readBody typeNumber).Sound := by
  unfold readBody
  split
  · exact Reader.sound_pure _
  · exact Reader.sound_map _ (sound_readAck _)
  · exact Reader.sound_map _ (sound_readAck _)
  · exact Reader.sound_bind (sound_readNumber _) fun _ => sound_readPair _ _ _
  · exact sound_readPair _ _ _
  · exact Reader.sound_bind (sound_readNumber _) fun _ => Reader.sound_bind (sound_readNumber _)
      fun _ => Reader.sound_bind (sound_insist _ _)
      fun _ => Reader.sound_map _ (Reader.sound_bytes _ _)
  · exact Reader.sound_bind (sound_readNumber _) fun _ => Reader.sound_bind (sound_insist _ _)
      fun _ => Reader.sound_map _ (Reader.sound_bytes _ _)
  · exact Reader.sound_map _ (sound_readStream _ _ _)
  · exact Reader.sound_map _ (sound_readStream _ _ _)
  · exact Reader.sound_map _ (sound_readStream _ _ _)
  · exact Reader.sound_map _ (sound_readStream _ _ _)
  · exact Reader.sound_map _ (sound_readStream _ _ _)
  · exact Reader.sound_map _ (sound_readStream _ _ _)
  · exact Reader.sound_map _ (sound_readStream _ _ _)
  · exact Reader.sound_map _ (sound_readStream _ _ _)
  · exact Reader.sound_map _ (sound_readNumber _)
  · exact sound_readPair _ _ _
  · exact Reader.sound_map _ (sound_readStreamCount _)
  · exact Reader.sound_map _ (sound_readStreamCount _)
  · exact Reader.sound_map _ (sound_readNumber _)
  · exact sound_readPair _ _ _
  · exact Reader.sound_map _ (sound_readStreamCount _)
  · exact Reader.sound_map _ (sound_readStreamCount _)
  · exact Reader.sound_map _ sound_readIssued
  · exact Reader.sound_map _ (sound_readNumber _)
  · exact Reader.sound_map _ (Reader.sound_fixed _ _)
  · exact Reader.sound_map _ (Reader.sound_fixed _ _)
  · exact Reader.sound_map _ (sound_readClosing _)
  · exact Reader.sound_map _ (sound_readClosing _)
  · exact Reader.sound_pure _
  · exact Reader.sound_fail _

/-- A frame takes at least one byte. -/
theorem decode_shortens {bs : Bytes} {f : Frame} {rest : Bytes}
    (h : decode bs = .ok (f, rest)) : rest.length < bs.length := by
  change Reader.andThen (readNumber "truncated frame type") _ bs = _ at h
  unfold Reader.andThen at h
  split at h
  · next n middle hnumber =>
    have hshort : middle.length < bs.length := Reader.varInt_shortens hnumber
    have hsuffix : rest <:+ middle := by
      dsimp only at h
      split at h
      · exact Reader.sound_map _ (Reader.sound_takeWhile _) h
      · exact sound_readBody n h
    exact Nat.lt_of_le_of_lt hsuffix.length_le hshort
  · cases h

/-! ## Payloads -/

/-- The frames of a payload in order. A frame that cannot be read ends the list with its error. -/
def decodeEach (payload : Bytes) : List (Result Frame) :=
  match payload with
  | [] => []
  | b :: bs =>
    match _h : decode (b :: bs) with
    | .ok (f, rest) => .ok f :: decodeEach rest
    | .error e => [.error e]
termination_by payload.length
decreasing_by exact decode_shortens ‹_›

/-- All frames of a payload, or the error of the first that cannot be read. -/
def decodeAll (payload : Bytes) : Result (List Frame) := (decodeEach payload).mapM id

end Frame

end QuicTransport
