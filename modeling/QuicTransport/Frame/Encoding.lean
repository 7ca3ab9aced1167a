import QuicTransport.Frame.Basic
import QuicTransport.VarInt

set_option autoImplicit false

/-! # Writing frames

A frame on the wire is its type number followed by its fields, and a field is either a
variable-length integer or a byte string. `Frame.layout` lists the fields of every frame; the length
of the frame and its bytes are then the sum and the concatenation over that list. Padding is the
exception: it is as many zero bytes as it is long, and has no fields.

Some frames are never written, because no reader would accept them; `Frame.fault?` says why. All
other refusals come from a number that is too large. -/

namespace QuicTransport

/-! ## Fields -/

/-- A piece of a frame on the wire. -/
inductive Field where
  | number (n : Nat)
  | octets (bs : Bytes)
deriving DecidableEq, Repr

namespace Field

/-- The number of bytes that a field takes. -/
def length : Field → Nat
  | .number n => VarInt.lengthOf n
  | .octets bs => bs.length

/-- The bytes of a field. -/
def encode : Field → Result Bytes
  | .number n => VarInt.put n
  | .octets bs => .ok bs

/-- The bytes of several fields, one after the other. The first field that cannot be written decides
the error. -/
def encodeAll : List Field → Result Bytes
  | [] => .ok []
  | f :: fs => do
    let front ← f.encode
    let back ← encodeAll fs
    return front ++ back

/-- A byte string with its length in front. -/
def counted (bs : Bytes) : List Field := [.number bs.length, .octets bs]

end Field

/-! ## Frames -/

/-- The fields of a further range. -/
def AckRange.layout (r : AckRange) : List Field := [.number r.gap, .number r.length]

/-- The fields of congestion counts. -/
def EcnCounts.layout (c : EcnCounts) : List Field :=
  [.number c.ect0, .number c.ect1, .number c.ce]

/-- The fields of an acknowledgement. -/
def Ack.layout (a : Ack) : List Field :=
  [.number a.largest, .number a.delay, .number a.ranges.length, .number a.firstRange]
    ++ a.ranges.flatMap AckRange.layout
    ++ (a.ecn.map EcnCounts.layout).getD []

/-- The fields of a piece of application data. -/
def StreamChunk.layout (s : StreamChunk) : List Field :=
  .number s.streamId
    :: ((if s.writesOffset then [.number s.offset] else [])
      ++ (if s.hasLength then [.number s.data.length] else [])
      ++ [.octets s.data])

/-- The fields of an issued connection identifier. -/
def IssuedConnectionId.layout (i : IssuedConnectionId) : List Field :=
  [.number i.sequenceNumber, .number i.retirePriorTo,
    .octets [UInt8.ofNat i.connectionId.length], .octets i.connectionId.bytes,
    .octets i.resetToken.val]

/-- The fields of a closing. -/
def Closing.layout (c : Closing) : List Field :=
  .number c.errorCode :: ((c.frameType.map Field.number).toList ++ Field.counted c.reason)

namespace Frame

/-- The fields that follow the type number. -/
def body : Frame → List Field
  | .padding _ => []
  | .ping => []
  | .ack a => a.layout
  | .resetStream streamId errorCode finalSize =>
    [.number streamId, .number errorCode, .number finalSize]
  | .stopSending streamId errorCode => [.number streamId, .number errorCode]
  | .crypto offset data => .number offset :: Field.counted data
  | .newToken token => Field.counted token
  | .stream s => s.layout
  | .maxData maximum => [.number maximum]
  | .maxStreamData streamId maximum => [.number streamId, .number maximum]
  | .maxStreams _ maximum => [.number maximum]
  | .dataBlocked maximum => [.number maximum]
  | .streamDataBlocked streamId maximum => [.number streamId, .number maximum]
  | .streamsBlocked _ maximum => [.number maximum]
  | .newConnectionId i => i.layout
  | .retireConnectionId sequenceNumber => [.number sequenceNumber]
  | .pathChallenge data => [.octets data.val]
  | .pathResponse data => [.octets data.val]
  | .connectionClose c => c.layout
  | .handshakeDone => []
  | .raw _ payload => [.octets payload]

/-- All fields of a frame. -/
def layout : Frame → List Field
  | .padding length => [.octets (List.replicate length 0)]
  | f => .number f.typeNumber :: f.body

/-- Why a frame is never written; `none` if only its numbers can stand in the way. -/
def fault? : Frame → Option String
  | .ack a =>
    if a.largest < a.firstRange then some "first ACK range exceeds largest acknowledged" else none
  | .newToken token => if token.isEmpty then some "empty NEW_TOKEN" else none
  | .newConnectionId i =>
    if i.connectionId.isEmpty then some "zero-length connection id"
    else if i.sequenceNumber < i.retirePriorTo then some "retire_prior_to exceeds sequence number"
    else none
  | _ => none

/-- The number of bytes that a frame takes. A number too large for the wire counts as eight bytes,
so there is an answer for every frame. -/
def encodedLength (f : Frame) : Nat := f.layout.foldr (fun field total => field.length + total) 0

/-- The bytes of a frame. -/
def encode (f : Frame) : Result Bytes :=
  match f.fault? with
  | some detail => .error (.frameEncoding detail)
  | none => Field.encodeAll f.layout

/-- Append a frame to a buffer. The number of bytes written comes with the new buffer; a frame that
cannot be written leaves the buffer as it was. -/
def appendTo (buffer : Bytes) (f : Frame) : Result Nat × Bytes :=
  match f.encode with
  | .ok bs => (.ok bs.length, buffer ++ bs)
  | .error e => (.error e, buffer)

/-- The bytes of several frames, one after the other. -/
def encodeAll : List Frame → Result Bytes
  | [] => .ok []
  | f :: fs => do
    let front ← f.encode
    let back ← encodeAll fs
    return front ++ back

end Frame

end QuicTransport
