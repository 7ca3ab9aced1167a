import QuicTransport.ConnectionId
import QuicTransport.Endpoint

set_option autoImplicit false

/-! # Frames

The payload of a packet is a sequence of frames. A `Frame` is what one of them says; how it is
written is in `Frame.Encoding` and how it is read in `Frame.Decoding`.

Numbers are natural numbers here. A frame can therefore say something that the wire cannot hold, and
writing refuses it. A `raw` frame is an escape for owners that write frame types of their own; it is
never read. -/

namespace QuicTransport

/-! ## Parts of frames -/

/-- A further range of acknowledged packet numbers, below the one before it. -/
structure AckRange where
  /-- One less than the number of unacknowledged packet numbers in between. -/
  gap : Nat
  /-- One less than the number of acknowledged packet numbers. -/
  length : Nat
deriving DecidableEq, Repr

/-- How many packets arrived with each congestion mark. -/
structure EcnCounts where
  /-- Packets marked ECT(0). -/
  ect0 : Nat
  /-- Packets marked ECT(1). -/
  ect1 : Nat
  /-- Packets marked with congestion experienced. -/
  ce : Nat
deriving DecidableEq, Repr

/-- An acknowledgement. -/
structure Ack where
  largest : Nat
  /-- How long the acknowledgement waited, in units the sides agreed on. -/
  delay : Nat
  /-- How many numbers directly below the largest are acknowledged too. -/
  firstRange : Nat
  /-- The ranges below the first. -/
  ranges : List AckRange
  /-- Congestion marks, if they were counted. -/
  ecn : Option EcnCounts
deriving DecidableEq, Repr

/-- A piece of application data. -/
structure StreamChunk where
  streamId : Nat
  offset : Nat
  /-- Whether the position is written even if it is zero. -/
  hasOffset : Bool
  /-- Whether the length is written; without it the data reaches to the end of the packet. -/
  hasLength : Bool
  /-- Whether the stream ends here. -/
  fin : Bool
  data : Bytes
deriving DecidableEq, Repr

/-- Whether the position is written: on request, and whenever it is not zero. -/
def StreamChunk.writesOffset (s : StreamChunk) : Bool := s.hasOffset || decide (0 < s.offset)

/-- A connection identifier that a peer may use from now on. -/
structure IssuedConnectionId where
  /-- Its place in the order of issue. -/
  sequenceNumber : Nat
  /-- Identifiers before this place are to be retired. -/
  retirePriorTo : Nat
  connectionId : ConnectionId
  /-- The token that proves a stateless reset. -/
  resetToken : FixedBytes 16
deriving DecidableEq

/-- Why a connection is closed. -/
structure Closing where
  errorCode : Nat
  /-- The type of the frame that caused a transport error; none if the application closes. -/
  frameType : Option Nat
  /-- A text for people. -/
  reason : Bytes
deriving DecidableEq, Repr

/-! ## Frames -/

/-- One frame. -/
inductive Frame where
  | padding (length : Nat)
  | ping
  | ack (ack : Ack)
  | resetStream (streamId errorCode finalSize : Nat)
  | stopSending (streamId errorCode : Nat)
  | crypto (offset : Nat) (data : Bytes)
  | newToken (token : Bytes)
  | stream (chunk : StreamChunk)
  | maxData (maximum : Nat)
  | maxStreamData (streamId maximum : Nat)
  | maxStreams (bidirectional : Bool) (maximum : Nat)
  | dataBlocked (maximum : Nat)
  | streamDataBlocked (streamId maximum : Nat)
  | streamsBlocked (bidirectional : Bool) (maximum : Nat)
  | newConnectionId (issued : IssuedConnectionId)
  | retireConnectionId (sequenceNumber : Nat)
  | pathChallenge (data : FixedBytes 8)
  | pathResponse (data : FixedBytes 8)
  | connectionClose (closing : Closing)
  | handshakeDone
  | raw (frameType : Nat) (payload : Bytes)
deriving DecidableEq

namespace Frame

/-- The number of a frame's type. Where a type comes in variants, its low bits tell which. -/
def typeNumber : Frame → Nat
  | .padding _ => 0x00
  | .ping => 0x01
  | .ack a => if a.ecn.isSome then 0x03 else 0x02
  | .resetStream _ _ _ => 0x04
  | .stopSending _ _ => 0x05
  | .crypto _ _ => 0x06
  | .newToken _ => 0x07
  | .stream s => 0x08 + 4 * s.writesOffset.toNat + 2 * s.hasLength.toNat + s.fin.toNat
  | .maxData _ => 0x10
  | .maxStreamData _ _ => 0x11
  | .maxStreams bidirectional _ => if bidirectional then 0x12 else 0x13
  | .dataBlocked _ => 0x14
  | .streamDataBlocked _ _ => 0x15
  | .streamsBlocked bidirectional _ => if bidirectional then 0x16 else 0x17
  | .newConnectionId _ => 0x18
  | .retireConnectionId _ => 0x19
  | .pathChallenge _ => 0x1a
  | .pathResponse _ => 0x1b
  | .connectionClose c => if c.frameType.isSome then 0x1c else 0x1d
  | .handshakeDone => 0x1e
  | .raw frameType _ => frameType

/-- The name of a frame's type. -/
def name : Frame → String
  | .padding _ => "PADDING"
  | .ping => "PING"
  | .ack _ => "ACK"
  | .resetStream _ _ _ => "RESET_STREAM"
  | .stopSending _ _ => "STOP_SENDING"
  | .crypto _ _ => "CRYPTO"
  | .newToken _ => "NEW_TOKEN"
  | .stream _ => "STREAM"
  | .maxData _ => "MAX_DATA"
  | .maxStreamData _ _ => "MAX_STREAM_DATA"
  | .maxStreams _ _ => "MAX_STREAMS"
  | .dataBlocked _ => "DATA_BLOCKED"
  | .streamDataBlocked _ _ => "STREAM_DATA_BLOCKED"
  | .streamsBlocked _ _ => "STREAMS_BLOCKED"
  | .newConnectionId _ => "NEW_CONNECTION_ID"
  | .retireConnectionId _ => "RETIRE_CONNECTION_ID"
  | .pathChallenge _ => "PATH_CHALLENGE"
  | .pathResponse _ => "PATH_RESPONSE"
  | .connectionClose _ => "CONNECTION_CLOSE"
  | .handshakeDone => "HANDSHAKE_DONE"
  | .raw _ _ => "RAW"

/-- Whether a packet with this frame has to be acknowledged. -/
def isAckEliciting : Frame → Bool
  | .padding _ => false
  | .ack _ => false
  | .connectionClose _ => false
  | _ => true

/-- Whether a packet of the epoch may carry the frame. Before the handshake is complete only the
frames that serve it are allowed, and a connection can only be closed with a transport error. -/
def isAllowedIn (epoch : Epoch) : Frame → Bool
  | .padding _ => true
  | .ping => true
  | .ack _ => true
  | .crypto _ _ => true
  | .connectionClose c => epoch == .application || c.frameType.isSome
  | _ => epoch == .application

/-- Whether the frame is padding. -/
def isPadding : Frame → Bool
  | .padding _ => true
  | _ => false

/-- Whether the frame is HANDSHAKE_DONE. -/
def isHandshakeDone : Frame → Bool
  | .handshakeDone => true
  | _ => false

end Frame

end QuicTransport
