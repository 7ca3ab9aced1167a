import QuicTransport.Handshake.Machine
import QuicTransport.Packet

set_option autoImplicit false

/-! # Connections

A connection is idle, then in its handshake, then active, and at last closed by one side or the
other. Inbound packets wait in a queue of limited length and are processed one by one; frames of our
own are processed as they come. The owner sends and receives, and seals and opens packets; the
connection only decides what is legal and what is to be done.

During the handshake few frames are legal. A 1-RTT packet may then overtake the packets that would
complete the handshake: a server sets it aside until it is active, and a client accepts it only as
the bearer of HANDSHAKE_DONE, which makes the client active before the rest of the packet is
processed. -/

namespace QuicTransport

/-! ## The state -/

/-- The stage of a connection. -/
inductive Phase (Memory : Type) where
  /-- Nothing has happened. -/
  | idle
  /-- The handshake is under way. -/
  | handshaking (handshake : Handshake Memory)
  /-- The handshake is complete. -/
  | active
  /-- This endpoint has closed the connection. -/
  | sentDisconnect
  /-- The peer has closed the connection. -/
  | receivedDisconnect

namespace Phase

variable {Memory : Type}

/-- The name of a stage. -/
def text : Phase Memory → String
  | .idle => "idle"
  | .handshaking _ => "handshaking"
  | .active => "active"
  | .sentDisconnect => "sent_disconnect"
  | .receivedDisconnect => "received_disconnect"

/-- Whether the connection is closed. -/
def isClosed : Phase Memory → Bool
  | .sentDisconnect => true
  | .receivedDisconnect => true
  | _ => false

/-- Whether packets and frames can be processed. -/
def isOpen : Phase Memory → Bool
  | .handshaking _ => true
  | .active => true
  | _ => false

/-- Whether the connection is active. -/
def isActive : Phase Memory → Bool
  | .active => true
  | _ => false

/-- How far the handshake has come, while it is under way. -/
def progress? : Phase Memory → Option Progress
  | .handshaking h => some h.progress
  | _ => none

/-- A stage for logs. -/
def describe (side : Side) : Phase Memory → String
  | .idle => "Idle"
  | .handshaking h => s!"Handshaking({h.describe side})"
  | .active => "Active"
  | .sentDisconnect => "SentDisconnect"
  | .receivedDisconnect => "ReceivedDisconnect"

end Phase

/-- A connection. -/
structure Connection (Memory : Type) where
  /-- What was settled before it began. -/
  setup : HandshakeSetup Memory
  phase : Phase Memory := .idle
  /-- Whether the parser of TLS messages is still here. The handshake takes it away. -/
  holdsParser : Bool := true
  /-- The packets that wait to be processed, first come first. -/
  buffered : List Packet := []
  /-- The 1-RTT packets that a server has set aside until the handshake is complete. -/
  deferred : List Packet := []

namespace Connection

variable {Memory : Type}

/-- A connection of which nothing has happened. The configuration must be in order. -/
def ofSetup (setup : HandshakeSetup Memory) : Result (Connection Memory) :=
  setup.config.check.map fun _ => { setup }

/-- Who this endpoint is. -/
def side (c : Connection Memory) : Side := c.setup.side

/-- The number of packets that wait, for whatever reason. -/
def waiting (c : Connection Memory) : Nat := c.buffered.length + c.deferred.length

/-- A connection for logs. -/
def describe (c : Connection Memory) : String :=
  s!"ConnectionStateMachine \x7b side: {c.side.title}, state: {c.phase.describe c.side}, "
    ++ s!"buffered: {c.buffered.length}, deferred: {c.deferred.length} \x7d"

/-- The connection with its handshake at another point. -/
def withHandshake (c : Connection Memory) (h : Handshake Memory) : Connection Memory :=
  { c with phase := .handshaking h }

/-- Closed, with nothing left to process. -/
def close (c : Connection Memory) (phase : Phase Memory) : Connection Memory :=
  { c with phase, buffered := [], deferred := [] }

/-- Active, if the handshake is complete. Packets that were set aside come before those
that wait. -/
def promote (c : Connection Memory) (h : Handshake Memory) (directives : List Directive) :
    List Directive × Connection Memory :=
  if h.isDone then
    (directives ++ [.installStreamMuxer],
      { c with phase := .active, buffered := c.deferred ++ c.buffered, deferred := [] })
  else (directives, c.withHandshake h)

/-- What becomes of the connection when its handshake has processed something. -/
def settle (c : Connection Memory) (o : Outcome (Handshake Memory) (List Directive)) :
    Outcome (Connection Memory) (List Directive) :=
  match o with
  | (.error e, h) => (.error e, c.withHandshake h)
  | (.ok directives, h) =>
    let (directives, c) := c.promote h directives
    (.ok directives, c)

/-! ## Beginning and queueing -/

/-- Begin the handshake. -/
def beginHandshake (c : Connection Memory) : Outcome (Connection Memory) Unit :=
  match c.phase with
  | .idle =>
    if c.holdsParser then
      (.ok (), { c with phase := .handshaking c.setup.start, holdsParser := false })
    else (.error (.contractViolation "TLS parser already consumed"), c)
  | phase => (.error (.invalidStateTransition phase.text "handshaking"), c)

/-- Put an inbound packet at the end of the queue. The answer is whether there was room. -/
def bufferPacket (c : Connection Memory) (p : Packet) : Outcome (Connection Memory) Bool :=
  if c.phase.isOpen then
    if c.setup.config.maxBufferedPackets ≤ c.waiting then (.ok false, c)
    else (.ok true, { c with buffered := c.buffered ++ [p] })
  else (.error (.contractViolation "buffer_inbound_packet"), c)

/-! ## Closing -/

/-- Close the connection. -/
def disconnect (c : Connection Memory) : Outcome (Connection Memory) (List Directive) :=
  if c.phase.isClosed then (.error (.contractViolation "disconnect"), c)
  else (.ok [.disconnect], c.close .sentDisconnect)

/-- Whether a frame closes the connection. -/
def isClosing : Frame → Bool
  | .connectionClose _ => true
  | _ => false

/-- The frames before the first that closes the connection. What comes after it is not looked at. -/
def beforeClosing (frames : List Frame) : List Frame := frames.takeWhile fun f => !isClosing f

/-! ## Inbound frames during the handshake -/

/-- Process one frame of a packet with a long header. -/
def handshakeFrame (setup : HandshakeSetup Memory) (epoch : Epoch) (h : Handshake Memory) :
    Frame → Outcome (Handshake Memory) (List Directive)
  | .padding _ => (.ok [], h)
  | .ping => (.ok [], h)
  | .ack _ => (.ok [], h)
  | .crypto offset data => setup.processCrypto h .inbound epoch offset data
  | .handshakeDone =>
    match setup.side with
    | .server => (.error (.protocolViolation "server received HANDSHAKE_DONE"), h)
    | .client => h.processDone
  | .raw _ _ => (.error (.contractViolation "raw frame"), h)
  | _ => (.error (.protocolViolation "frame not permitted during the handshake"), h)

/-- Process frames one after the other, up to the first that fails. -/
def handshakeFrames (setup : HandshakeSetup Memory) (epoch : Epoch) :
    List Frame → Handshake Memory → Outcome (Handshake Memory) (List Directive)
  | [], h => (.ok [], h)
  | f :: fs, h => (handshakeFrame setup epoch h f).andThen (handshakeFrames setup epoch fs)

/-- Process a packet with a long header. -/
def handshakeLong (c : Connection Memory) (h : Handshake Memory) (epoch : Epoch)
    (frames : List Frame) : Outcome (Connection Memory) (List Directive) :=
  let o := handshakeFrames c.setup epoch (beforeClosing frames) h
  if frames.any isClosing then
    match o with
    | (.error e, h) => (.error e, c.withHandshake h)
    | (.ok directives, _) => (.ok (directives ++ [.disconnect]), c.close .receivedDisconnect)
  else c.settle o

/-- Process a 1-RTT packet. A server sets it aside. A client looks for HANDSHAKE_DONE in it and, if
that is due, puts the packet back to be processed again once it is active. -/
def handshakeShort (c : Connection Memory) (h : Handshake Memory) (p : Packet) :
    Outcome (Connection Memory) (List Directive) :=
  match c.setup.side with
  | .server => (.ok [], { c with deferred := c.deferred ++ [p] })
  | .client =>
    if p.frames.any Frame.isHandshakeDone then
      match h.processDone with
      | (.error e, h) => (.error e, c.withHandshake h)
      | (.ok directives, h) =>
        { c with buffered := p :: c.buffered }.settle (.ok directives, h)
    else (.error (.protocolViolation "1-RTT packet before HANDSHAKE_DONE"), c)

/-- Process a packet during the handshake. -/
def handshakePacket (c : Connection Memory) (h : Handshake Memory) (p : Packet) :
    Outcome (Connection Memory) (List Directive) :=
  match p.type with
  | .oneRtt => c.handshakeShort h p
  | _ =>
    match p.epoch? with
    | some epoch => c.handshakeLong h epoch p.frames
    | none => (.error (.protocolViolation "packet without an epoch"), c)

/-! ## Inbound frames of an active connection -/

/-- What to do about one frame: data and tokens belong to the layer above. -/
def activeFrame (side : Side) : Frame → Result (List Directive)
  | .stream chunk => .ok [.forwardFrame (.stream chunk)]
  | .crypto offset data => .ok [.forwardFrame (.crypto offset data)]
  | .newToken token => .ok [.forwardFrame (.newToken token)]
  | .handshakeDone =>
    match side with
    | .server => .error (.protocolViolation "server received HANDSHAKE_DONE")
    | .client => .ok []
  | .raw _ _ => .error (.contractViolation "raw frame")
  | _ => .ok []

/-- What to do about frames, one after the other; the first that fails decides the error. -/
def activeFrames (side : Side) : List Frame → Result (List Directive)
  | [] => .ok []
  | f :: fs => do
    let front ← activeFrame side f
    let back ← activeFrames side fs
    return front ++ back

/-- Process a packet of an active connection. Unless it closes the connection, something is sent in
return, be it an empty packet for acknowledgements to be put in. -/
def activePacket (c : Connection Memory) (p : Packet) :
    Outcome (Connection Memory) (List Directive) :=
  match activeFrames c.side (beforeClosing p.frames) with
  | .error e => (.error e, c)
  | .ok directives =>
    if p.frames.any isClosing then
      (.ok (directives ++ [.disconnect]), c.close .receivedDisconnect)
    else (.ok (directives ++ [.emit .application []]), c)

/-! ## Processing -/

/-- Process the packet at the front of the queue, if there is one. It is taken from the queue even
if it fails. -/
def processInbound (c : Connection Memory) :
    Outcome (Connection Memory) (Option (List Directive)) :=
  if c.phase.isOpen then
    match c.buffered with
    | [] => (.ok none, c)
    | p :: rest =>
      let c := { c with buffered := rest }
      let (answer, c) := match c.phase with
        | .handshaking h => c.handshakePacket h p
        | _ => c.activePacket p
      (answer.map some, c)
  else (.error (.contractViolation "process_inbound_frame"), c)

/-- Process a frame of our own during the handshake. -/
def handshakeOutbound (c : Connection Memory) (h : Handshake Memory) (epoch : Epoch) (f : Frame) :
    Outcome (Connection Memory) (List Directive) :=
  match f with
  | .crypto offset data => c.settle (c.setup.processCrypto h .outbound epoch offset data)
  | .padding _ => c.settle (.ok [.emit epoch [f]], h)
  | .ping => c.settle (.ok [.emit epoch [f]], h)
  | .ack _ => c.settle (.ok [.emit epoch [f]], h)
  | _ => (.error (.protocolViolation "frame not permitted during the handshake"), c)

/-- Process a frame of our own that is to be sent in an epoch. -/
def processOutbound (c : Connection Memory) (f : Frame) (epoch : Epoch) :
    Outcome (Connection Memory) (List Directive) :=
  if c.phase.isOpen then
    match f with
    | .raw _ _ => (.error (.contractViolation "raw frame"), c)
    | .connectionClose _ =>
      Outcome.andThen (.ok [.emit epoch [f]], c) disconnect
    | _ =>
      if f.isHandshakeDone ∧ c.side = .client then
        (.error (.protocolViolation "client sent HANDSHAKE_DONE"), c)
      else
        match c.phase with
        | .handshaking h => c.handshakeOutbound h epoch f
        | _ => (.ok [.emit epoch [f]], c)
  else (.error (.contractViolation "process_outbound_frame"), c)

end Connection

end QuicTransport
