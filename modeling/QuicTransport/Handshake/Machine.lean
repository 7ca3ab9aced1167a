import QuicTransport.Config
import QuicTransport.Directive
import QuicTransport.Handshake.CryptoStream
import QuicTransport.Handshake.Progress

set_option autoImplicit false

/-! # The handshake

A handshake takes CRYPTO frames in both directions: what the peer sent, and what the local TLS
engine wants to send. In each direction the frames are reassembled for each epoch, and what is
complete is appended to one buffer of bytes that wait for the rest of their message. As soon as a
message is whole, it is taken from the buffer, the handshake moves on, and the owner is told what to
do.

A message must be the one that is expected and come from the side that writes it. All steps before a
failure keep their effect. -/

namespace QuicTransport

/-! ## What does not change -/

/-- Everything about a handshake that is settled before it begins. -/
structure HandshakeSetup (Memory : Type) where
  side : Side
  config : Config
  /-- Whoever finds the end of a message. -/
  parser : MessageParser Memory
  /-- What it remembers at first. -/
  memory : Memory
  /-- Where random bytes come from. -/
  randomness : Nat → UInt8

namespace HandshakeSetup

variable {Memory : Type}

/-- The token that a server issues at the end. It has the length that is set. -/
def newToken (setup : HandshakeSetup Memory) : Bytes :=
  (List.range setup.config.newTokenLength).map setup.randomness

@[simp] theorem length_newToken (setup : HandshakeSetup Memory) :
    setup.newToken.length = setup.config.newTokenLength := by
  simp [newToken]

end HandshakeSetup

/-! ## One direction -/

/-- The CRYPTO data of one direction. -/
structure CryptoFlow where
  /-- The streams in which the data arrives. -/
  streams : PerEpoch CryptoStream := .all .empty
  /-- The bytes in order that no message has claimed yet. -/
  waiting : Bytes := []
  /-- How many bytes of each epoch have gone into messages. -/
  consumed : PerEpoch Nat := .all 0
deriving DecidableEq, Repr

namespace CryptoFlow

/-- Take in a chunk of an epoch's stream. Neither what is held back by a stream nor what waits for
its message may exceed the limit. -/
def receive (f : CryptoFlow) (limit : Nat) (epoch : Epoch) (offset : Nat) (data : Bytes) :
    Outcome CryptoFlow Unit :=
  match (f.streams.get epoch).insert offset data limit with
  | (.error e, s) => (.error e, { f with streams := f.streams.set s epoch })
  | (.ok bytes, s) =>
    let f' := { f with streams := f.streams.set s epoch, waiting := f.waiting ++ bytes }
    if limit < f'.waiting.length then (.error (.transport .cryptoBufferExceeded), f')
    else (.ok (), f')

/-- Take a message away from the waiting bytes. Its place in the stream is what has been consumed so
far. -/
def consume (f : CryptoFlow) (epoch : Epoch) (count : Nat) : CryptoFlow :=
  { f with
    waiting := f.waiting.drop count
    consumed := f.consumed.set (f.consumed.get epoch + count) epoch }

end CryptoFlow

/-! ## The state -/

/-- A handshake under way. -/
structure Handshake (Memory : Type) where
  progress : Progress
  memory : Memory
  inbound : CryptoFlow := {}
  outbound : CryptoFlow := {}

namespace Handshake

variable {Memory : Type}

/-- The data of one direction. -/
def flow (h : Handshake Memory) : Direction → CryptoFlow
  | .inbound => h.inbound
  | .outbound => h.outbound

/-- Change the data of one direction. -/
def setFlow (h : Handshake Memory) (f : CryptoFlow) : Direction → Handshake Memory
  | .inbound => { h with inbound := f }
  | .outbound => { h with outbound := f }

@[simp] theorem flow_setFlow (h : Handshake Memory) (f : CryptoFlow) (d : Direction) :
    (h.setFlow f d).flow d = f := by
  cases d <;> rfl

/-- Whether the handshake is complete. -/
def isDone (h : Handshake Memory) : Bool := h.progress == .done

end Handshake

namespace HandshakeSetup

variable {Memory : Type}

/-- A handshake of which nothing has happened. -/
def start (setup : HandshakeSetup Memory) : Handshake Memory :=
  { progress := .idle, memory := setup.memory }

/-! ## The next message -/

/-- A whole message that was expected. -/
structure Found where
  expectation : Expectation
  message : Bytes

/-- What an answer of the parser means for the bytes it was asked about. A message has at least one
byte and is no longer than they are. -/
def judge (progress : Progress) (e : Expectation) (waiting : Bytes) : Parsed → Result (Option Found)
  | .needMore => .ok none
  | .invalid => .error progress.outOfOrder
  | .message bytes =>
    if bytes.length = 0 ∨ waiting.length < bytes.length then
      .error (.contractViolation "TLS parser returned a bad message length")
    else .ok (some ⟨e, bytes⟩)

/-- Look for the next message among bytes that wait; there is at least one. Bytes behind the last
message, or behind the last before the other side's turn, are left over; `isFirst` tells whether a
message has gone before. -/
def look (setup : HandshakeSetup Memory) (h : Handshake Memory) (author : Side) (isFirst : Bool)
    (waiting : Bytes) : Outcome Memory (Option Found) :=
  match h.progress.expectation? with
  | none => (.error (.unexpectedTrailingBytes waiting.length), h.memory)
  | some e =>
    if e.author ≠ author then
      (.error (if isFirst then h.progress.outOfOrder else .unexpectedTrailingBytes waiting.length),
        h.memory)
    else
      let (answer, memory) := setup.parser.parse h.memory e.kind waiting
      (judge h.progress e waiting answer, memory)

/-- A message that is found takes at least one byte. -/
theorem length_of_look {setup : HandshakeSetup Memory} {h : Handshake Memory} {author : Side}
    {isFirst : Bool} {waiting : Bytes} {found : Found} {memory : Memory}
    (hlook : setup.look h author isFirst waiting = (.ok (some found), memory)) :
    0 < found.message.length ∧ found.message.length ≤ waiting.length := by
  unfold look at hlook
  split at hlook
  · cases hlook
  · split at hlook
    · cases hlook
    · have hjudge := congrArg Prod.fst hlook
      simp only at hjudge
      unfold judge at hjudge
      split at hjudge
      · cases hjudge
      · cases hjudge
      · split at hjudge
        · cases hjudge
        · next hlength =>
          injection hjudge with hjudge
          injection hjudge with hjudge
          subst hjudge
          simp only
          omega

/-! ## Moving on -/

/-- What is to be sent because of a message. Our own messages go out as CRYPTO frames; the first,
which starts the connection, is left to the layer above. The client's Finished makes a server
confirm the handshake and issue a token. -/
def sendings (setup : HandshakeSetup Memory) (d : Direction) (e : Expectation) (crypto : Frame) :
    List Directive :=
  match d with
  | .outbound =>
    if setup.side = .client ∧ e.next = .clientHello then [.forwardFrame crypto]
    else [.emit e.kind.epoch [crypto]]
  | .inbound =>
    if setup.side = .server ∧ e.next = .clientFinished then
      [.emit .application [.handshakeDone, .newToken setup.newToken]]
    else []

/-- What the owner can do with its keys once a message has been processed. -/
def keyChanges : Progress → List Directive
  | .serverHello => [.allowBufferedFlush .handshake, .updateDcid, .dropKeys .initial]
  | .serverFinished => [.allowBufferedFlush .application]
  | .clientFinished => [.allowBufferedFlush .application]
  | _ => []

/-- The progress after a message. The client's Finished completes the handshake of a server. -/
def progressAfter (setup : HandshakeSetup Memory) (e : Expectation) : Progress :=
  if setup.side = .server ∧ e.next = .clientFinished then .done else e.next

/-- Move past a message. -/
def advance (setup : HandshakeSetup Memory) (h : Handshake Memory) (d : Direction) (found : Found) :
    List Directive × Handshake Memory :=
  let e := found.expectation
  let f := h.flow d
  let crypto := Frame.crypto (f.consumed.get e.kind.epoch) found.message
  (setup.sendings d e crypto ++ keyChanges e.next,
    { h.setFlow (f.consume e.kind.epoch found.message.length) d with
      progress := setup.progressAfter e })

theorem waiting_advance (setup : HandshakeSetup Memory) (h : Handshake Memory) (d : Direction)
    (found : Found) :
    ((setup.advance h d found).2.flow d).waiting
      = (h.flow d).waiting.drop found.message.length := by
  cases d <;> rfl

/-- Process all whole messages among the bytes that wait in one direction. -/
def drain (setup : HandshakeSetup Memory) (d : Direction) (isFirst : Bool) (h : Handshake Memory) :
    Outcome (Handshake Memory) (List Directive) :=
  if (h.flow d).waiting = [] then (.ok [], h)
  else
    match _h : setup.look h (d.author setup.side) isFirst (h.flow d).waiting with
    | (.error e, memory) => (.error e, { h with memory })
    | (.ok none, memory) => (.ok [], { h with memory })
    | (.ok (some found), memory) =>
      let moved := setup.advance { h with memory } d found
      match setup.drain d false moved.2 with
      | (.ok more, h') => (.ok (moved.1 ++ more), h')
      | (.error e, h') => (.error e, h')
termination_by (h.flow d).waiting.length
decreasing_by
  have hlength := length_of_look ‹_›
  rw [waiting_advance, List.length_drop]
  cases d <;> simp only [Handshake.flow] at hlength ⊢ <;> omega

/-! ## Operations -/

/-- Process a CRYPTO frame. While a message is incomplete there is nothing to do. -/
def processCrypto (setup : HandshakeSetup Memory) (h : Handshake Memory) (d : Direction)
    (epoch : Epoch) (offset : Nat) (data : Bytes) : Outcome (Handshake Memory) (List Directive) :=
  match (h.flow d).receive setup.config.maxCryptoBuffer epoch offset data with
  | (.error e, f) => (.error e, h.setFlow f d)
  | (.ok (), f) => setup.drain d true (h.setFlow f d)

end HandshakeSetup

namespace Handshake

variable {Memory : Type}

/-- Process HANDSHAKE_DONE, which is due only after the client's Finished. There is nothing to do
about it. -/
def processDone (h : Handshake Memory) : Outcome (Handshake Memory) (List Directive) :=
  if h.progress = .clientFinished then (.ok [], { h with progress := .done })
  else (.error (.invalidStateTransition h.progress.text Progress.done.text), h)

/-- A handshake for logs. -/
def describe (side : Side) (h : Handshake Memory) : String :=
  s!"HandshakeStateMachine \x7b side: {side.title}, state: {h.progress.title}, .. \x7d"

end Handshake

end QuicTransport
