import QuicTransport.Bytes
import QuicTransport.Endpoint

set_option autoImplicit false

/-! # Handshake messages

The handshake protocol of TLS is a sequence of messages. This library does not look into them. It
only has to know where one ends, and that is asked of a `MessageParser`, which may belong to a TLS
engine and may remember things between questions.

Without an engine the framing of the messages is enough: a byte for the kind, three bytes for the
length of the body, the body. `Message.frame` writes it and `Message.split` finds it. -/

namespace QuicTransport

/-! ## Kinds -/

/-- The kinds of message in the handshake. -/
inductive MessageKind where
  | clientHello
  | serverHello
  | encryptedExtensions
  | certificate
  | certificateVerify
  | finished
deriving DecidableEq, Repr

namespace MessageKind

/-- All kinds, in the order of their numbers. -/
def all : List MessageKind :=
  [.clientHello, .serverHello, .encryptedExtensions, .certificate, .certificateVerify, .finished]

/-- The number of a kind. -/
def code : MessageKind → UInt8
  | .clientHello => 1
  | .serverHello => 2
  | .encryptedExtensions => 8
  | .certificate => 11
  | .certificateVerify => 15
  | .finished => 20

/-- The kind with a number, if there is one. -/
def ofCode? (n : UInt8) : Option MessageKind := all.find? fun k => k.code == n

theorem ofCode?_code (k : MessageKind) : ofCode? k.code = some k := by
  cases k <;> decide

/-- The name of a kind. -/
def text : MessageKind → String
  | .clientHello => "ClientHello"
  | .serverHello => "ServerHello"
  | .encryptedExtensions => "EncryptedExtensions"
  | .certificate => "Certificate"
  | .certificateVerify => "CertificateVerify"
  | .finished => "Finished"

/-- The side that writes messages of a kind. Both sides write a Finished. -/
def author? : MessageKind → Option Side
  | .clientHello => some .client
  | .serverHello => some .server
  | .encryptedExtensions => some .server
  | .certificate => some .server
  | .certificateVerify => some .server
  | .finished => none

/-- The epoch in which messages of a kind travel. -/
def epoch : MessageKind → Epoch
  | .clientHello => .initial
  | .serverHello => .initial
  | .encryptedExtensions => .handshake
  | .certificate => .handshake
  | .certificateVerify => .handshake
  | .finished => .handshake

end MessageKind

/-! ## Framing -/

/-- What a byte string starts with, when a message of some kind is expected. -/
inductive Parsed where
  | message (bytes : Bytes)
  /-- The beginning of a message. -/
  | needMore
  /-- Something else. -/
  | invalid
deriving DecidableEq, Repr

namespace Message

/-- A body with its kind and length in front. -/
def frame (kind : MessageKind) (body : Bytes) : Bytes :=
  kind.code :: Bytes.bigEndian 3 body.length ++ body

/-- What follows the kind: the length and the body. -/
def splitBody (kind : MessageKind) (bs : Bytes) : Parsed :=
  match Bytes.split? 3 bs with
  | none => .needMore
  | some (length, rest) =>
    match Bytes.split? (Bytes.ofBigEndian length) rest with
    | none => .needMore
    | some (body, _) => .message (kind.code :: length ++ body)

/-- Look for a framed message of the expected kind. -/
def split (kind : MessageKind) (bs : Bytes) : Parsed :=
  match bs with
  | [] => .needMore
  | code :: rest => if code = kind.code then splitBody kind rest else .invalid

end Message

/-! ## Parsers -/

/-- Whoever finds the end of a message. It is asked with the expected kind and everything that has
arrived, and its memory may change with every question. -/
structure MessageParser (Memory : Type) where
  /-- The answer to a question, and the memory afterwards. -/
  parse : Memory → MessageKind → Bytes → Parsed × Memory

namespace MessageParser

/-- The parser that goes by the framing alone and remembers nothing. -/
def framing : MessageParser Unit := ⟨fun memory kind bs => (Message.split kind bs, memory)⟩

end MessageParser

end QuicTransport
