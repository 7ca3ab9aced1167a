import QuicTransport.Error
import QuicTransport.Handshake.Message

set_option autoImplicit false

/-! # The order of the handshake

Seven messages make a handshake, in a fixed order and each from a fixed side. A `Progress` says how
many of them have been processed. The server's HANDSHAKE_DONE comes last and is no message; a server
sends it as soon as it has the client's Finished, and with that it is done. -/

namespace QuicTransport

/-- How far a handshake has come: the last message processed. -/
inductive Progress where
  | idle
  | clientHello
  | serverHello
  | encryptedExtensions
  | certificate
  | certificateVerify
  | serverFinished
  | clientFinished
  | done
deriving DecidableEq, Repr

/-- The next message of a handshake. -/
structure Expectation where
  kind : MessageKind
  /-- Who writes it. -/
  author : Side
  next : Progress
deriving DecidableEq, Repr

namespace Progress

/-- All degrees of progress, in order. -/
def all : List Progress :=
  [.idle, .clientHello, .serverHello, .encryptedExtensions, .certificate, .certificateVerify,
    .serverFinished, .clientFinished, .done]

/-- The position in that order. -/
def rank : Progress → Nat
  | .idle => 0
  | .clientHello => 1
  | .serverHello => 2
  | .encryptedExtensions => 3
  | .certificate => 4
  | .certificateVerify => 5
  | .serverFinished => 6
  | .clientFinished => 7
  | .done => 8

/-- The message that comes next, as long as one does. -/
def expectation? : Progress → Option Expectation
  | .idle => some ⟨.clientHello, .client, .clientHello⟩
  | .clientHello => some ⟨.serverHello, .server, .serverHello⟩
  | .serverHello => some ⟨.encryptedExtensions, .server, .encryptedExtensions⟩
  | .encryptedExtensions => some ⟨.certificate, .server, .certificate⟩
  | .certificate => some ⟨.certificateVerify, .server, .certificateVerify⟩
  | .certificateVerify => some ⟨.finished, .server, .serverFinished⟩
  | .serverFinished => some ⟨.finished, .client, .clientFinished⟩
  | .clientFinished => none
  | .done => none

/-- What comes after, by a message or by HANDSHAKE_DONE. -/
def successor? : Progress → Option Progress
  | .idle => some .clientHello
  | .clientHello => some .serverHello
  | .serverHello => some .encryptedExtensions
  | .encryptedExtensions => some .certificate
  | .certificate => some .certificateVerify
  | .certificateVerify => some .serverFinished
  | .serverFinished => some .clientFinished
  | .clientFinished => some .done
  | .done => none

/-- A message takes the handshake to the successor. -/
theorem successor?_of_expectation? {p : Progress} {e : Expectation}
    (h : p.expectation? = some e) : p.successor? = some e.next := by
  cases p <;> cases h <;> rfl

theorem rank_successor? {p q : Progress} (h : p.successor? = some q) : q.rank = p.rank + 1 := by
  cases p <;> cases h <;> rfl

/-- The name of a degree of progress. -/
def text : Progress → String
  | .idle => "idle"
  | .clientHello => "processed_client_hello"
  | .serverHello => "processed_server_hello"
  | .encryptedExtensions => "processed_encrypted_extensions"
  | .certificate => "processed_certificate"
  | .certificateVerify => "processed_cert_verify"
  | .serverFinished => "processed_server_finished"
  | .clientFinished => "processed_client_finished"
  | .done => "processed_done"

/-- The name with capitals, as it appears in descriptions of state. -/
def title : Progress → String
  | .idle => "Idle"
  | .clientHello => "ProcessedClientHello"
  | .serverHello => "ProcessedServerHello"
  | .encryptedExtensions => "ProcessedEncryptedExtensions"
  | .certificate => "ProcessedCertificate"
  | .certificateVerify => "ProcessedCertVerify"
  | .serverFinished => "ProcessedServerFinished"
  | .clientFinished => "ProcessedClientFinished"
  | .done => "ProcessedDone"

/-- The error of a step that is out of order. -/
def outOfOrder (p : Progress) : Error :=
  .invalidStateTransition p.text ((p.successor?.map text).getD "none")

end Progress

end QuicTransport
