import QuicTransport.Hex

set_option autoImplicit false

/-! # Errors

Two vocabularies. A `TransportError` is a code of the wire protocol, the one carried in a
CONNECTION_CLOSE frame. An `Error` is what an operation of this library reports: its cause, with the
data that explains it. Every `Error` has one text (`Error.message`) and one transport code
(`Error.transportError`), so an owner can both log it and close the connection with it.

Some errors are no fault of the peer: the owner broke a rule of this library. Those are the fatal
ones (`Error.isFatal`). -/

namespace QuicTransport

/-! ## Transport error codes -/

/-- A transport error code. The first seventeen are numbered from zero in this order; the alerts of
the TLS layer follow at 0x100. -/
inductive TransportError where
  | noError
  | internalError
  | connectionRefused
  | flowControlError
  | streamLimitError
  | streamStateError
  | finalSizeError
  | frameEncodingError
  | transportParameterError
  | connectionIdLimitError
  | protocolViolation
  | invalidToken
  | applicationError
  | cryptoBufferExceeded
  | keyUpdateError
  | aeadLimitReached
  | noViablePath
  | crypto (alert : UInt8)
deriving DecidableEq, Repr

namespace TransportError

/-- The codes below 0x100, in numeric order. -/
def plain : List TransportError :=
  [.noError, .internalError, .connectionRefused, .flowControlError, .streamLimitError,
    .streamStateError, .finalSizeError, .frameEncodingError, .transportParameterError,
    .connectionIdLimitError, .protocolViolation, .invalidToken, .applicationError,
    .cryptoBufferExceeded, .keyUpdateError, .aeadLimitReached, .noViablePath]

/-- The number on the wire. -/
def code : TransportError → Nat
  | .noError => 0x00
  | .internalError => 0x01
  | .connectionRefused => 0x02
  | .flowControlError => 0x03
  | .streamLimitError => 0x04
  | .streamStateError => 0x05
  | .finalSizeError => 0x06
  | .frameEncodingError => 0x07
  | .transportParameterError => 0x08
  | .connectionIdLimitError => 0x09
  | .protocolViolation => 0x0a
  | .invalidToken => 0x0b
  | .applicationError => 0x0c
  | .cryptoBufferExceeded => 0x0d
  | .keyUpdateError => 0x0e
  | .aeadLimitReached => 0x0f
  | .noViablePath => 0x10
  | .crypto alert => 0x100 + alert.toNat

/-- The error with a given number, if there is one. -/
def ofCode? (n : Nat) : Option TransportError :=
  if 0x100 ≤ n ∧ n ≤ 0x1ff then some (.crypto (UInt8.ofNat (n - 0x100))) else plain[n]?

/-- Every error is found under its own number. -/
theorem ofCode?_code (e : TransportError) : ofCode? e.code = some e := by
  cases e with
  | crypto alert =>
    have hlt : alert.toNat < 256 := alert.toNat_lt
    have hrange : 0x100 ≤ (crypto alert).code ∧ (crypto alert).code ≤ 0x1ff := by
      simp only [code]
      omega
    rw [ofCode?, if_pos hrange]
    simp only [code, Nat.add_sub_cancel_left, UInt8.ofNat_toNat]
  | _ => rfl

/-- The name, with the alert number where there is one. -/
def name : TransportError → String
  | .noError => "NoError"
  | .internalError => "InternalError"
  | .connectionRefused => "ConnectionRefused"
  | .flowControlError => "FlowControlError"
  | .streamLimitError => "StreamLimitError"
  | .streamStateError => "StreamStateError"
  | .finalSizeError => "FinalSizeError"
  | .frameEncodingError => "FrameEncodingError"
  | .transportParameterError => "TransportParameterError"
  | .connectionIdLimitError => "ConnectionIdLimitError"
  | .protocolViolation => "ProtocolViolation"
  | .invalidToken => "InvalidToken"
  | .applicationError => "ApplicationError"
  | .cryptoBufferExceeded => "CryptoBufferExceeded"
  | .keyUpdateError => "KeyUpdateError"
  | .aeadLimitReached => "AeadLimitReached"
  | .noViablePath => "NoViablePath"
  | .crypto alert => s!"Crypto({alert.toNat})"

/-- The name followed by the number, as in `NoError (0x0)`. -/
def describe (e : TransportError) : String := s!"{e.name} (0x{Hex.ofNat e.code})"

end TransportError

/-! ## Failures of packet protection -/

/-- What can go wrong with keys, ciphers and header protection. -/
inductive CryptoError where
  /-- A packet did not authenticate. -/
  | authenticationFailed
  /-- A packet ends before its header protection sample does. -/
  | sampleTooShort (needed available : Nat)
  /-- The keys for one direction are not there. -/
  | missingKeys (slot : String)
  /-- The keys for one direction are already there. -/
  | keyAlreadyInstalled (slot : String)
  /-- A key does not have the length its cipher needs. -/
  | invalidKeyLength (cipher : String)
  /-- A key could not be derived. -/
  | keyDerivation (detail : String)
  /-- A cipher suite is not one of those implemented. -/
  | unsupportedCipherSuite (code : UInt16)
deriving DecidableEq, Repr

/-- The text of a failure of packet protection. -/
def CryptoError.message : CryptoError → String
  | .authenticationFailed => "packet authentication failed"
  | .sampleTooShort needed available =>
    s!"header protection sample unavailable: need {needed} bytes, have {available}"
  | .missingKeys slot => s!"no {slot} keys installed"
  | .keyAlreadyInstalled slot => s!"{slot} keys already installed"
  | .invalidKeyLength cipher => s!"invalid key length for {cipher}"
  | .keyDerivation detail => s!"key derivation failed: {detail}"
  | .unsupportedCipherSuite code => s!"unsupported cipher suite 0x{Hex.padded 4 code.toNat}"

/-- The kind of a failure of packet protection. -/
def CryptoError.kind : CryptoError → String
  | .authenticationFailed => "AuthenticationFailed"
  | .sampleTooShort _ _ => "SampleTooShort"
  | .missingKeys _ => "MissingKeys"
  | .keyAlreadyInstalled _ => "KeyAlreadyInstalled"
  | .invalidKeyLength _ => "InvalidKeyLength"
  | .keyDerivation _ => "KeyDerivation"
  | .unsupportedCipherSuite _ => "UnsupportedCipherSuite"

/-! ## Errors of the library -/

/-- Why an operation failed. -/
inductive Error where
  /-- A transport error that is its own cause. -/
  | transport (error : TransportError)
  /-- A failure of packet protection. -/
  | crypto (error : CryptoError)
  /-- A state machine was asked for a step it does not have. -/
  | invalidStateTransition (source target : String)
  /-- Handshake bytes are left over where no message may start. -/
  | unexpectedTrailingBytes (count : Nat)
  /-- A version this library has no rules for. -/
  | unsupportedVersion (word : UInt32)
  /-- A number that no variable-length integer can hold. -/
  | varIntOutOfRange (value : Nat)
  /-- A connection identifier of a length that is not allowed. -/
  | invalidConnectionIdLength (length : Nat)
  /-- A frame that cannot be read or written. -/
  | frameEncoding (detail : String)
  /-- A packet that cannot be read or written. -/
  | malformedPacket (detail : String)
  /-- The peer broke a rule of the protocol. -/
  | protocolViolation (detail : String)
  /-- The inbound packet buffer has no room. -/
  | bufferFull
  /-- The owner broke a rule of this library. -/
  | contractViolation (detail : String)
  /-- The configuration has the problems listed. -/
  | invalidConfig (detail : String)
deriving DecidableEq, Repr

namespace Error

/-- The text of an error. -/
def message : Error → String
  | .transport e => s!"transport error: {e.describe}"
  | .crypto e => s!"crypto error: {e.message}"
  | .invalidStateTransition source target =>
    s!"invalid state transition from {source} to {target}"
  | .unexpectedTrailingBytes count => s!"{count} unexpected bytes left after TLS message"
  | .unsupportedVersion word => s!"unsupported version 0x{Hex.padded 8 word.toNat}"
  | .varIntOutOfRange value => s!"value {value} out of range for a variable-length integer"
  | .invalidConnectionIdLength length => s!"invalid connection id length {length}"
  | .frameEncoding detail => s!"frame encoding error: {detail}"
  | .malformedPacket detail => s!"malformed packet: {detail}"
  | .protocolViolation detail => s!"protocol violation: {detail}"
  | .bufferFull => "inbound packet buffer full"
  | .contractViolation detail => s!"contract violation: {detail}"
  | .invalidConfig detail => s!"invalid configuration: {detail}"

/-- The kind of an error, without its data: a key under which to count errors. -/
def kind : Error → String
  | .transport _ => "Transport"
  | .crypto e => s!"Crypto.{e.kind}"
  | .invalidStateTransition _ _ => "InvalidStateTransition"
  | .unexpectedTrailingBytes _ => "UnexpectedTrailingBytes"
  | .unsupportedVersion _ => "UnsupportedVersion"
  | .varIntOutOfRange _ => "VarIntOutOfRange"
  | .invalidConnectionIdLength _ => "InvalidConnectionIdLength"
  | .frameEncoding _ => "FrameEncoding"
  | .malformedPacket _ => "MalformedPacket"
  | .protocolViolation _ => "ProtocolViolation"
  | .bufferFull => "BufferFull"
  | .contractViolation _ => "ContractViolation"
  | .invalidConfig _ => "InvalidConfig"

/-- The transport code with which to close a connection after an error. Handshake trouble becomes a
TLS alert: 40 for an unknown cipher suite, 10 for a message out of order. -/
def transportError : Error → TransportError
  | .transport e => e
  | .crypto (.unsupportedCipherSuite _) => .crypto 40
  | .crypto .authenticationFailed => .protocolViolation
  | .crypto _ => .internalError
  | .invalidStateTransition _ _ => .crypto 10
  | .varIntOutOfRange _ => .frameEncodingError
  | .frameEncoding _ => .frameEncodingError
  | .contractViolation _ => .internalError
  | .invalidConfig _ => .internalError
  | .unexpectedTrailingBytes _ => .protocolViolation
  | .unsupportedVersion _ => .protocolViolation
  | .invalidConnectionIdLength _ => .protocolViolation
  | .malformedPacket _ => .protocolViolation
  | .protocolViolation _ => .protocolViolation
  | .bufferFull => .protocolViolation

/-- Whether the owner, and not the peer, is at fault. -/
def isFatal : Error → Bool
  | .contractViolation _ => true
  | .invalidConfig _ => true
  | .crypto (.keyAlreadyInstalled _) => true
  | _ => false

end Error

/-- The outcome of an operation that can fail. -/
abbrev Result (α : Type) := Except Error α

namespace Result

variable {α β : Type}

/-- Two operations in a row succeed if both do. -/
theorem bind_eq_ok {r : Result α} {next : α → Result β} {b : β} :
    r >>= next = .ok b ↔ ∃ a, r = .ok a ∧ next a = .ok b := by
  cases r with
  | error e =>
    constructor
    · intro h
      cases h
    · rintro ⟨a, h, _⟩
      cases h
  | ok a =>
    constructor
    · intro h
      exact ⟨a, rfl, h⟩
    · rintro ⟨_, ⟨⟩, h⟩
      exact h

/-- Two operations in a row fail if the first one does, or the second after it. -/
theorem bind_eq_error {r : Result α} {next : α → Result β} {e : Error} :
    r >>= next = .error e ↔ r = .error e ∨ ∃ a, r = .ok a ∧ next a = .error e := by
  cases r with
  | error e' =>
    constructor
    · rintro ⟨⟩
      exact Or.inl rfl
    · rintro (⟨⟨⟩⟩ | ⟨a, h, _⟩)
      · rfl
      · cases h
  | ok a =>
    constructor
    · intro h
      exact Or.inr ⟨a, rfl, h⟩
    · rintro (h | ⟨_, ⟨⟩, h⟩)
      · cases h
      · exact h

theorem exists_of_isOk {r : Result α} (h : r.isOk = true) : ∃ a, r = .ok a := by
  cases r with
  | ok a => exact ⟨a, rfl⟩
  | error e => cases h

end Result

end QuicTransport
