set_option autoImplicit false

/-! # Sides, directions and epochs

A connection has two sides. Seen from one of them, data goes in or out. Packets are protected in
three epochs, one after the other, each with keys and packet numbers of its own. -/

namespace QuicTransport

/-- Who this endpoint is. -/
inductive Side where
  | client
  | server
deriving DecidableEq, Repr

namespace Side

/-- The other end of the connection. -/
def opposite : Side → Side
  | .client => .server
  | .server => .client

@[simp] theorem opposite_opposite (s : Side) : s.opposite.opposite = s := by
  cases s <;> rfl

/-- The side in lower case. -/
def text : Side → String
  | .client => "client"
  | .server => "server"

/-- The side with a capital, as it appears in descriptions of state. -/
def title : Side → String
  | .client => "Client"
  | .server => "Server"

end Side

/-- Which way data goes, seen from this endpoint. -/
inductive Direction where
  | inbound
  | outbound
deriving DecidableEq, Repr

/-- The side whose data goes that way. -/
def Direction.author (d : Direction) (self : Side) : Side :=
  match d with
  | .inbound => self.opposite
  | .outbound => self

/-- A stage of packet protection. -/
inductive Epoch where
  | initial
  | handshake
  | application
deriving DecidableEq, Repr

namespace Epoch

/-- All epochs, in the order in which a connection passes through them. -/
def all : List Epoch := [.initial, .handshake, .application]

/-- The position of an epoch in that order. -/
def index : Epoch → Nat
  | .initial => 0
  | .handshake => 1
  | .application => 2

/-- The name of an epoch. -/
def text : Epoch → String
  | .initial => "initial"
  | .handshake => "handshake"
  | .application => "application"

end Epoch

/-- One value for each epoch. -/
structure PerEpoch (α : Type) where
  initial : α
  handshake : α
  application : α
deriving DecidableEq, Repr

namespace PerEpoch

variable {α : Type}

/-- The same value for each epoch. -/
def all (a : α) : PerEpoch α := ⟨a, a, a⟩

/-- The value of one epoch. -/
def get (p : PerEpoch α) : Epoch → α
  | .initial => p.initial
  | .handshake => p.handshake
  | .application => p.application

/-- Change the value of one epoch. -/
def set (p : PerEpoch α) (a : α) : Epoch → PerEpoch α
  | .initial => { p with initial := a }
  | .handshake => { p with handshake := a }
  | .application => { p with application := a }

@[simp] theorem get_all (a : α) (e : Epoch) : (all a).get e = a := by
  cases e <;> rfl

theorem get_set (p : PerEpoch α) (a : α) (e e' : Epoch) :
    (p.set a e).get e' = if e' = e then a else p.get e' := by
  cases e <;> cases e' <;> rfl

@[simp] theorem get_set_self (p : PerEpoch α) (a : α) (e : Epoch) : (p.set a e).get e = a := by
  cases e <;> rfl

end PerEpoch

end QuicTransport
