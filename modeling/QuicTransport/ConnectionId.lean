import QuicTransport.Error

set_option autoImplicit false

/-! # Connection identifiers

An endpoint is addressed by an opaque byte string that it has chosen itself. In every version known
here it has at most twenty bytes, and it may be empty. The limit is part of the type, so an
identifier that exists can be written into a header. -/

namespace QuicTransport

/-- A connection identifier. -/
structure ConnectionId where
  bytes : Bytes
  /-- At most twenty of them. -/
  length_le : bytes.length ≤ 20
deriving DecidableEq, Repr

namespace ConnectionId

/-- The largest number of bytes in an identifier. -/
def maxLength : Nat := 20

/-- The identifier with the given bytes; `none` if there are too many. -/
def ofBytes? (bs : Bytes) : Option ConnectionId :=
  if h : bs.length ≤ 20 then some ⟨bs, h⟩ else none

theorem ofBytes?_bytes (c : ConnectionId) : ofBytes? c.bytes = some c := dif_pos c.length_le

theorem ofBytes?_eq_some_iff {bs : Bytes} {c : ConnectionId} :
    ofBytes? bs = some c ↔ c.bytes = bs := by
  constructor
  · intro h
    rw [ofBytes?, Option.dite_none_right_eq_some] at h
    obtain ⟨hle, hc⟩ := h
    injection hc with hc
    rw [← hc]
  · rintro rfl
    exact ofBytes?_bytes c

/-- The identifier with no bytes. -/
def empty : ConnectionId := ⟨[], by decide⟩

/-- The number of bytes. -/
def length (c : ConnectionId) : Nat := c.bytes.length

/-- The length can be written as one byte. -/
theorem toNat_ofNat_length (c : ConnectionId) : (UInt8.ofNat c.length).toNat = c.length := by
  have hle : c.length ≤ 20 := c.length_le
  rw [UInt8.toNat_ofNat', Nat.mod_eq_of_lt (by omega)]

/-- Whether there are no bytes. -/
def isEmpty (c : ConnectionId) : Bool := c.bytes.isEmpty

/-- An identifier of a wanted length, cut to the limit, with bytes drawn from a source of
randomness. -/
def draw (source : Nat → UInt8) (wanted : Nat) : ConnectionId :=
  ⟨(List.range (min wanted maxLength)).map source, by
    rw [List.length_map, List.length_range]
    exact Nat.min_le_right wanted maxLength⟩

/-- Identifiers are ordered as words in a dictionary are. -/
def compareBytes : Bytes → Bytes → Ordering
  | [], [] => .eq
  | [], _ :: _ => .lt
  | _ :: _, [] => .gt
  | a :: as, b :: bs => (compare a b).then (compareBytes as bs)

instance : Ord ConnectionId := ⟨fun a b => compareBytes a.bytes b.bytes⟩

/-- The identifier in hexadecimal. -/
def text (c : ConnectionId) : String := Hex.ofBytes c.bytes

/-- The identifier with its type, for logs. -/
def describe (c : ConnectionId) : String := s!"ConnectionId({c.text})"

end ConnectionId

end QuicTransport
