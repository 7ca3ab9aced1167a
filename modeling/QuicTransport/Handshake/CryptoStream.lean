import QuicTransport.Error

set_option autoImplicit false

/-! # CRYPTO streams

The data of an epoch's handshake is one stream of bytes, cut into chunks that may arrive late, twice
or overlapping. A `CryptoStream` gives out each byte once and in order. What arrives beyond a gap is
held back until the gap is filled.

Held chunks are kept in the order of their offsets, and no two of them have the same offset: of two
that start at the same place the longer is kept. The number of bytes held is limited, since a peer
could send nothing but gaps. -/

namespace QuicTransport

/-- Data at a place in the stream. -/
structure Chunk where
  /-- The position of the first byte. -/
  offset : Nat
  data : Bytes
deriving DecidableEq, Repr

/-- The position behind the last byte. -/
def Chunk.stop (c : Chunk) : Nat := c.offset + c.data.length

/-- A stream in the course of arriving. -/
structure CryptoStream where
  /-- The position up to which everything has been given out. -/
  delivered : Nat := 0
  /-- What is held back, in the order of offsets. -/
  pending : List Chunk := []
  /-- The number of bytes held back. -/
  pendingBytes : Nat := 0
deriving DecidableEq, Repr

namespace CryptoStream

/-- A stream of which nothing has arrived. -/
def empty : CryptoStream := {}

/-! ## Holding back -/

/-- The chunk that is held at an offset. -/
def heldAt? (offset : Nat) (pending : List Chunk) : Option Chunk :=
  pending.find? fun c => c.offset == offset

/-- Put a chunk in its place, instead of one with the same offset. -/
def keep (c : Chunk) : List Chunk → List Chunk
  | [] => [c]
  | d :: ds =>
    if c.offset < d.offset then c :: d :: ds
    else if c.offset = d.offset then c :: ds
    else d :: keep c ds

/-- The number of bytes held once a chunk takes the place of one with the same offset. -/
def bytesWith (s : CryptoStream) (c : Chunk) : Nat :=
  match heldAt? c.offset s.pending with
  | some old => s.pendingBytes - old.data.length + c.data.length
  | none => s.pendingBytes + c.data.length

/-- Hold a chunk back. A chunk that goes beyond the limit is refused, but it is held all
the same. -/
def hold (s : CryptoStream) (c : Chunk) (limit : Nat) : Result Bytes × CryptoStream :=
  if (heldAt? c.offset s.pending).any fun old => decide (c.data.length ≤ old.data.length) then
    (.ok [], s)
  else
    let s' := { s with pending := keep c s.pending, pendingBytes := s.bytesWith c }
    if limit < s'.pendingBytes then (.error (.transport .cryptoBufferExceeded), s')
    else (.ok [], s')

/-! ## Giving out -/

/-- Give out what is held up to the next gap, starting at a position. -/
def release : (pending : List Chunk) → (delivered pendingBytes : Nat) → Bytes × CryptoStream
  | [], delivered, pendingBytes => ([], ⟨delivered, [], pendingBytes⟩)
  | c :: cs, delivered, pendingBytes =>
    if delivered < c.offset then ([], ⟨delivered, c :: cs, pendingBytes⟩)
    else
      let (bytes, s) := release cs (max delivered c.stop) (pendingBytes - c.data.length)
      (c.data.drop (delivered - c.offset) ++ bytes, s)

/-- Take in a chunk and give out the bytes that are next in order. There are none if the chunk has
been given out before, or if it lies beyond a gap. -/
def insert (s : CryptoStream) (offset : Nat) (data : Bytes) (limit : Nat) :
    Result Bytes × CryptoStream :=
  let stop := offset + data.length
  if stop ≤ s.delivered then (.ok [], s)
  else if s.delivered < offset then s.hold ⟨offset, data⟩ limit
  else
    let (bytes, s') := release s.pending stop s.pendingBytes
    (.ok (data.drop (s.delivered - offset) ++ bytes), s')

end CryptoStream

end QuicTransport
