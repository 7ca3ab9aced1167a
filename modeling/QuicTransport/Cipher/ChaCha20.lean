import QuicTransport.Bytes

set_option autoImplicit false

/-! # ChaCha20

A block of keystream is made from sixteen words: a constant, the key, a counter and the nonce. Ten
times over, the words are mixed in columns and in diagonals, four at a time; the words from before
are added at the end. All words are little-endian. -/

namespace QuicTransport.ChaCha20

/-- Sixteen words. -/
abbrev State := Vector UInt32 16

/-- The words in a byte string. -/
def words (bs : Bytes) : List UInt32 :=
  (Bytes.chunks 4 bs).map fun w => UInt32.ofNat (Bytes.ofLittleEndian w)

/-- The state before mixing. -/
def start (key : Bytes) (counter : Nat) (nonce : Bytes) : State :=
  let ws := (words (asciiBytes "expand 32-byte k") ++ words key ++ [UInt32.ofNat counter]
    ++ words nonce).toArray
  Vector.ofFn fun i => ws.getD i.val 0

/-- A word turned left. -/
def rotate (w : UInt32) (count : UInt32) : UInt32 := (w <<< count) ||| (w >>> (32 - count))

/-- Add one word to another, then add the sum to a third without carry and turn it. -/
def addAndTurn (a b d : Fin 16) (count : UInt32) (s : State) : State :=
  let sum := s.get a + s.get b
  let turned := rotate (s.get d ^^^ sum) count
  (s.setIfInBounds a.val sum).setIfInBounds d.val turned

/-- Mix four words. -/
def quarterRound (s : State) (a b c d : Fin 16) : State :=
  addAndTurn c d b 7 (addAndTurn a b d 8 (addAndTurn c d b 12 (addAndTurn a b d 16 s)))

/-- A place in the square of four rows of four words; columns are counted round and round. -/
def place (row column : Nat) : Fin 16 :=
  ⟨(4 * row + column % 4) % 16, Nat.mod_lt _ (Nat.succ_pos 15)⟩

/-- Mix one word of each row: each row is `slant` columns further right than the one above. -/
def mixLine (slant : Nat) (s : State) (column : Nat) : State :=
  quarterRound s (place 0 column) (place 1 (column + slant)) (place 2 (column + 2 * slant))
    (place 3 (column + 3 * slant))

/-- Mix the columns, then the diagonals. -/
def doubleRound (s : State) : State :=
  (List.range 4).foldl (mixLine 1) ((List.range 4).foldl (mixLine 0) s)

/-- A state mixed a number of times. -/
def mix : (count : Nat) → State → State
  | 0, s => s
  | count + 1, s => mix count (doubleRound s)

/-- The block of keystream with the given counter: sixty-four bytes. -/
def block (key : Bytes) (counter : Nat) (nonce : Bytes) : Bytes :=
  let s := start key counter nonce
  ((mix 10 s).zipWith (· + ·) s).toList.flatMap fun w => Bytes.littleEndian 4 w.toNat

@[simp] theorem length_block (key : Bytes) (counter : Nat) (nonce : Bytes) :
    (block key counter nonce).length = 64 := by
  rw [block, List.length_flatMap]
  simp only [Bytes.length_littleEndian, List.map_const', List.sum_replicate_nat,
    Vector.length_toList]

/-- The keystream from the given counter on, in whole blocks, at least `length` bytes. -/
def keystream (key : Bytes) (counter : Nat) (nonce : Bytes) (length : Nat) : Bytes :=
  (List.range ((length + 63) / 64)).flatMap fun i => block key (counter + i) nonce

theorem length_keystream (key : Bytes) (counter : Nat) (nonce : Bytes) (length : Nat) :
    length ≤ (keystream key counter nonce length).length := by
  rw [keystream, List.length_flatMap]
  simp only [length_block, List.map_const', List.sum_replicate_nat, List.length_range]
  omega

end QuicTransport.ChaCha20
