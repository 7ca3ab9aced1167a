import QuicTransport.Bytes

set_option autoImplicit false

/-! # SHA-2

A message is padded to whole blocks of sixteen words, and each block is mixed into a state of eight
words. The functions of the family share this procedure. They differ in the word size, in a few
rotation counts, in the start of the state and in how much of its end is the digest.

The constants are not arbitrary: they are the first bits after the binary point of square and cube
roots of primes, so they are computed here and not listed. -/

namespace QuicTransport

/-- A hash function with a fixed digest length. It takes in its message block by block. -/
structure HashFunction where
  /-- The number of bytes in a block. -/
  blockLength : Nat
  /-- The number of bytes in a digest. -/
  digestLength : Nat
  digest : Bytes → Bytes
  /-- Every digest has that length. -/
  length_digest : ∀ message, (digest message).length = digestLength

namespace Sha2

/-! ## Constants -/

/-- Whether a number has no divisor but one and itself. -/
def isPrime (n : Nat) : Bool := decide (2 ≤ n) && (List.range n).all fun d => d < 2 || n % d != 0

/-- The first eighty primes. -/
def primes : List Nat := (List.range 410).filter isPrime

/-- The largest `r` of `bits` bits with `r ^ degree ≤ n`, found bit by bit from the top. -/
def root (degree n : Nat) : (bits : Nat) → (found : Nat) → Nat
  | 0, found => found
  | bits + 1, found =>
    let larger := found + 1 <<< bits
    root degree n bits (if larger.pow degree ≤ n then larger else found)

/-- The first `bits` bits after the binary point of a root of a prime below 2^9. -/
def rootFraction (degree bits prime : Nat) : Nat :=
  root degree (prime <<< (degree * bits)) (bits + 9) 0 % 1 <<< bits

/-- A word for each of the primes given: the fraction of its cube root. -/
def cubeRootWords (w : Nat) (ps : List Nat) : List (BitVec w) :=
  ps.map fun p => BitVec.ofNat w (rootFraction 3 w p)

/-- A word for each of the primes given: the fraction of its square root. -/
def squareRootWords (w : Nat) (ps : List Nat) : List (BitVec w) :=
  ps.map fun p => BitVec.ofNat w (rootFraction 2 w p)

/-! ## Rules of one function -/

/-- A sum of three rotations, or of two rotations and a shift. -/
structure Turns where
  first : Nat
  second : Nat
  /-- The third rotation or the shift. -/
  third : Nat

/-- What is particular to one function of the family. -/
structure Rules (w : Nat) where
  /-- The rotations applied to the first word of the state. -/
  upper0 : Turns
  /-- The rotations applied to the fifth word of the state. -/
  upper1 : Turns
  /-- The turns applied to the word fifteen places back in the schedule. -/
  lower0 : Turns
  /-- The turns applied to the word two places back in the schedule. -/
  lower1 : Turns
  rounds : List (BitVec w)

namespace Turns

variable {w : Nat}

/-- The sum of three rotations. -/
def rotations (t : Turns) (x : BitVec w) : BitVec w :=
  x.rotateRight t.first ^^^ x.rotateRight t.second ^^^ x.rotateRight t.third

/-- The sum of two rotations and a shift. -/
def rotationsAndShift (t : Turns) (x : BitVec w) : BitVec w :=
  x.rotateRight t.first ^^^ x.rotateRight t.second ^^^ x >>> t.third

end Turns

/-! ## The state -/

/-- Eight words. -/
structure State (w : Nat) where
  a : BitVec w
  b : BitVec w
  c : BitVec w
  d : BitVec w
  e : BitVec w
  f : BitVec w
  g : BitVec w
  h : BitVec w

namespace State

variable {w : Nat}

/-- The state with the given words; missing ones are zero. -/
def ofList (ws : List (BitVec w)) : State w :=
  let word (i : Nat) : BitVec w := ws.getD i 0
  ⟨word 0, word 1, word 2, word 3, word 4, word 5, word 6, word 7⟩

/-- The words in order. -/
def toList (s : State w) : List (BitVec w) := [s.a, s.b, s.c, s.d, s.e, s.f, s.g, s.h]

/-- Wordwise sum. -/
def add (s t : State w) : State w :=
  ⟨s.a + t.a, s.b + t.b, s.c + t.c, s.d + t.d, s.e + t.e, s.f + t.f, s.g + t.g, s.h + t.h⟩

/-- One round, with the constant and the schedule word that belong to it. -/
def step (rules : Rules w) (s : State w) (constant word : BitVec w) : State w :=
  let choice := (s.e &&& s.f) ^^^ (~~~s.e &&& s.g)
  let majority := (s.a &&& s.b) ^^^ (s.a &&& s.c) ^^^ (s.b &&& s.c)
  let t := s.h + rules.upper1.rotations s.e + choice + constant + word
  let u := rules.upper0.rotations s.a + majority
  ⟨t + u, s.a, s.b, s.c, s.d + t, s.e, s.f, s.g⟩

end State

/-! ## The procedure -/

variable {w : Nat}

/-- The next word of the schedule, from the sixteen before it. -/
def nextWord (rules : Rules w) (last : List (BitVec w)) : BitVec w :=
  rules.lower1.rotationsAndShift (last.getD 14 0) + last.getD 9 0
    + rules.lower0.rotationsAndShift (last.getD 1 0) + last.getD 0 0

/-- The schedule: the sixteen words of the block, and as many further words as are asked for. -/
def schedule (rules : Rules w) : (count : Nat) → (last : List (BitVec w)) → List (BitVec w)
  | 0, _ => []
  | count + 1, last =>
    last.getD 0 0 :: schedule rules count (last.drop 1 ++ [nextWord rules last])

/-- The words in a block of bytes. -/
def blockWords (w : Nat) (block : Bytes) : List (BitVec w) :=
  (Bytes.chunks (w / 8) block).map fun bs => BitVec.ofNat w (Bytes.ofBigEndian bs)

/-- Mix one block into the state. -/
def compress (rules : Rules w) (s : State w) (block : Bytes) : State w :=
  let words := schedule rules rules.rounds.length (blockWords w block)
  s.add ((rules.rounds.zip words).foldl (fun t kw => t.step rules kw.1 kw.2) s)

/-- A message with a one bit, zeros and its length in bits behind it, in whole blocks. The length
takes two words. -/
def pad (w : Nat) (message : Bytes) : Bytes :=
  let filled := message.length + 1 + w / 4
  message ++ 0x80 :: List.replicate (2 * w - 1 - (filled - 1) % (2 * w)) 0
    ++ Bytes.bigEndian (w / 4) (8 * message.length)

/-- The first `count` words of the state after the whole message. -/
def digest (rules : Rules w) (start : State w) (count : Nat) (message : Bytes) : Bytes :=
  let final := (Bytes.chunks (2 * w) (pad w message)).foldl (compress rules) start
  (final.toList.take count).flatMap fun word => Bytes.bigEndian (w / 8) word.toNat

theorem length_digest (rules : Rules w) (start : State w) (count : Nat) (message : Bytes) :
    (digest rules start count message).length = min count 8 * (w / 8) := by
  rw [digest, List.length_flatMap]
  simp only [Bytes.length_bigEndian, List.map_const', List.sum_replicate_nat, List.length_take,
    State.toList, List.length_cons, List.length_nil]

/-! ## The functions in use -/

/-- The rules for words of 32 bits. -/
def rules32 : Rules 32 where
  upper0 := ⟨2, 13, 22⟩
  upper1 := ⟨6, 11, 25⟩
  lower0 := ⟨7, 18, 3⟩
  lower1 := ⟨17, 19, 10⟩
  rounds := cubeRootWords 32 (primes.take 64)

/-- The rules for words of 64 bits. -/
def rules64 : Rules 64 where
  upper0 := ⟨28, 34, 39⟩
  upper1 := ⟨14, 18, 41⟩
  lower0 := ⟨1, 8, 7⟩
  lower1 := ⟨19, 61, 6⟩
  rounds := cubeRootWords 64 primes

/-- The start of SHA-256. -/
def start256 : State 32 := .ofList (squareRootWords 32 (primes.take 8))

/-- The start of SHA-384, from the second eight primes. -/
def start384 : State 64 := .ofList (squareRootWords 64 ((primes.drop 8).take 8))

end Sha2

namespace HashFunction

/-- SHA-256. -/
def sha256 : HashFunction where
  blockLength := 64
  digestLength := 32
  digest := Sha2.digest Sha2.rules32 Sha2.start256 8
  length_digest := Sha2.length_digest Sha2.rules32 Sha2.start256 8

/-- SHA-384. -/
def sha384 : HashFunction where
  blockLength := 128
  digestLength := 48
  digest := Sha2.digest Sha2.rules64 Sha2.start384 6
  length_digest := Sha2.length_digest Sha2.rules64 Sha2.start384 6

end HashFunction

end QuicTransport
