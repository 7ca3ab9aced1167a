import QuicTransport.Bytes

set_option autoImplicit false

/-! # AES

A block of sixteen bytes is a square of four columns. A round substitutes every byte, turns the
rows, mixes each column and adds a round key; the last round does not mix. All arithmetic is in the
field of 256 elements whose reduction polynomial is `x^8 + x^4 + x^3 + x + 1`: the substitution is
an inverse followed by an affine map, and mixing is a product with a fixed polynomial.

Packet protection uses the forward direction only, so there is no inverse cipher here. -/

namespace QuicTransport.Aes

/-! ## The field -/

/-- The product with `x`. -/
def double (b : UInt8) : UInt8 := if b &&& 0x80 = 0 then b <<< 1 else (b <<< 1) ^^^ 0x1b

/-- The product of two elements, from the lowest `bits` bits of the second. -/
def mul : (bits : Nat) → (a b : UInt8) → UInt8
  | 0, _, _ => 0
  | bits + 1, a, b => (if b &&& 1 = 0 then 0 else a) ^^^ mul bits (double a) (b >>> 1)

/-- The power of an element. -/
def pow (a : UInt8) : (exponent : Nat) → UInt8
  | 0 => 1
  | exponent + 1 => mul 8 (pow a exponent) a

/-- The inverse of an element, and zero for zero: every element but zero has order dividing 255. -/
def inverse (a : UInt8) : UInt8 := pow a 254

/-- A byte turned left by a number of bits below eight. -/
def rotateByte (b : UInt8) (count : UInt8) : UInt8 := (b <<< count) ||| (b >>> (8 - count))

/-- The substitute of a byte. -/
def substituteByte (b : UInt8) : UInt8 :=
  let i := inverse b
  i ^^^ rotateByte i 1 ^^^ rotateByte i 2 ^^^ rotateByte i 3 ^^^ rotateByte i 4 ^^^ 0x63

/-- All substitutes, computed once. -/
def substitutes : Vector UInt8 256 := Vector.ofFn fun i => substituteByte (UInt8.ofNat i.val)

/-- The substitute of a byte, from the table. -/
def substitute (b : UInt8) : UInt8 := substitutes.get ⟨b.toNat, b.toNat_lt⟩

/-! ## Blocks -/

/-- A block, column after column. -/
abbrev Block := Vector UInt8 16

/-- The block with the given bytes; missing ones are zero. -/
def Block.ofBytes (bs : Bytes) : Block :=
  let padded := bs.toArray
  Vector.ofFn fun i => padded.getD i.val 0

/-- Substitute every byte. -/
def substituteBytes (b : Block) : Block := b.map substitute

/-- Turn each row left by its number. -/
def turnRows (b : Block) : Block := Vector.ofFn fun i : Fin 16 => b[i + 4 * (i % 4)]

/-- Mix each column. A byte is the sum of its own double, of the triple of the byte below it and of
the other two, going round the column. -/
def mixColumns (b : Block) : Block :=
  Vector.ofFn fun i : Fin 16 =>
    let below (k : Fin 16) : UInt8 := b[4 * (i / 4) + (i + k) % 4]
    double (below 0) ^^^ double (below 1) ^^^ below 1 ^^^ below 2 ^^^ below 3

/-- Add a round key. -/
def addKey (key b : Block) : Block := Vector.ofFn fun i => key[i] ^^^ b[i]

/-! ## Round keys -/

/-- A word of the expanded key, four bytes. -/
abbrev KeyWord := List UInt8

/-- The word that follows, from the one before it and the one a whole key length back. Every first
word of a key length is turned, substituted and marked with a power of `x`; with keys of more than
six words the fifth is substituted too. -/
def nextKeyWord (keyWords index : Nat) (before back : KeyWord) : KeyWord :=
  let mixed :=
    if index % keyWords = 0 then
      match (before.drop 1 ++ before.take 1).map substitute with
      | first :: rest => (first ^^^ pow 2 (index / keyWords - 1)) :: rest
      | [] => []
    else if 6 < keyWords ∧ index % keyWords = 4 then before.map substitute
    else before
  Bytes.xor mixed back

/-- `count` more words of the expanded key, from the last `keyWords` words, oldest first. -/
def expandWords (keyWords : Nat) :
    (count index : Nat) → (last : List KeyWord) → List KeyWord
  | 0, _, _ => []
  | count + 1, index, last =>
    let word := nextKeyWord keyWords index (last.getLastD []) (last.headD [])
    word :: expandWords keyWords count (index + 1) (last.drop 1 ++ [word])

/-- The round keys of a cipher key: six more than it has words, and one to start with. -/
def roundKeys (key : Bytes) : List Block :=
  let words := Bytes.chunks 4 key
  let count := words.length
  let expanded := words ++ expandWords count (4 * (count + 7) - count) count words
  (Bytes.chunks 16 expanded.flatten).map Block.ofBytes

/-! ## The cipher -/

/-- All rounds but the addition of the first key. -/
def rounds : List Block → Block → Block
  | [], b => b
  | [key], b => addKey key (turnRows (substituteBytes b))
  | key :: keys, b => rounds keys (addKey key (mixColumns (turnRows (substituteBytes b))))

/-- Encrypt one block. -/
def encrypt (keys : List Block) (b : Block) : Block :=
  match keys with
  | [] => b
  | key :: keys => rounds keys (addKey key b)

/-- Encrypt one block given as bytes. -/
def encryptBytes (keys : List Block) (bs : Bytes) : Bytes := (encrypt keys (.ofBytes bs)).toList

@[simp] theorem length_encryptBytes (keys : List Block) (bs : Bytes) :
    (encryptBytes keys bs).length = 16 := by
  simp [encryptBytes]

end QuicTransport.Aes
