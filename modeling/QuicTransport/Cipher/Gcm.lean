import QuicTransport.Cipher.Aes
import QuicTransport.Cipher.EncryptThenMac

set_option autoImplicit false

/-! # Galois/Counter Mode

The keystream is the block cipher applied to a counter behind the nonce. The tag is the value of a
polynomial in the field of 2^128 elements, whose coefficients are the blocks of associated data and
ciphertext and whose argument comes from the key, masked with one more block of keystream.

An element of the field is a number. Its highest bit is the coefficient of `x^0`, so the product
with `x` is a shift to the right. -/

namespace QuicTransport.Gcm

/-! ## The field -/

/-- What `x^128` reduces to, as an element. -/
def reduction : Nat := 0xe1 <<< 120

/-- The product with `x`. -/
def timesX (v : Nat) : Nat := if v % 2 = 0 then v / 2 else (v / 2) ^^^ reduction

/-- The product of two elements, from the lowest `bits` bits of the first. -/
def mul (a : Nat) : (bits v : Nat) → Nat
  | 0, _ => 0
  | bits + 1, v => (if a.testBit bits then v else 0) ^^^ mul a bits (timesX v)

/-! ## The tag -/

/-- A string of at most sixteen bytes as an element, filled up with zero bytes. -/
def element (bs : Bytes) : Nat := Bytes.ofBigEndian (Bytes.padRight 16 bs)

/-- The elements over which a tag is computed: associated data, ciphertext and both lengths
in bits. -/
def elements (associated ciphertext : Bytes) : List Nat :=
  (Bytes.chunks 16 associated).map element ++ (Bytes.chunks 16 ciphertext).map element
    ++ [(8 * associated.length) <<< 64 + 8 * ciphertext.length]

/-- The value of the polynomial at `h`. -/
def hash (h : Nat) (associated ciphertext : Bytes) : Nat :=
  (elements associated ciphertext).foldl (fun y e => mul (y ^^^ e) 128 h) 0

/-! ## The mode -/

/-- The keystream block with a given counter. -/
def counterBlock (keys : List Aes.Block) (nonce : Bytes) (counter : Nat) : Bytes :=
  Aes.encryptBytes keys (nonce ++ Bytes.bigEndian 4 counter)

/-- The mode under one key and one nonce of twelve bytes. Counter one masks the tag, and the text
starts with counter two. -/
def under (keys : List Aes.Block) (nonce : Bytes) : EncryptThenMac where
  keystream length :=
    (List.range ((length + 15) / 16)).flatMap fun i => counterBlock keys nonce (i + 2)
  tag associated ciphertext :=
    let h := Bytes.ofBigEndian (Aes.encryptBytes keys [])
    Bytes.xor (Bytes.bigEndian 16 (hash h associated ciphertext)) (counterBlock keys nonce 1)
  length_keystream length := by
    rw [List.length_flatMap]
    simp only [counterBlock, Aes.length_encryptBytes, List.map_const', List.sum_replicate_nat,
      List.length_range]
    omega
  length_tag associated ciphertext := by
    simp [Bytes.length_xor, counterBlock, tagLength]

/-- The most bytes that associated data or a plaintext may have. -/
def limit : Nat := 1 <<< 36

end QuicTransport.Gcm
