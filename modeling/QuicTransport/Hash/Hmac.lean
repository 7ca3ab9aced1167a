import QuicTransport.Hash.Sha2

set_option autoImplicit false

/-! # Keyed digests

The key is brought to the length of a block and hashed in front of the message, masked with one byte
value; the digest is hashed again behind the key masked with another. -/

namespace QuicTransport.HashFunction

/-- A key as one block: digested first if it is longer. -/
def keyBlock (h : HashFunction) (key : Bytes) : Bytes :=
  Bytes.padRight h.blockLength (if h.blockLength < key.length then h.digest key else key)

/-- The digest of a message under a key. -/
def keyedDigest (h : HashFunction) (key message : Bytes) : Bytes :=
  let block := h.keyBlock key
  let inner := h.digest (block.map (· ^^^ 0x36) ++ message)
  h.digest (block.map (· ^^^ 0x5c) ++ inner)

@[simp] theorem length_keyedDigest (h : HashFunction) (key message : Bytes) :
    (h.keyedDigest key message).length = h.digestLength :=
  h.length_digest _

end QuicTransport.HashFunction
