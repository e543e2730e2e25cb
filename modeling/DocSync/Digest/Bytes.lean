/-! Bytes, blocks and words: what the two digests share. -/

namespace DocSync.Digest

/-- The UTF-8 bytes of a text. -/
def bytes (text : String) : List UInt8 := text.toUTF8.data.toList

/-- How many zero bytes bring the message, the marker and the length to whole blocks. -/
def paddingZeros (size : Nat) : Nat := (119 - size % 64) % 64

/-- The message closed by a marker bit, zeros up to a block boundary, and its length. -/
def padded (message length : List UInt8) : List UInt8 :=
  message ++ 0x80 :: List.replicate (paddingZeros message.length) 0 ++ length

/-- The bytes of a number, least significant first. -/
def littleEndian : Nat → Nat → List UInt8
  | 0, _ => []
  | width + 1, n => UInt8.ofNat n :: littleEndian width (n / 256)

/-- Bytes taken four at a time, each group made one word. -/
def words (join : UInt8 → UInt8 → UInt8 → UInt8 → UInt32) : List UInt8 → List UInt32
  | a :: b :: c :: d :: rest => join a b c d :: words join rest
  | _ => []

/-- One word of four bytes, the first the least significant. -/
def littleWord (a b c d : UInt8) : UInt32 :=
  a.toUInt32 ||| (b.toUInt32 <<< 8) ||| (c.toUInt32 <<< 16) ||| (d.toUInt32 <<< 24)

/-- One word of four bytes, the first the most significant. -/
def bigWord (a b c d : UInt8) : UInt32 := littleWord d c b a

/-- A word turned to the left by fewer than thirty-two bits. -/
def rotateLeft (x : UInt32) (n : UInt32) : UInt32 := (x <<< n) ||| (x >>> (32 - n))

/-- A word turned to the right by fewer than thirty-two bits. -/
def rotateRight (x : UInt32) (n : UInt32) : UInt32 := (x >>> n) ||| (x <<< (32 - n))

/-- Words taken sixteen at a time, folded into a state; `count` bounds the number of blocks. -/
def foldBlocks {σ : Type} (absorb : σ → List UInt32 → σ) : Nat → σ → List UInt32 → σ
  | 0, state, _ => state
  | count + 1, state, message =>
    foldBlocks absorb count (absorb state (message.take 16)) (message.drop 16)

/-- A padded message fills whole blocks of sixty-four bytes. -/
theorem length_padded (message : List UInt8) {length : List UInt8} (eight : length.length = 8) :
    (padded message length).length % 64 = 0 := by
  simp [padded, paddingZeros, eight]; omega

end DocSync.Digest
