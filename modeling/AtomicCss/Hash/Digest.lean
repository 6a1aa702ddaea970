/-!
Contract: the digest that identifies a pair of style sheets.

Owns: MD5 over a list of bytes, as lower-case hexadecimal text.

Does not own: which texts are digested.
-/

namespace AtomicCss.Hash

structure DigestState where
  a : UInt32
  b : UInt32
  c : UInt32
  d : UInt32
deriving DecidableEq, Repr

def DigestState.start : DigestState :=
  ⟨0x67452301, 0xefcdab89, 0x98badcfe, 0x10325476⟩

/-- The additive constant of each step: the whole part of `2 ^ 32 * |sin (step + 1)|`. -/
def stepConstants : List UInt32 :=
  [0xd76aa478, 0xe8c7b756, 0x242070db, 0xc1bdceee, 0xf57c0faf, 0x4787c62a, 0xa8304613, 0xfd469501,
    0x698098d8, 0x8b44f7af, 0xffff5bb1, 0x895cd7be, 0x6b901122, 0xfd987193, 0xa679438e, 0x49b40821,
    0xf61e2562, 0xc040b340, 0x265e5a51, 0xe9b6c7aa, 0xd62f105d, 0x02441453, 0xd8a1e681, 0xe7d3fbc8,
    0x21e1cde6, 0xc33707d6, 0xf4d50d87, 0x455a14ed, 0xa9e3e905, 0xfcefa3f8, 0x676f02d9, 0x8d2a4c8a,
    0xfffa3942, 0x8771f681, 0x6d9d6122, 0xfde5380c, 0xa4beea44, 0x4bdecfa9, 0xf6bb4b60, 0xbebfbc70,
    0x289b7ec6, 0xeaa127fa, 0xd4ef3085, 0x04881d05, 0xd9d4d039, 0xe6db99e5, 0x1fa27cf8, 0xc4ac5665,
    0xf4292244, 0x432aff97, 0xab9423a7, 0xfc93a039, 0x655b59c3, 0x8f0ccc92, 0xffeff47d, 0x85845dd1,
    0x6fa87e4f, 0xfe2ce6e0, 0xa3014314, 0x4e0811a1, 0xf7537e82, 0xbd3af235, 0x2ad7d2bb, 0xeb86d391]

/-- The four rotations that the steps of each round take in turn. -/
def roundRotations : List (List UInt32) :=
  [[7, 12, 17, 22], [5, 9, 14, 20], [4, 11, 16, 23], [6, 10, 15, 21]]

def rotateLeft (word amount : UInt32) : UInt32 :=
  (word <<< amount) ||| (word >>> (32 - amount))

/-- The round function and the index of the message word of a step. -/
def roundTerm (state : DigestState) (step : Nat) : UInt32 × Nat :=
  match step / 16 with
  | 0 => ((state.b &&& state.c) ||| (~~~state.b &&& state.d), step)
  | 1 => ((state.d &&& state.b) ||| (~~~state.d &&& state.c), (5 * step + 1) % 16)
  | 2 => (state.b ^^^ state.c ^^^ state.d, (3 * step + 5) % 16)
  | _ => (state.c ^^^ (state.b ||| ~~~state.d), 7 * step % 16)

/-- One of the sixty-four steps on a block. -/
def digestStep (words : Array UInt32) (state : DigestState) (step : Nat) : DigestState :=
  let term := roundTerm state step
  let sum := state.a + term.1 + stepConstants.getD step 0 + words.getD term.2 0
  let rotation := (roundRotations.getD (step / 16) []).getD (step % 4) 0
  ⟨state.d, state.b + rotateLeft sum rotation, state.b, state.c⟩

def digestBlock (state : DigestState) (words : Array UInt32) : DigestState :=
  let stirred := (List.range 64).foldl (digestStep words) state
  ⟨state.a + stirred.a, state.b + stirred.b, state.c + stirred.c, state.d + stirred.d⟩

/-- The lowest `count` bytes of a number, the lowest first. -/
def littleEndian (count value : Nat) : List UInt8 :=
  (List.range count).map fun place => UInt8.ofNat (value / Nat.pow 256 place)

/-- A message with the mark of its end, zeros and its length in bits, a whole number of blocks. -/
def padMessage (bytes : List UInt8) : List UInt8 :=
  bytes ++ 0x80 :: List.replicate ((119 - bytes.length % 64) % 64) 0 ++
    littleEndian 8 (8 * bytes.length)

/-- Bytes four at a time as words, the lowest byte first. -/
def wordsOfBytes : List UInt8 → List UInt32
  | first :: second :: third :: fourth :: rest =>
    (first.toUInt32 ||| (second.toUInt32 <<< 8) ||| (third.toUInt32 <<< 16) |||
      (fourth.toUInt32 <<< 24)) :: wordsOfBytes rest
  | _ => []

def digestBlocks (count : Nat) (state : DigestState) (words : List UInt32) : DigestState :=
  match count with
  | 0 => state
  | smaller + 1 =>
    digestBlocks smaller (digestBlock state (words.take 16).toArray) (words.drop 16)

def hexByte (byte : UInt8) : String :=
  String.ofList [Nat.digitChar (byte.toNat / 16), Nat.digitChar (byte.toNat % 16)]

/-- The MD5 digest of a list of bytes in lower-case hexadecimal. -/
def digest (bytes : List UInt8) : String :=
  let words := wordsOfBytes (padMessage bytes)
  let state := digestBlocks (words.length / 16) DigestState.start words
  let result := [state.a, state.b, state.c, state.d].flatMap fun word => littleEndian 4 word.toNat
  result.foldr (fun byte rest => hexByte byte ++ rest) ""

def digestText (text : String) : String :=
  digest text.toUTF8.data.toList

end AtomicCss.Hash
