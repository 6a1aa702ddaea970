/-!
Contract: the 32-bit hash that names generated classes.

Owns:
- MurmurHash2 over a list of bytes;
- 32-bit words in base 36, with the digits 0-9 and a-z;
- the hash of a text.

Does not own: what is hashed.
-/

namespace AtomicCss.Hash

def multiplier : UInt32 := 0x5bd1e995

/-- Four bytes as a word, the lowest first. -/
def wordOfBytes (first second third fourth : UInt8) : UInt32 :=
  first.toUInt32 ||| (second.toUInt32 <<< 8) ||| (third.toUInt32 <<< 16) |||
    (fourth.toUInt32 <<< 24)

def mixWord (state word : UInt32) : UInt32 :=
  let scaled := word * multiplier
  state * multiplier ^^^ (scaled ^^^ (scaled >>> 24)) * multiplier

/-- All bytes mixed into the state: four at a time, and then the one to three left over. -/
def mixBytes (state : UInt32) : List UInt8 → UInt32
  | first :: second :: third :: fourth :: rest =>
    mixBytes (mixWord state (wordOfBytes first second third fourth)) rest
  | [first, second, third] => (state ^^^ wordOfBytes first second third 0) * multiplier
  | [first, second] => (state ^^^ wordOfBytes first second 0 0) * multiplier
  | [first] => (state ^^^ wordOfBytes first 0 0 0) * multiplier
  | [] => state

def finish (state : UInt32) : UInt32 :=
  let shifted := (state ^^^ (state >>> 13)) * multiplier
  shifted ^^^ (shifted >>> 15)

def murmur (seed : UInt32) (bytes : List UInt8) : UInt32 :=
  finish (mixBytes (seed ^^^ UInt32.ofNat bytes.length) bytes)

def digit36 (value : Nat) : Char :=
  if value < 10 then Char.ofNat ('0'.toNat + value) else Char.ofNat ('a'.toNat + (value - 10))

/-- The digits of a number in base 36, the last `count` of them at most. -/
def digits36 (count value : Nat) : List Char :=
  match count with
  | 0 => []
  | smaller + 1 =>
    if value < 36 then [digit36 value]
    else digits36 smaller (value / 36) ++ [digit36 (value % 36)]

/-- A word in base 36. Seven digits are enough, since `2 ^ 32 < 36 ^ 7`. -/
def base36 (word : UInt32) : String :=
  String.ofList (digits36 7 word.toNat)

/-- The word a text hashes to, with seed one. -/
def ofText (text : String) : UInt32 :=
  murmur 1 text.toUTF8.data.toList

def text36 (text : String) : String :=
  base36 (ofText text)

end AtomicCss.Hash
