import AtomicCss.Text.CodeRange

/-!
Contract: white space as style text sees it.

Owns:
- the characters of the Unicode property White_Space;
- trimming a text at its ends.

Does not own: JSON white space, which is four ASCII characters.
-/

namespace AtomicCss.Text

/-- The code points of the Unicode property White_Space, in ascending order. -/
def blankRanges : List (Nat × Nat) :=
  [(0x9, 0xD), (0x20, 0x20), (0x85, 0x85), (0xA0, 0xA0), (0x1680, 0x1680), (0x2000, 0x200A),
    (0x2028, 0x2029), (0x202F, 0x202F), (0x205F, 0x205F), (0x3000, 0x3000)]

def isBlank (character : Char) : Bool :=
  inRanges blankRanges character.toNat

/-- The text without white space at either end. -/
def trimChars (text : List Char) : List Char :=
  ((text.dropWhile isBlank).reverse.dropWhile isBlank).reverse

def trim (text : String) : String :=
  String.ofList (trimChars text.toList)

end AtomicCss.Text
