/-!
Contract: classes of characters given by ranges of code points.

Owns:
- the membership test of a list of closed ranges;
- the order of texts by code point;
- the test for how a text starts.

Does not own: the ranges themselves, which stand with the class they define.
-/

namespace AtomicCss.Text

/-- Whether a code point lies in one of the closed ranges. -/
def inRanges (ranges : List (Nat × Nat)) (code : Nat) : Bool :=
  ranges.any fun range => Nat.ble range.1 code && Nat.ble code range.2

/-- Lexicographic order by code point, which is also the order of the UTF-8 bytes. -/
def charsLe : List Char → List Char → Bool
  | [], _ => true
  | _ :: _, [] => false
  | left :: lefts, right :: rights =>
    if left.toNat = right.toNat then charsLe lefts rights
    else Nat.ble left.toNat right.toNat

def stringLe (left right : String) : Bool :=
  charsLe left.toList right.toList

/-- The strings in ascending order, equal ones in their given order. -/
def sortStrings (strings : List String) : List String :=
  strings.mergeSort stringLe

def startsWith (start text : String) : Bool :=
  start.toList.isPrefixOf text.toList

def concat (strings : List String) : String :=
  strings.foldr (· ++ ·) ""

/-- The strings one after the other with `separator` between neighbours. -/
def join (separator : String) : List String → String
  | [] => ""
  | [last] => last
  | head :: next :: rest => head ++ separator ++ join separator (next :: rest)

end AtomicCss.Text
