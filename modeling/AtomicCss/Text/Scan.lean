import AtomicCss.Text.Blank

/-!
Contract: reading style text from left to right with quotes and parentheses.

Owns:
- the state of such a reading and its step on one character;
- the split of a text at white space outside quotes and parentheses.

Does not own: what is done with the characters, which is up to each reader.
-/

namespace AtomicCss.Text

/-- Where a reading stands: the mark that opened the quoted region it is in, if any, and the
number of parentheses open around it. -/
structure Scan where
  quote : Option Char
  depth : Nat
deriving DecidableEq, Repr

namespace Scan

def start : Scan :=
  ⟨none, 0⟩

/-- Whether a character opens a quoted region. -/
def isQuote (character : Char) : Bool :=
  character = '"' || character = '\''

def quoted (scan : Scan) : Bool :=
  scan.quote.isSome

/-- The state after one more character. A quoted region ends at the next character equal to the
one that opened it. A closing parenthesis with none open is passed over. -/
def next (scan : Scan) (character : Char) : Scan :=
  match scan.quote with
  | some mark => if character = mark then ⟨none, scan.depth⟩ else scan
  | none =>
    if isQuote character then ⟨some character, scan.depth⟩
    else if character = '(' then ⟨none, scan.depth + 1⟩
    else if character = ')' then ⟨none, scan.depth - 1⟩
    else scan

/-- Whether white space read here separates words: it stands outside quotes and parentheses. -/
def separates (scan : Scan) : Bool :=
  !scan.quoted && scan.depth = 0

end Scan

def heldWord (held : List Char) : List (List Char) :=
  if held.isEmpty then [] else [held.reverse]

/-- `splitWords` from a given state, with the characters of the current word held in reverse. -/
def splitWordsFrom (scan : Scan) (held : List Char) : List Char → List (List Char)
  | [] => heldWord held
  | character :: rest =>
    if scan.separates && isBlank character then
      heldWord held ++ splitWordsFrom scan [] rest
    else
      splitWordsFrom (scan.next character) (character :: held) rest

/-- The words of a text: what white space outside quotes and parentheses leaves. -/
def splitWords (text : List Char) : List (List Char) :=
  splitWordsFrom Scan.start [] text

end AtomicCss.Text
