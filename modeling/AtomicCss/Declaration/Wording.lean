import AtomicCss.Property.Measure
import AtomicCss.Text.DecimalDigit
import AtomicCss.Text.Scan
import AtomicCss.Warning

/-!
Contract: one spelling for style texts that mean the same.

Owns:
- double quotes in place of single ones;
- white space, reduced to the blanks that separate;
- numbers, without needless zeros, signs and units;
- quotes around the text of generated content.

Does not own: which property a text belongs to.
-/

namespace AtomicCss.Wording

open AtomicCss.Text

/-- `doubleQuotes` with what follows an open single quote held in reverse. -/
def doubleQuotesFrom (held : Option (List Char)) : List Char → List Char
  | [] =>
    match held with
    | none => []
    | some inner => '\'' :: inner.reverse
  | character :: rest =>
    match held with
    | none =>
      if character = '\'' then doubleQuotesFrom (some []) rest
      else character :: doubleQuotesFrom none rest
    | some inner =>
      if character = '\'' then '"' :: inner.reverse ++ '"' :: doubleQuotesFrom none rest
      else if character = '"' then '\'' :: inner.reverse ++ '"' :: doubleQuotesFrom none rest
      else doubleQuotesFrom (some (character :: inner)) rest

/-- The text with each pair of single quotes around text without quotes made double. -/
def doubleQuotes (text : List Char) : List Char :=
  doubleQuotesFrom none text

/-- Whether a blank is written between `before` and `after` when white space stood there. Inside
parentheses it is not after an opening one or a comma, nor before a closing one or a comma. -/
def keepsBlank (depth : Nat) (before after : Char) : Bool :=
  depth = 0 || !(before = ',' || before = '(' || after = ',' || after = ')')

/-- `collapseBlanks` from a given state: the last character written, and whether white space was
read after it. -/
def collapseBlanksFrom (scan : Scan) (last : Option Char) (pending : Bool) :
    List Char → List Char
  | [] => []
  | character :: rest =>
    if scan.quoted then
      character :: collapseBlanksFrom (scan.next character) (some character) pending rest
    else if isBlank character then collapseBlanksFrom scan last true rest
    else
      let gap := match last with
        | none => []
        | some before => if pending && keepsBlank scan.depth before character then [' '] else []
      gap ++ character :: collapseBlanksFrom (scan.next character) (some character) false rest

/-- The text with each run of white space outside quotes reduced to one blank, and to none at the
ends and next to the commas and parentheses of a function's arguments. -/
def collapseBlanks (text : List Char) : List Char :=
  collapseBlanksFrom Scan.start none false text

/-- A piece of style text: a word, with the number of parentheses around it, or a single character
between words or inside quotes. -/
inductive Piece where
  | word (depth : Nat) (characters : List Char)
  | mark (character : Char)
deriving DecidableEq, Repr

def endsWord (character : Char) : Bool :=
  [' ', ',', '(', ')', '/', '*', '"', '\''].contains character

/-- The word held in reverse, as a piece. -/
def heldPiece (depth : Nat) (held : List Char) : List Piece :=
  if held.isEmpty then [] else [.word depth held.reverse]

/-- `pieces` from a given state, with the characters of the current word held in reverse. -/
def piecesFrom (scan : Scan) (held : List Char) : List Char → List Piece
  | [] => heldPiece scan.depth held
  | character :: rest =>
    if scan.quoted then .mark character :: piecesFrom (scan.next character) held rest
    else if endsWord character then
      heldPiece scan.depth held ++ .mark character :: piecesFrom (scan.next character) [] rest
    else piecesFrom scan (character :: held) rest

def pieces (text : List Char) : List Piece :=
  piecesFrom Scan.start [] text

/-- A number with the letters right after it. -/
structure NumericWord where
  number : List Char
  unit : List Char
deriving DecidableEq, Repr

def isUnitChar (character : Char) : Bool :=
  character.isAlpha || character = '%'

/-- Reads a word as a sign, digits with at most one point, and a unit. Digits stand before the
point, or else after it. -/
def NumericWord.read? (word : List Char) : Option NumericWord :=
  let sign := match word with
    | '+' :: _ => ['+']
    | '-' :: _ => ['-']
    | _ => []
  let unsigned := word.drop sign.length
  let whole := unsigned.takeWhile isDecimalDigit
  let afterWhole := unsigned.dropWhile isDecimalDigit
  let pointed := match afterWhole with
    | '.' :: rest => ('.' :: rest.takeWhile isDecimalDigit, rest.dropWhile isDecimalDigit)
    | rest => ([], rest)
  let hasDigits := !whole.isEmpty || 1 < pointed.1.length
  if hasDigits && pointed.2.all isUnitChar then
    some ⟨sign ++ whole ++ pointed.1, pointed.2⟩
  else none

def dropPlus : List Char → List Char
  | '+' :: rest => dropPlus rest
  | other => other

/-- The text of a zero with a unit. Percentages and angles keep their unit, times are in seconds,
and other units are kept inside parentheses, where a function may insist on them. -/
def zeroText (depth : Nat) (unit : String) : String :=
  if unit = "%" then "0%"
  else if Property.timeUnits.contains unit then "0s"
  else if Property.angleUnits.contains unit || 0 < depth then "0" ++ unit
  else "0"

/-- The text of a number with a known unit: ten milliseconds and more are in seconds. -/
def numberText (depth : Nat) (number : List Char) (value : Binary64) (unit : String) : String :=
  if value.isZero then zeroText depth unit
  else if unit = "ms" && value.magnitudeAtLeast 10 then
    Property.shortNumber (value.div (Binary64.ofNat 1000)) ++ "s"
  else String.ofList (Property.dropLeadingZero (dropPlus number)) ++ unit

def NumericWord.unitName (word : NumericWord) : String :=
  String.ofList (word.unit.map Char.toLower)

def NumericWord.hasKnownUnit (word : NumericWord) : Bool :=
  word.unit.isEmpty || Property.knownUnits.contains word.unitName

/-- A word in its one spelling. A word that is no number, or has an unknown unit, or digits other
than the ten ASCII ones, stays as it is. -/
def respellWord (depth : Nat) (characters : List Char) : List Char :=
  match NumericWord.read? characters with
  | none => characters
  | some numeric =>
    if numeric.hasKnownUnit then
      match Binary64.read? numeric.number with
      | none => characters
      | some value => (numberText depth numeric.number value numeric.unitName).toList
    else characters

def Piece.respell : Piece → List Char
  | .word depth characters => respellWord depth characters
  | .mark character => [character]

/-- The warning that a piece gives rise to: a number with an unknown unit. -/
def Piece.warning? (property value : String) : Piece → Option Warning
  | .mark _ => none
  | .word _ characters =>
    match NumericWord.read? characters with
    | none => none
    | some numeric =>
      if numeric.hasKnownUnit then none
      else some (.unparsableUnit property value (String.ofList characters))

def respellNumbers (text : List Char) : List Char :=
  (pieces text).flatMap Piece.respell

def numberWarnings (property : String) (text : List Char) : List Warning :=
  (pieces text).filterMap (Piece.warning? property (String.ofList text))

/-- Words that the content property takes without quotes. -/
def contentKeywords : List String :=
  ["normal", "none", "open-quote", "close-quote", "no-open-quote", "no-close-quote", "inherit",
    "initial", "unset", "revert", "revert-layer"]

def isQuotedText (text : List Char) : Bool :=
  1 < text.length && text.head? = some '"' && text.getLast? = some '"'

/-- A double quote with a backslash before it; any other character as it is. -/
def escapeQuote (character : Char) : List Char :=
  if character = '"' then ['\\', '"'] else [character]

/-- The text of generated content, in quotes unless it has them, is a keyword or calls a
function. -/
def quoteContent (text : List Char) : List Char :=
  if isQuotedText text || text.contains '(' || contentKeywords.contains (String.ofList text) then
    text
  else '"' :: text.flatMap escapeQuote ++ ['"']

/-- The text with double quotes and single blanks. -/
def spaced (text : List Char) : List Char :=
  collapseBlanks (doubleQuotes text)

/-- The one spelling of a text as the value of a property. -/
def canonicalChars (property : String) (text : List Char) : List Char :=
  let respelled := respellNumbers (spaced text)
  if property = "content" then quoteContent respelled else respelled

def canonical (property text : String) : String :=
  String.ofList (canonicalChars property text.toList)

def warnings (property text : String) : List Warning :=
  numberWarnings property (spaced text.toList)

end AtomicCss.Wording
