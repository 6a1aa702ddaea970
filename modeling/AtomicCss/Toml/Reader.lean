import AtomicCss.Json.Reader

/-!
Contract: settings in TOML.

Owns: the part of TOML that settings are written in: comments, bare, quoted and dotted keys,
one-line strings of both kinds, booleans, integers and table headers; and the rule that nothing is
defined twice.

Does not own: what the keys mean. Dates, floats, arrays and strings over several lines are refused.
-/

namespace AtomicCss.Toml

/-- White space within a line. -/
def isSpace (character : Char) : Bool :=
  character = ' ' || character = '\t'

def skipSpace (text : List Char) : List Char :=
  text.dropWhile isSpace

/-- Whether a character may stand in a comment or a string as it is. -/
def isPrintable (character : Char) : Bool :=
  character = '\t' || (0x20 ≤ character.toNat && character.toNat != 0x7F)

/-- The characters of a code point given in hexadecimal. -/
def codePoint? (digits : List Char) : Option Char := do
  let code ← Document.hexNumber? digits
  if code.isValidChar then some (Char.ofNat code) else none

def escaped? (letter : Char) : Option Char :=
  if letter = '/' then none else Document.escaped? letter

/-- A basic string after its opening quote, and what follows it. -/
def readBasic? : List Char → Option (List Char × List Char)
  | [] => none
  | '"' :: rest => some ([], rest)
  | '\\' :: 'u' :: a :: b :: c :: d :: rest => do
    let character ← codePoint? [a, b, c, d]
    let (characters, after) ← readBasic? rest
    some (character :: characters, after)
  | '\\' :: 'U' :: a :: b :: c :: d :: e :: f :: g :: h :: rest => do
    let character ← codePoint? [a, b, c, d, e, f, g, h]
    let (characters, after) ← readBasic? rest
    some (character :: characters, after)
  | '\\' :: letter :: rest => do
    let character ← escaped? letter
    let (characters, after) ← readBasic? rest
    some (character :: characters, after)
  | character :: rest =>
    if isPrintable character && character != '\\' then do
      let (characters, after) ← readBasic? rest
      some (character :: characters, after)
    else none

def readLiteral? (text : List Char) : Option (List Char × List Char) :=
  let characters := text.takeWhile fun character => isPrintable character && character != '\''
  match text.drop characters.length with
  | '\'' :: after => some (characters, after)
  | _ => none

def isBareKeyChar (character : Char) : Bool :=
  character.isAlphanum || character = '_' || character = '-'

def readKeyPart? (text : List Char) : Option (String × List Char) :=
  match text with
  | '"' :: rest =>
    (readBasic? rest).map fun (characters, after) => (String.ofList characters, after)
  | '\'' :: rest =>
    (readLiteral? rest).map fun (characters, after) => (String.ofList characters, after)
  | other =>
    let characters := other.takeWhile isBareKeyChar
    if characters.isEmpty then none
    else some (String.ofList characters, other.drop characters.length)

/-- A key of parts joined by points, and what follows it. The fuel bounds the parts. -/
def readKey? (fuel : Nat) (text : List Char) : Option (List String × List Char) :=
  match fuel with
  | 0 => none
  | smaller + 1 => do
    let (part, afterPart) ← readKeyPart? (skipSpace text)
    match skipSpace afterPart with
    | '.' :: rest =>
      let (parts, after) ← readKey? smaller rest
      some (part :: parts, after)
    | after => some ([part], after)

/-- Digits of a base, with single underscores between them, as a number. -/
def digitsValue? (base : Nat) (digits : List Char) : Option Nat :=
  let isDigit (character : Char) := match Document.hexValue? character with
    | some value => decide (value < base)
    | none => false
  let edges := digits.head?.any isDigit && digits.getLast?.any isDigit
  let doubled := (digits.zip (digits.drop 1)).any fun pair => pair.1 = '_' && pair.2 = '_'
  let plain := digits.filter (· != '_')
  if edges && !doubled && plain.all isDigit then
    plain.foldlM (fun value digit =>
      (Document.hexValue? digit).map fun place => base * value + place) 0
  else none

/-- An integer: decimal with a sign or none and no leading zeros, or unsigned in another base. -/
def readInteger? (text : List Char) : Option Int := do
  let (negative, digits, base) := match text with
    | '+' :: rest => (false, rest, 10)
    | '-' :: rest => (true, rest, 10)
    | '0' :: 'x' :: rest => (false, rest, 16)
    | '0' :: 'o' :: rest => (false, rest, 8)
    | '0' :: 'b' :: rest => (false, rest, 2)
    | rest => (false, rest, 10)
  if base = 10 && digits.head? = some '0' && 1 < digits.length then none
  let magnitude ← digitsValue? base digits
  let value : Int := if negative then -(magnitude : Int) else magnitude
  if -9223372036854775808 ≤ value && value < 9223372036854775808 then some value else none

def readValue? (text : List Char) : Option (Json × List Char) :=
  match text with
  | '"' :: rest =>
    (readBasic? rest).map fun (characters, after) => (.string (String.ofList characters), after)
  | '\'' :: rest =>
    (readLiteral? rest).map fun (characters, after) => (.string (String.ofList characters), after)
  | other =>
    let isWordChar (character : Char) := !isSpace character && character != '#'
    let word := other.takeWhile isWordChar
    let after := other.dropWhile isWordChar
    if word = "true".toList then some (.bool true, after)
    else if word = "false".toList then some (.bool false, after)
    else (readInteger? word).map fun value => (.number (.integer value), after)

/-- Whether nothing but a comment is left of a line. -/
def isLineEnd (text : List Char) : Bool :=
  match skipSpace text with
  | [] => true
  | '#' :: comment => comment.all isPrintable
  | _ => false

inductive Statement where
  | table (path : List String)
  | assign (path : List String) (value : Json)

def readLine? (line : List Char) : Option (Option Statement) :=
  let text := skipSpace line
  if isLineEnd text then some none
  else match text with
    | '[' :: rest => do
      let (path, after) ← readKey? (rest.length + 1) rest
      match after with
      | ']' :: ending => if isLineEnd ending then some (some (.table path)) else none
      | _ => none
    | _ => do
      let (path, afterKey) ← readKey? (text.length + 1) text
      match afterKey with
      | '=' :: rest =>
        let (value, ending) ← readValue? (skipSpace rest)
        if isLineEnd ending then some (some (.assign path value)) else none
      | _ => none

/-- What has been defined so far, by path: values, the tables that headers open, and the tables that
dotted keys open; and the table of the next line. -/
structure Contents where
  values : List (List String × Json)
  tables : List (List String)
  dotted : List (List String)
  current : List String

def Contents.empty : Contents :=
  ⟨[], [], [], []⟩

/-- Whether one path leads to, or through, the other's place. -/
def overlaps (left right : List String) : Bool :=
  left.isPrefixOf right || right.isPrefixOf left

def dottedTables (table key : List String) : List (List String) :=
  (List.range (key.length - 1)).map fun index => table ++ key.take (index + 1)

/-- The contents with one more statement, unless it defines something a second time. A header opens
no table that a dotted key has opened, and a dotted key leads through no table of a header. -/
def Contents.add? (contents : Contents) : Statement → Option Contents
  | .table path =>
    if contents.tables.contains path || contents.dotted.contains path ||
        contents.values.any fun entry => entry.1.isPrefixOf path then none
    else some { contents with tables := contents.tables ++ [path], current := path }
  | .assign key value =>
    let path := contents.current ++ key
    let first := contents.current ++ key.take 1
    if contents.values.any (fun entry => overlaps entry.1 path) ||
        contents.tables.any fun table => first.isPrefixOf table then none
    else some { contents with
      values := contents.values ++ [(path, value)]
      dotted := contents.dotted ++ dottedTables contents.current key }

/-- The lines of a text. A line ends with a line feed, before which a carriage return may stand; one
that stands elsewhere is part of its line. -/
def lines : List Char → List (List Char)
  | [] => [[]]
  | '\n' :: rest => [] :: lines rest
  | '\r' :: '\n' :: rest => [] :: lines rest
  | character :: rest =>
    match lines rest with
    | [] => [[character]]
    | first :: others => (character :: first) :: others

def withoutMark (text : List Char) : List Char :=
  match text with
  | '\uFEFF' :: rest => rest
  | all => all

def readContents? (text : String) : Option Contents :=
  (lines (withoutMark text.toList)).foldlM (fun contents line => do
    match ← readLine? line with
    | none => some contents
    | some statement => contents.add? statement) Contents.empty

/-- The members at the top of a text. A table is an object, whatever it holds. -/
def read? (text : String) : Option (List (String × Json)) := do
  let contents ← readContents? text
  let values := contents.values.filterMap fun entry =>
    match entry.1 with
    | [name] => some (name, entry.2)
    | name :: _ => some (name, .object [])
    | [] => none
  let tables := contents.tables.filterMap fun path => path.head?.map fun name =>
    (name, Json.object [])
  some (OrderedMap.ofEntries (values ++ tables))

end AtomicCss.Toml
