import AtomicCss.Json.Basic

/-!
Contract: reading JSON text.

Owns:
- the grammar of JSON texts, with nothing beyond it: no comments, no comma before a closing
  bracket, no zero before a whole part, no bare control character, four characters of white space;
- documents, in which every member is kept as written and nothing is converted;
- conversion of a document to a value, which bounds nesting and refuses numbers beyond binary64
  and strings with half a surrogate pair.

Does not own: what a value means to its reader.
-/

namespace AtomicCss

/-- A number as it is written. A fraction, when there is one, has at least one digit. -/
structure NumberLiteral where
  negative : Bool
  whole : List Char
  fraction : List Char
  exponent : Option Int
deriving DecidableEq, Repr

/-- A JSON text as it is written. A string that escapes half of a surrogate pair has no text. -/
inductive Document where
  | null
  | bool (value : Bool)
  | number (literal : NumberLiteral)
  | string (text : Option String)
  | array (items : List Document)
  | object (members : List (Option String × Document))
deriving Repr, Inhabited

namespace Document

def isSpace (character : Char) : Bool :=
  character = ' ' || character = '\t' || character = '\n' || character = '\r'

def skipSpace (text : List Char) : List Char :=
  text.dropWhile isSpace

/-- What stands in a string: a character as it is, or a 16-bit unit given by its code. -/
inductive StringPart where
  | character (value : Char)
  | unit (code : Nat)
deriving DecidableEq, Repr

def hexValue? (character : Char) : Option Nat :=
  let code := character.toNat
  if '0'.toNat ≤ code && code ≤ '9'.toNat then some (code - '0'.toNat)
  else if 'a'.toNat ≤ code && code ≤ 'f'.toNat then some (code - 'a'.toNat + 10)
  else if 'A'.toNat ≤ code && code ≤ 'F'.toNat then some (code - 'A'.toNat + 10)
  else none

def hexNumber? (digits : List Char) : Option Nat :=
  digits.foldlM (fun value digit => (hexValue? digit).map (16 * value + ·)) 0

/-- The character that a backslash and one letter stand for. -/
def escaped? (character : Char) : Option Char :=
  if character = '"' || character = '\\' || character = '/' then some character
  else if character = 'b' then some '\x08'
  else if character = 'f' then some '\x0c'
  else if character = 'n' then some '\n'
  else if character = 'r' then some '\r'
  else if character = 't' then some '\t'
  else none

/-- The parts of a string up to its closing quote, and the text after it. -/
def readParts? : List Char → Option (List StringPart × List Char)
  | [] => none
  | '"' :: rest => some ([], rest)
  | '\\' :: 'u' :: first :: second :: third :: fourth :: rest => do
    let code ← hexNumber? [first, second, third, fourth]
    let (parts, after) ← readParts? rest
    some (.unit code :: parts, after)
  | '\\' :: letter :: rest => do
    let character ← escaped? letter
    let (parts, after) ← readParts? rest
    some (.character character :: parts, after)
  | character :: rest =>
    if character.toNat < 0x20 || character = '\\' then none
    else do
      let (parts, after) ← readParts? rest
      some (.character character :: parts, after)

/-- Whether a 16-bit unit is the first half of a surrogate pair. -/
def isLeading (code : Nat) : Bool :=
  0xD800 ≤ code && code ≤ 0xDBFF

/-- Whether a 16-bit unit is the second half of a surrogate pair. -/
def isTrailing (code : Nat) : Bool :=
  0xDC00 ≤ code && code ≤ 0xDFFF

/-- The characters of a string, if no half of a surrogate pair stands alone. -/
def partsText? : List StringPart → Option (List Char)
  | [] => some []
  | .character value :: rest => (partsText? rest).map (value :: ·)
  | .unit leading :: .unit trailing :: rest =>
    if isLeading leading then
      if isTrailing trailing then
        let code := 0x10000 + (leading - 0xD800) * 0x400 + (trailing - 0xDC00)
        (partsText? rest).map (Char.ofNat code :: ·)
      else none
    else if isTrailing leading then none
    else (partsText? (.unit trailing :: rest)).map (Char.ofNat leading :: ·)
  | .unit code :: rest =>
    if isLeading code || isTrailing code then none
    else (partsText? rest).map (Char.ofNat code :: ·)

def readString? (text : List Char) : Option (Option String × List Char) :=
  (readParts? text).map fun (parts, after) => ((partsText? parts).map String.ofList, after)

/-- The exponent of a number, if it has one: the mark, a sign or none, and at least one digit. -/
def readExponent? (text : List Char) : Option (Option Int × List Char) :=
  match text with
  | mark :: rest =>
    if mark = 'e' || mark = 'E' then
      let signed := match rest with
        | '+' :: digits => (false, digits)
        | '-' :: digits => (true, digits)
        | digits => (false, digits)
      let digits := signed.2.takeWhile Char.isDigit
      if digits.isEmpty then none
      else
        let magnitude : Int := Decimal.digitsValue digits
        some (some (if signed.1 then -magnitude else magnitude), signed.2.dropWhile Char.isDigit)
    else some (none, text)
  | [] => some (none, [])

def readNumber? (text : List Char) : Option (NumberLiteral × List Char) := do
  let signed := match text with
    | '-' :: rest => (true, rest)
    | rest => (false, rest)
  let whole := signed.2.takeWhile Char.isDigit
  let afterWhole := signed.2.dropWhile Char.isDigit
  if whole.isEmpty || (whole.head? = some '0' && 1 < whole.length) then none
  let (fraction, afterFraction) ← match afterWhole with
    | '.' :: rest =>
      let digits := rest.takeWhile Char.isDigit
      if digits.isEmpty then none else some (digits, rest.dropWhile Char.isDigit)
    | rest => some ([], rest)
  let (exponent, after) ← readExponent? afterFraction
  some (⟨signed.1, whole, fraction, exponent⟩, after)

mutual

/-- A value and what follows it. The fuel bounds the steps; twice the length of the text and two
more is enough. -/
def readValue? (fuel : Nat) (text : List Char) : Option (Document × List Char) :=
  match fuel with
  | 0 => none
  | smaller + 1 =>
    match skipSpace text with
    | 'n' :: 'u' :: 'l' :: 'l' :: rest => some (.null, rest)
    | 't' :: 'r' :: 'u' :: 'e' :: rest => some (.bool true, rest)
    | 'f' :: 'a' :: 'l' :: 's' :: 'e' :: rest => some (.bool false, rest)
    | '"' :: rest => (readString? rest).map fun (value, after) => (.string value, after)
    | '[' :: rest =>
      match skipSpace rest with
      | ']' :: after => some (.array [], after)
      | items => (readItems? smaller items).map fun (values, after) => (.array values, after)
    | '\x7b' :: rest =>
      match skipSpace rest with
      | '\x7d' :: after => some (.object [], after)
      | members =>
        (readMembers? smaller members).map fun (values, after) => (.object values, after)
    | other => (readNumber? other).map fun (literal, after) => (.number literal, after)

def readItems? (fuel : Nat) (text : List Char) : Option (List Document × List Char) :=
  match fuel with
  | 0 => none
  | smaller + 1 => do
    let (item, afterItem) ← readValue? smaller text
    match skipSpace afterItem with
    | ',' :: rest =>
      let (items, after) ← readItems? smaller rest
      some (item :: items, after)
    | ']' :: after => some ([item], after)
    | _ => none

def readMembers? (fuel : Nat) (text : List Char) :
    Option (List (Option String × Document) × List Char) :=
  match fuel with
  | 0 => none
  | smaller + 1 => do
    let '"' :: nameText := skipSpace text | none
    let (name, afterName) ← readString? nameText
    let ':' :: valueText := skipSpace afterName | none
    let (value, afterValue) ← readValue? smaller valueText
    match skipSpace afterValue with
    | ',' :: rest =>
      let (members, after) ← readMembers? smaller rest
      some ((name, value) :: members, after)
    | '\x7d' :: after => some ([(name, value)], after)
    | _ => none

end

/-- The document that a text is, with nothing but white space around it. -/
def read? (text : String) : Option Document := do
  let characters := text.toList
  let (document, after) ← readValue? (2 * characters.length + 2) characters
  if (skipSpace after).isEmpty then some document else none

end Document

namespace NumberLiteral

/-- The largest significand that the digits of a number are gathered in. -/
def significandLimit : Nat := Nat.pow 2 64 - 1

/-- Digits appended to a significand as long as it stays within the limit, and how many of them
were left over from the first one that did not fit. -/
def gather (significand : Nat) : List Char → Nat × Nat
  | [] => (significand, 0)
  | digit :: rest =>
    let longer := 10 * significand + (digit.toNat - '0'.toNat)
    if longer ≤ significandLimit then gather longer rest else (significand, rest.length + 1)

/-- A significand times a power of ten. The significand and the power are each rounded to
binary64, and so is their product or quotient. A result beyond the finite numbers is refused. -/
def scale? (significand : Nat) (exponent : Int) : Option Binary64 :=
  let base := Binary64.ofNat significand
  let power (places : Nat) := Binary64.ofNat (Nat.pow 10 places)
  if 0 ≤ exponent then
    if significand = 0 then some base
    else if 308 < exponent then none
    else
      let product := base.mul (power exponent.toNat)
      if product.isInfinite then none else some product
  else
    let places := (-exponent).toNat
    if places ≤ 308 then some (base.div (power places))
    else if places ≤ 616 then some ((base.div (power 308)).div (power (places - 308)))
    else some (Binary64.ofNat 0)

/-- The number a literal stands for. A literal without fraction and exponent that fits in 64 bits
is an integer; all others, and minus zero, are binary64 numbers. -/
def value? (literal : NumberLiteral) : Option JsonNumber :=
  let (whole, dropped) := gather 0 literal.whole
  if literal.fraction.isEmpty && literal.exponent.isNone && dropped = 0 then
    if !literal.negative then some (.integer whole)
    else if 0 < whole && whole ≤ Nat.pow 2 63 then some (.integer (-whole))
    else some (.double (Binary64.ofNat whole).neg)
  else
    let (significand, ignored) := gather whole literal.fraction
    let taken : Int := literal.fraction.length - ignored
    let exponent := literal.exponent.getD 0 + dropped - taken
    (scale? significand exponent).map fun value =>
      .double (if literal.negative then value.neg else value)

end NumberLiteral

namespace Document

mutual

/-- The value of a document whose arrays and objects nest at most `levels` deep. -/
def value? (levels : Nat) : Document → Option Json
  | .null => some .null
  | .bool value => some (.bool value)
  | .number literal => literal.value?.map .number
  | .string text => text.map .string
  | .array items =>
    match levels with
    | 0 => none
    | inner + 1 => (itemValues? inner items).map .array
  | .object members =>
    match levels with
    | 0 => none
    | inner + 1 => (memberValues? inner members).map fun entries =>
      .object (OrderedMap.ofEntries entries)

def itemValues? (levels : Nat) : List Document → Option (List Json)
  | [] => some []
  | item :: rest => do
    let value ← value? levels item
    let values ← itemValues? levels rest
    some (value :: values)

def memberValues? (levels : Nat) :
    List (Option String × Document) → Option (List (String × Json))
  | [] => some []
  | (name, document) :: rest => do
    let text ← name
    let value ← value? levels document
    let values ← memberValues? levels rest
    some ((text, value) :: values)

end

def nestingLimit : Nat := 127

end Document

def Json.read? (text : String) : Option Json := do
  let document ← Document.read? text
  document.value? Document.nestingLimit

end AtomicCss
