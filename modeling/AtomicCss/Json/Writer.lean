import AtomicCss.Json.Basic
import AtomicCss.Text.CodeRange

/-!
Contract: writing JSON text.

Owns:
- the escapes of strings and the text of numbers;
- the compact form, without white space, and the indented form, two blanks a level.

Does not own: the order of members, which is that of the value.
-/

namespace AtomicCss.Json

/-- Doubles are written with a point for powers of ten from -5 up to 15 and with an exponent
beyond, whole ones with `.0`; of two equally near digit strings the even one is taken. -/
def numberFormat : NumberFormat :=
  ⟨.toEven, some (-5, 16), ".0"⟩

def writeNumber : JsonNumber → String
  | .integer value => (if value < 0 then "-" else "") ++ Nat.repr value.natAbs
  | .double value => numberFormat.write value

/-- A character as it stands between quotes. Quotes, backslashes and control characters are
escaped, and nothing else. -/
def escapeChar (character : Char) : List Char :=
  if character = '"' then ['\\', '"']
  else if character = '\\' then ['\\', '\\']
  else if character = '\x08' then ['\\', 'b']
  else if character = '\x0c' then ['\\', 'f']
  else if character = '\n' then ['\\', 'n']
  else if character = '\r' then ['\\', 'r']
  else if character = '\t' then ['\\', 't']
  else if character.toNat < 0x20 then
    ['\\', 'u', '0', '0', Nat.digitChar (character.toNat / 16),
      Nat.digitChar (character.toNat % 16)]
  else [character]

def writeString (text : String) : String :=
  "\"" ++ String.ofList (text.toList.flatMap escapeChar) ++ "\""

def writeBool (value : Bool) : String :=
  if value then "true" else "false"

mutual

/-- The value without white space. -/
def compact : Json → String
  | .null => "null"
  | .bool value => writeBool value
  | .number value => writeNumber value
  | .string value => writeString value
  | .array items => "[" ++ Text.join "," (compactItems items) ++ "]"
  | .object members => "\x7b" ++ Text.join "," (compactMembers members) ++ "\x7d"

def compactItems : List Json → List String
  | [] => []
  | item :: rest => compact item :: compactItems rest

def compactMembers : List (String × Json) → List String
  | [] => []
  | (name, value) :: rest => (writeString name ++ ":" ++ compact value) :: compactMembers rest

end

def newLine (level : Nat) : String :=
  "\n" ++ String.ofList (List.replicate (2 * level) ' ')

/-- Parts within brackets, each on a line of its own. -/
def indentedBlock (opening closing : String) (level : Nat) (parts : List String) : String :=
  if parts.isEmpty then opening ++ closing
  else opening ++ newLine (level + 1) ++ Text.join ("," ++ newLine (level + 1)) parts ++
    newLine level ++ closing

mutual

/-- The value over several lines, from a level of indentation on. -/
def indentedAt (level : Nat) : Json → String
  | .null => "null"
  | .bool value => writeBool value
  | .number value => writeNumber value
  | .string value => writeString value
  | .array items => indentedBlock "[" "]" level (indentedItems (level + 1) items)
  | .object members => indentedBlock "\x7b" "\x7d" level (indentedMembers (level + 1) members)

def indentedItems (level : Nat) : List Json → List String
  | [] => []
  | item :: rest => indentedAt level item :: indentedItems level rest

def indentedMembers (level : Nat) : List (String × Json) → List String
  | [] => []
  | (name, value) :: rest =>
    (writeString name ++ ": " ++ indentedAt level value) :: indentedMembers level rest

end

def indented (value : Json) : String :=
  indentedAt 0 value

end AtomicCss.Json
