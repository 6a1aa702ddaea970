import AtomicCss.Number.Format

/-!
Contract: JSON values with members in order.

Owns:
- the type of JSON values and their numbers;
- ordered maps as lists of pairs, in which a repeated key keeps its first place and takes its last
  value.

Does not own: JSON text.
-/

namespace AtomicCss

/-- A JSON number: a 64-bit integer stays whole, any other number is a binary64 number. -/
inductive JsonNumber where
  | integer (value : Int)
  | double (value : Binary64)
deriving DecidableEq, Repr

def JsonNumber.toBinary64 : JsonNumber → Binary64
  | .integer value => Binary64.ofInt value
  | .double value => value

/-- A JSON value. The members of an object stand in the order of their first occurrence. -/
inductive Json where
  | null
  | bool (value : Bool)
  | number (value : JsonNumber)
  | string (value : String)
  | array (items : List Json)
  | object (members : List (String × Json))
deriving Repr, Inhabited

namespace OrderedMap

universe u

/-- The map with `key` set to `value`: in place if the key is present, at the end if not. -/
def set {α : Type u} (key : String) (value : α) : List (String × α) → List (String × α)
  | [] => [(key, value)]
  | entry :: rest => if entry.1 = key then (key, value) :: rest else entry :: set key value rest

def ofEntries {α : Type u} (entries : List (String × α)) : List (String × α) :=
  entries.foldl (fun map entry => set entry.1 entry.2 map) []

def get? {α : Type u} (key : String) : List (String × α) → Option α
  | [] => none
  | entry :: rest => if entry.1 = key then some entry.2 else get? key rest

end OrderedMap

namespace Json

def member? (name : String) : Json → Option Json
  | .object members => OrderedMap.get? name members
  | _ => none

def text? : Json → Option String
  | .string value => some value
  | _ => none

def bool? : Json → Option Bool
  | .bool value => some value
  | _ => none

/-- The value of a number that is whole and not negative. -/
def nat? : Json → Option Nat
  | .number (.integer value) => if 0 ≤ value then some value.toNat else none
  | _ => none

def items? : Json → Option (List Json)
  | .array items => some items
  | _ => none

def members? : Json → Option (List (String × Json))
  | .object members => some members
  | _ => none

end Json

end AtomicCss
