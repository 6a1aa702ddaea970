import AtomicCss.Compile.Options
import AtomicCss.Json.Reader
import AtomicCss.Toml.Reader

/-!
Contract: settings as data.

Owns:
- settings in JSON, in which a missing field takes its default;
- settings files in JSON and TOML, in which a missing field leaves what is set elsewhere.

Does not own: settings given on the command line.
-/

namespace AtomicCss

def optionNames : List String :=
  ["class_name_prefix", "expand_shorthands", "logical_properties", "warn_unknown_properties",
    "dynamic_null_fallback", "debug_mode"]

/-- The members of an object with one of the given names. Such a name may occur once; members with
other names are passed over, whatever they hold. -/
def namedMembers? (names : List String) :
    List (Option String × Document) → Option (List (String × Json))
  | [] => some []
  | (name, document) :: rest => do
    let text ← name
    let members ← namedMembers? names rest
    if names.contains text then
      let value ← document.value? Document.nestingLimit
      if (OrderedMap.get? text members).isSome then none else some ((text, value) :: members)
    else some members

/-- Named fields in JSON: an object, or a list of values in the order of the names, of which the
last ones may be missing. -/
def fields? (names : List String) : Document → Option (List (String × Json))
  | .object members => namedMembers? names members
  | .array items => do
    let values ← items.mapM fun item => item.value? Document.nestingLimit
    if values.length ≤ names.length then some (names.zip values) else none
  | _ => none

/-- A field of some type, if it is there; none if it has another type. -/
def typedField? {α : Type} (read : Json → Option α) (name : String)
    (members : List (String × Json)) : Option (Option α) :=
  match OrderedMap.get? name members with
  | none => some none
  | some json => (read json).map some

/-- Settings with the given members, and defaults for the others. -/
def Options.ofMembers? (members : List (String × Json)) : Option Options := do
  let classPrefix ← typedField? Json.text? "class_name_prefix" members
  let expandShorthands ← typedField? Json.bool? "expand_shorthands" members
  let logicalProperties ← typedField? Json.bool? "logical_properties" members
  let warnUnknown ← typedField? Json.bool? "warn_unknown_properties" members
  let nullFallback ← typedField? Json.text? "dynamic_null_fallback" members
  let debugMode ← typedField? Json.bool? "debug_mode" members
  some ⟨classPrefix.getD Options.default.classPrefix,
    expandShorthands.getD Options.default.expandShorthands,
    logicalProperties.getD Options.default.logicalProperties,
    warnUnknown.getD Options.default.warnUnknown,
    nullFallback.getD Options.default.nullFallback,
    debugMode.getD Options.default.debugMode⟩

def Options.read? (text : String) : Option Options := do
  let document ← Document.read? text
  let members ← fields? optionNames document
  Options.ofMembers? members

structure Settings where
  classPrefix : Option String
  expandShorthands : Option Bool
  logicalProperties : Option Bool
  warnUnknown : Option Bool
  nullFallback : Option String
  debugMode : Option Bool
  /-- The file that output goes to. -/
  outputFile : Option String
deriving DecidableEq, Repr

namespace Settings

def empty : Settings :=
  ⟨none, none, none, none, none, none, none⟩

def apply (settings : Settings) (options : Options) : Options :=
  ⟨settings.classPrefix.getD options.classPrefix,
    settings.expandShorthands.getD options.expandShorthands,
    settings.logicalProperties.getD options.logicalProperties,
    settings.warnUnknown.getD options.warnUnknown,
    settings.nullFallback.getD options.nullFallback,
    settings.debugMode.getD options.debugMode⟩

def names : List String :=
  optionNames ++ ["output_file"]

def ofMembers? (members : List (String × Json)) : Option Settings := do
  let classPrefix ← typedField? Json.text? "class_name_prefix" members
  let expandShorthands ← typedField? Json.bool? "expand_shorthands" members
  let logicalProperties ← typedField? Json.bool? "logical_properties" members
  let warnUnknown ← typedField? Json.bool? "warn_unknown_properties" members
  let nullFallback ← typedField? Json.text? "dynamic_null_fallback" members
  let debugMode ← typedField? Json.bool? "debug_mode" members
  let outputFile ← typedField? Json.text? "output_file" members
  some ⟨classPrefix, expandShorthands, logicalProperties, warnUnknown, nullFallback, debugMode,
    outputFile⟩

/-- Whether a member is set: null leaves it unset. -/
def isSet (member : String × Json) : Bool :=
  match member.2 with
  | .null => false
  | _ => true

/-- The settings that a JSON text describes. A list of values must name them all. -/
def ofJson? (text : String) : Option Settings := do
  let document ← Document.read? text
  let members ← fields? names document
  let complete : Bool := match document with
    | .array items => items.length = names.length
    | _ => true
  if complete then ofMembers? (members.filter isSet) else none

def ofToml? (text : String) : Option Settings := do
  let members ← Toml.read? text
  ofMembers? members

/-- The settings that a file describes, by the ending of its name. -/
def read (path text : String) : Except Error Settings :=
  if ".json".toList.isSuffixOf path.toList then
    match ofJson? text with
    | some settings => .ok settings
    | none => .error (.invalidFormat none .malformed)
  else if ".toml".toList.isSuffixOf path.toList then
    match ofToml? text with
    | some settings => .ok settings
    | none => .error (.invalidFormat none .malformedToml)
  else .error (.invalidFormat none .settingsExtension)

end Settings

end AtomicCss
