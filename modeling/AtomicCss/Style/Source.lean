import AtomicCss.Compile.Options
import AtomicCss.Json.Reader
import AtomicCss.Json.Writer
import AtomicCss.Style.Definition

/-!
Contract: style sources in JSON.

Owns:
- style values, keyframes, namespaces and definitions as JSON;
- sources, with the definition under `create` and animations under `keyframes`.

Does not own: the files that sources stand in.
-/

namespace AtomicCss

def objectMembers (subject : String) : Json → Except Error (List (String × Json))
  | .object members => .ok members
  | _ => .error (.invalidFormat none (.notObject subject))

/-- The reference to a parameter, with its default. Numbers stand for their text. -/
def dynamicOf (key : String) (parameter : Json) (fallback : Option Json) :
    Except Error DynamicReference :=
  match parameter with
  | .string name =>
    match fallback with
    | some (.string text) => .ok ⟨name, some text⟩
    | some (.number value) => .ok ⟨name, some (Json.writeNumber value)⟩
    | some .null => .ok ⟨name, none⟩
    | none => .ok ⟨name, none⟩
    | some _ => .error (.invalidValue key .badDefault)
  | _ => .error (.invalidValue key .unnamedParameter)

mutual

/-- The style value under a key. An object with `$dynamic`, `$keyframes` or `$firstThatWorks`, in
this order of precedence, stands for a value of that kind. -/
def valueOf (key : String) : Json → Except Error Value
  | .null => .ok .null
  | .bool _ => .error (.invalidValue key .boolean)
  | .number value => .ok (.number value.toBinary64)
  | .string text => .ok (.text text)
  | .array items => (valuesOf key items).map .chain
  | .object members =>
    match OrderedMap.get? "$dynamic" members with
    | some parameter =>
      (dynamicOf key parameter (OrderedMap.get? "default" members)).map .dynamic
    | none =>
      match keyframesMember? members with
      | some frames => frames.map .keyframes
      | none =>
        match choicesMember? key members with
        | some choices => choices.map fun items => .chain items.reverse
        | none => (stylesOf members).map .object

def valuesOf (key : String) : List Json → Except Error (List Value)
  | [] => .ok []
  | item :: rest => do
    let value ← valueOf key item
    let values ← valuesOf key rest
    .ok (value :: values)

def stylesOf : List (String × Json) → Except Error StyleMap
  | [] => .ok []
  | (key, json) :: rest => do
    let value ← valueOf key json
    let styles ← stylesOf rest
    .ok ((key, value) :: styles)

def keyframesMember? : List (String × Json) → Option (Except Error Keyframes)
  | [] => none
  | (key, json) :: rest =>
    if key = "$keyframes" then some (keyframesOf json) else keyframesMember? rest

def choicesMember? (key : String) : List (String × Json) → Option (Except Error (List Value))
  | [] => none
  | (name, json) :: rest =>
    if name = "$firstThatWorks" then some (choicesOf key json) else choicesMember? key rest

/-- Choices, the preferred one first. -/
def choicesOf (key : String) : Json → Except Error (List Value)
  | .array items => valuesOf key items
  | _ => .error (.invalidValue key .notList)

def keyframesOf : Json → Except Error Keyframes
  | .object members => framesOf members
  | _ => .error (.invalidFormat none (.notObject "keyframes"))

def framesOf : List (String × Json) → Except Error Keyframes
  | [] => .ok []
  | (label, json) :: rest => do
    let styles ← frameOf label json
    let frames ← framesOf rest
    .ok ((label, styles) :: frames)

def frameOf (label : String) : Json → Except Error StyleMap
  | .object members => stylesOf members
  | _ => .error (.invalidFormat none (.notObject label))

end

def parametersOf (scope : String) (json : Json) : Except Error (List String) :=
  match json with
  | .array items => items.mapM fun item =>
    match item with
    | .string name =>
      if isIdentifier name then .ok name
      else .error (.invalidKey scope "$params" (.badParameter item.compact))
    | _ => .error (.invalidKey scope "$params" (.badParameter item.compact))
  | _ => .error (.invalidKey scope "$params" .parametersNotList)

/-- A namespace with one more member read: the parameters under `$params`, or a style. -/
def namespaceMember (scope : String) (styles : Namespace) (key : String) (json : Json) :
    Except Error Namespace :=
  if key = "$params" then do
    let parameters ← parametersOf scope json
    .ok ⟨parameters, styles.styles⟩
  else do
    let value ← valueOf key json
    .ok ⟨styles.parameters, styles.styles ++ [(key, value)]⟩

def namespaceOf (scope : String) (json : Json) : Except Error Namespace := do
  let members ← objectMembers scope json
  members.foldlM (fun styles entry => namespaceMember scope styles entry.1 entry.2) ⟨[], []⟩

def definitionOf (json : Json) : Except Error Definition := do
  let members ← objectMembers "create" json
  members.mapM fun entry => do
    let styles ← namespaceOf entry.1 entry.2
    .ok (entry.1, styles)

def animationsOf (json : Json) : Except Error (List (String × Keyframes)) := do
  let members ← objectMembers "keyframes" json
  members.mapM fun entry => do
    let frames ← keyframesOf entry.2
    .ok (entry.1, frames)

def sourceMember (source : Source) (key : String) (json : Json) : Except Error Source :=
  if key = "create" then do
    let definition ← definitionOf json
    .ok ⟨definition, source.keyframes⟩
  else if key = "keyframes" then do
    let animations ← animationsOf json
    .ok ⟨source.definition, animations⟩
  else .error (.invalidFormat none (.unexpectedKey key))

def sourceOf (json : Json) : Except Error Source := do
  let members ← objectMembers "source root" json
  members.foldlM (fun source entry => sourceMember source entry.1 entry.2) ⟨[], []⟩

def Source.read (text : String) : Except Error Source :=
  match Json.read? text with
  | none => .error (.invalidFormat none .malformed)
  | some json => sourceOf json

end AtomicCss
