import AtomicCss.Compile.Options
import AtomicCss.Declaration.Basic
import AtomicCss.Declaration.Chain
import AtomicCss.Declaration.Wording
import AtomicCss.Property.Name
import AtomicCss.Property.Shorthand

/-!
Contract: from a key and a value to declarations in normal form.

Owns:
- splitting a shorthand into its longhands;
- mapping physical properties and keywords to logical ones;
- the declarations and warnings of a literal or a fallback chain;
- the property that a key stands for when its value is not known yet.

Does not own: values that are not literals, which the compiler deals with.
-/

namespace AtomicCss

structure Normalized where
  declarations : List Declaration
  warnings : List Warning
deriving DecidableEq, Repr

structure ResolvedProperty where
  name : String
  directional : Bool
  warnings : List Warning
deriving DecidableEq, Repr

mutual

def Value.display : Value → String
  | .number value => value.styleText
  | .text written => written
  | .chain items => Text.join ", " (Value.displayItems items)
  | .null => ValueKind.null.name
  | .dynamic _ => ValueKind.dynamic.name
  | .keyframes _ => ValueKind.keyframes.name
  | .object _ => ValueKind.object.name

def Value.displayItems : List Value → List String
  | [] => []
  | item :: rest => Value.display item :: Value.displayItems rest

end

namespace Literal

def canonical (property : String) : Literal → String
  | .number value => Property.numberText property value
  | .text written => Wording.canonical property written

def warnings (property : String) : Literal → List Warning
  | .number _ => []
  | .text written => Wording.warnings property written

end Literal

namespace Options

def nameWarnings (options : Options) (name value : String) : List Warning :=
  if options.warnUnknown && !Property.isKnown name then [.unknownProperty name value] else []

/-- The logical counterpart of a property, where logical properties are wanted. -/
def logical? (options : Options) (name : String) : Option String :=
  if options.logicalProperties then Property.logical? name else none

def logicalKeyword? (options : Options) (name value : String) : Option String :=
  if options.logicalProperties then Property.logicalKeyword? name value else none

/-- The declaration of a property along the writing direction. A physical property becomes its
logical counterpart; failing that, physical keywords do. -/
def directed (options : Options) (property : String) (values : List String) : Declaration :=
  match options.logical? property with
  | some logical => ⟨logical, values, true⟩
  | none =>
    ⟨property, values.map fun value => (options.logicalKeyword? property value).getD value,
      values.any fun value => (options.logicalKeyword? property value).isSome⟩

/-- What a shorthand's text is split into: the words of the text given to the longhands. A radius
with a slash and a text without words stay whole, and so does one with too many words, which is
remarked on. -/
def expandText (name written : String) (shorthand : Shorthand) :
    List (String × Literal) × List Warning :=
  let whole := [(name, Literal.text written)]
  let words := (Text.splitWords written.toList).map String.ofList
  if (name = "border-radius" && written.toList.contains '/') || words.isEmpty then (whole, [])
  else match shorthand.distribute words with
    | some pairs => (pairs.map fun pair => (pair.1, Literal.text pair.2), [])
    | none => (whole, [.malformedShorthand name written shorthand.limit])

/-- The longhands of a property with their values, or the property itself where it is no shorthand
that is split. -/
def expand (options : Options) (name : String) (literal : Literal) :
    List (String × Literal) × List Warning :=
  match if options.expandShorthands then Shorthand.ofName? name else none with
  | none => ([(name, literal)], [])
  | some shorthand =>
    match literal with
    | .number _ => (shorthand.longhands.map fun longhand => (longhand, literal), [])
    | .text written => expandText name written shorthand

def normalizeLiteral (options : Options) (name : String) (literal : Literal) : Normalized :=
  let expanded := options.expand name literal
  ⟨expanded.1.map fun pair => options.directed pair.1 [pair.2.canonical pair.1],
    expanded.2 ++ expanded.1.flatMap fun pair => pair.2.warnings pair.1⟩

/-- The literals of a chain, all of whose entries must be literals. -/
def chainLiterals (name : String) : List Value → Except Error (List Literal)
  | [] => .ok []
  | item :: rest =>
    match item.literal? with
    | none => .error (.invalidValue name (.notInChain item.kind))
    | some literal => (chainLiterals name rest).map (literal :: ·)

def normalizeChain (options : Options) (name : String) (items : List Value) :
    Except Error Normalized := do
  if items.isEmpty then .error (.invalidValue name .emptyChain)
  let literals ← chainLiterals name items
  let values ← Chain.compose name (literals.map (·.canonical name))
  .ok ⟨[options.directed name values], literals.flatMap (·.warnings name)⟩

def normalize (options : Options) (key : String) (value : Value) : Except Error Normalized :=
  let name := Property.canonicalName key
  let remarks := options.nameWarnings name value.display
  let remarked (normalized : Normalized) : Normalized :=
    ⟨normalized.declarations, remarks ++ normalized.warnings⟩
  match value with
  | .number magnitude => .ok (remarked (options.normalizeLiteral name (.number magnitude)))
  | .text written => .ok (remarked (options.normalizeLiteral name (.text written)))
  | .chain items => (options.normalizeChain name items).map remarked
  | other => .error (.invalidValue name (.notLiteral other.kind))

/-- The property that a key stands for, whatever its value. -/
def resolveProperty (options : Options) (key : String) : ResolvedProperty :=
  let name := Property.canonicalName key
  let remarks := options.nameWarnings name ""
  match options.logical? name with
  | some logical => ⟨logical, true, remarks⟩
  | none => ⟨name, false, remarks⟩

end Options

end AtomicCss
