import AtomicCss.Style.Value
import AtomicCss.Text.CodeRange

/-!
Contract: what can go wrong, by cause, and how each cause is worded.

Owns:
- the causes of failure of every part of the compiler;
- the text of each of them;
- which of them the style input is to blame for.

Does not own: warnings, which do not stop a compilation.
-/

namespace AtomicCss

inductive FileFault where
  | missing
  | isDirectory
  | notDirectory
  | nameTooLong
  | nulInName
  | notText
deriving DecidableEq, Repr

/-- What is wrong with a key of a style map or of a namespace. -/
inductive KeyFault where
  | notStyles (found : ValueKind)
  | blank
  | noConditions
  | notCondition
  | nestedObject
  | boundVariable (cssVariable parameter : String)
  | parametersNotList
  | badParameter (written : String)
deriving DecidableEq, Repr

inductive NestingFault where
  | unnamedPseudo
  | notContext
  | repeated (segment : String)
  | nestedElement
  | tooDeep (limit : Nat)
deriving DecidableEq, Repr

inductive KeyframesFault where
  | noFrames
  | badLabel (label : String)
  | notPlain (key : String) (found : ValueKind)
deriving DecidableEq, Repr

inductive ValueFault where
  | boolean
  | emptyChain
  | notInChain (found : ValueKind)
  | notLiteral (found : ValueKind)
  | unnamedParameter
  | badDefault
  | notList
deriving DecidableEq, Repr

inductive SettingsFault where
  | badClassPrefix (start : String)
  | emptyFallback
deriving DecidableEq, Repr

/-- What was looked for in vain. -/
inductive LookupFault where
  | source (path : String) (fault : FileFault)
  | settings (path : String) (fault : FileFault)
  | noSources (inputs : List String)
deriving DecidableEq, Repr

/-- What is wrong with the shape of a text that was read. -/
inductive FormatFault where
  | malformed
  | malformedToml
  | notObject (subject : String)
  | unexpectedKey (key : String)
  | settingsExtension
  | failedFiles (count : Nat)
deriving DecidableEq, Repr

/-- Why a compilation stopped. -/
inductive Error where
  | io (fault : FileFault)
  | invalidKey (scope key : String) (fault : KeyFault)
  | invalidAtRule (text : String)
  | invalidNesting (path : String) (fault : NestingFault)
  | selectorInKeyframes (key : String)
  | invalidKeyframes (fault : KeyframesFault)
  | unknownParameter (scope parameter : String)
  | invalidValue (property : String) (fault : ValueFault)
  | scatteredVariables (property : String)
  | nameCollision (id existing incoming : String)
  | invalidSettings (fault : SettingsFault)
  | notFound (fault : LookupFault)
  | invalidFormat (file : Option String) (fault : FormatFault)
deriving DecidableEq, Repr

/-- The operating system's words for a fault. -/
def FileFault.message : FileFault → String
  | .missing => "No such file or directory (os error 2)"
  | .isDirectory => "Is a directory (os error 21)"
  | .notDirectory => "Not a directory (os error 20)"
  | .nameTooLong => "File name too long (os error 36)"
  | .nulInName => "file name contained an unexpected NUL byte"
  | .notText => "stream did not contain valid UTF-8"

def KeyFault.message : KeyFault → String
  | .notStyles found => "expected a style object, found a " ++ found.name
  | .blank => "empty property name"
  | .noConditions => "conditional object has no values"
  | .notCondition => "conditional objects only take 'default', pseudo and at-rule keys"
  | .nestedObject => "unexpected nested object"
  | .boundVariable cssVariable parameter =>
    "variable '" ++ cssVariable ++ "' is already bound to parameter '" ++ parameter ++ "'"
  | .parametersNotList => "expected an array of names"
  | .badParameter written => "'" ++ written ++ "' is not a valid parameter name"

def NestingFault.message : NestingFault → String
  | .unnamedPseudo => "pseudo selector without a name"
  | .notContext => "expected a pseudo selector or at-rule"
  | .repeated segment => "'" ++ segment ++ "' is repeated"
  | .nestedElement => "pseudo-elements cannot be nested in pseudo-elements"
  | .tooDeep limit => "contexts nest at most " ++ Nat.repr limit ++ " levels deep"

def KeyframesFault.message : KeyframesFault → String
  | .noFrames => "keyframes need at least one frame"
  | .badLabel label => "invalid frame label '" ++ label ++ "'"
  | .notPlain key found =>
    "'" ++ key ++ "' has a " ++ found.name ++ " value; frames only take plain values"

def ValueFault.message : ValueFault → String
  | .boolean => "booleans are not valid style values"
  | .emptyChain => "empty fallback chain"
  | .notInChain found => "a " ++ found.name ++ " is not allowed here"
  | .notLiteral found => "a " ++ found.name ++ " cannot be normalized as a literal"
  | .unnamedParameter => "$dynamic must name a parameter"
  | .badDefault => "dynamic default must be a string or number"
  | .notList => "$firstThatWorks takes an array"

def SettingsFault.message : SettingsFault → String
  | .badClassPrefix start =>
    "class name prefix '" ++ start ++ "' must start with a letter or underscore"
  | .emptyFallback => "dynamic null fallback cannot be empty"

def LookupFault.message : LookupFault → String
  | .source path fault => path ++ ": " ++ fault.message
  | .settings path fault => "Config file " ++ path ++ ": " ++ fault.message
  | .noSources inputs => "no JSON style sources in " ++ Text.join ", " inputs

/-- The words for a fault of a text's shape. The file it stands in is named in front, except that
text outside the grammar is reported without a place. -/
def FormatFault.message (file : Option String) (fault : FormatFault) : String :=
  let place := match file with
    | some path => path ++ ": "
    | none => ""
  match fault with
  | .malformed => "<parse error>"
  | .malformedToml => place ++ "Invalid TOML config: <parse error>"
  | .notObject subject => place ++ "'" ++ subject ++ "' must be an object"
  | .unexpectedKey key =>
    place ++ "unexpected top-level key '" ++ key ++ "', expected 'create' or 'keyframes'"
  | .settingsExtension => place ++ "Config file must be .json or .toml format"
  | .failedFiles count => place ++ Nat.repr count ++ " file(s) have errors"

namespace Error

def message : Error → String
  | .io fault => "IO error: " ++ fault.message
  | .invalidKey scope key fault =>
    "Invalid key '" ++ key ++ "' in namespace '" ++ scope ++ "': " ++ fault.message
  | .invalidAtRule text =>
    "Invalid at-rule '" ++ text ++ "': only @media, @supports and @container may scope styles"
  | .invalidNesting path fault => "Invalid nesting at '" ++ path ++ "': " ++ fault.message
  | .selectorInKeyframes key =>
    "Pseudo-class or at-rule '" ++ key ++ "' is not allowed inside keyframes"
  | .invalidKeyframes fault => "Invalid keyframes: " ++ fault.message
  | .unknownParameter scope parameter =>
    "Unknown dynamic value '" ++ parameter ++ "' in namespace '" ++ scope ++ "'"
  | .invalidValue property fault => "Invalid value for '" ++ property ++ "': " ++ fault.message
  | .scatteredVariables property =>
    "Fallback chain for '" ++ property ++ "' mixes var() references with plain values"
  | .nameCollision id existing incoming =>
    "Class name collision for '" ++ id ++ "': '" ++ existing ++ "' vs '" ++ incoming ++ "'"
  | .invalidSettings fault => "Configuration error: " ++ fault.message
  | .notFound fault => "File not found: " ++ fault.message
  | .invalidFormat file fault => "Invalid format: " ++ fault.message file

/-- Whether the style input itself is at fault, which concerns one definition alone. -/
def isValidation : Error → Bool
  | .invalidKey _ _ _ => true
  | .invalidAtRule _ => true
  | .invalidNesting _ _ => true
  | .selectorInKeyframes _ => true
  | .invalidKeyframes _ => true
  | .unknownParameter _ _ => true
  | .invalidValue _ _ => true
  | .scatteredVariables _ => true
  | _ => false

/-- Whether two different rules got one name, which no input should bring about. -/
def isInvariantViolation : Error → Bool
  | .nameCollision _ _ _ => true
  | _ => false

end Error

end AtomicCss
