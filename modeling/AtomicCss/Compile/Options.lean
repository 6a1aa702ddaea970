import AtomicCss.Error
import AtomicCss.Text.Blank

/-!
Contract: the settings of a compiler.

Owns:
- the settings and their defaults;
- the checks on them, and the type of settings that pass.

Does not own: the files and flags that settings come from.
-/

namespace AtomicCss

/-- Whether a text can name a parameter: a letter, `_` or `$`, then letters, digits, `_` or `$`. -/
def isIdentifier (name : String) : Bool :=
  match name.toList with
  | [] => false
  | first :: rest =>
    (first.isAlpha || first = '_' || first = '$') &&
      rest.all fun character => character.isAlphanum || character = '_' || character = '$'

/-- Whether names that start with a text are CSS identifiers: a letter or `_`, then letters,
digits, `_` or `-`. -/
def isClassPrefix (start : String) : Bool :=
  match start.toList with
  | [] => false
  | first :: rest =>
    (first.isAlpha || first = '_') &&
      rest.all fun character => character.isAlphanum || character = '_' || character = '-'

structure Options where
  /-- What every generated name starts with. -/
  classPrefix : String
  /-- Whether shorthands such as `margin` are split into longhands. -/
  expandShorthands : Bool
  /-- Whether physical properties become logical ones. -/
  logicalProperties : Bool
  /-- Whether unknown properties are remarked on. -/
  warnUnknown : Bool
  /-- The value of a dynamic property whose argument is missing. -/
  nullFallback : String
  /-- Whether to log more. -/
  debugMode : Bool
deriving DecidableEq, Repr

namespace Options

def default : Options :=
  ⟨"x", true, true, true, "initial", false⟩

/-- Settings are valid when generated names are identifiers and the fallback is not blank. -/
def IsValid (options : Options) : Prop :=
  isClassPrefix options.classPrefix = true ∧ Text.trim options.nullFallback ≠ ""

instance (options : Options) : Decidable options.IsValid := by
  unfold IsValid
  infer_instance

/-- The fault of settings that are not valid; that of the prefix comes first. -/
def validate (options : Options) : Except Error Unit :=
  if isClassPrefix options.classPrefix then
    if Text.trim options.nullFallback = "" then .error (.invalidSettings .emptyFallback)
    else .ok ()
  else .error (.invalidSettings (.badClassPrefix options.classPrefix))

/-- The checks pass exactly for valid settings. -/
theorem validate_eq_ok_iff (options : Options) :
    options.validate = .ok () ↔ options.IsValid := by
  unfold validate IsValid
  split
  · split <;> simp_all
  · simp_all

end Options

end AtomicCss
