import AtomicCss.Declaration.Normal
import AtomicCss.Sheet.Rule

/-!
Contract: the rules of one declaration, described in words.

Owns: the `hash` command's lines on a property, a value and a context.

Does not own: the rules themselves.
-/

namespace AtomicCss

/-- A value given on the command line: a finite number, with white space around it or not, or else
the text as it is. -/
def argumentValue (written : String) : Value :=
  match Binary64.read? (Text.trimChars written.toList) with
  | some value => if value.isFinite then .number value else .text written
  | none => .text written

/-- The context of keys given on the command line, which may not repeat. -/
def contextOf (keys : List String) : Except Error Context :=
  keys.foldlM (fun context key => do
    let segment ← Segment.read key
    if context.contains segment then
      .error (.invalidNesting context.display (.repeated segment.text))
    else .ok (context.push segment)) Context.empty

def AtomicRule.describe (rule : AtomicRule) : List String :=
  let rtl := match rule.css.rtl with
    | some text => ["   rtl: " ++ text]
    | none => []
  [rule.className, "   ltr: " ++ rule.css.ltr] ++ rtl ++
    ["   priority: " ++ Nat.repr rule.priority]

/-- The lines on the rules of a property with a value in a context, after those on warnings. -/
def describeDeclaration (options : Options) (property : String) (value : Value)
    (keys : List String) : Except Error (List String) := do
  let context ← contextOf keys
  let normalized ← options.normalize property value
  let remarks := normalized.warnings.map fun warning => "⚠️  " ++ warning.display
  let rules := normalized.declarations.map fun declaration =>
    declaration.rule options.classPrefix context
  .ok (remarks ++ rules.flatMap AtomicRule.describe)

end AtomicCss
