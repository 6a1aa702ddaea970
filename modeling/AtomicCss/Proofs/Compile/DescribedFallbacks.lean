import AtomicCss.Json.Reader
import AtomicCss.Proofs.Compile.Bindings

/-!
Contract: the fallback in the JavaScript function that describes a binding.

Owns:
- string literals of JavaScript in double quotes, and the strings that they denote;
- that an escape denotes less than it takes to write, so that only plain text denotes itself;
- for which fallbacks the described function ends in a literal that denotes them.

Does not own: what the function does with a number or a string.
-/

namespace AtomicCss.Script

/-! ## String literals -/

/-- The 16-bit units of a code point. -/
def codeUnits (code : Nat) : List UInt16 :=
  if code < 0x10000 then [UInt16.ofNat code]
  else
    [UInt16.ofNat (0xD800 + (code - 0x10000) / 0x400),
      UInt16.ofNat (0xDC00 + (code - 0x10000) % 0x400)]

def stringValue (text : List Char) : List UInt16 :=
  text.flatMap fun character => codeUnits character.toNat

/-- The letters that have a meaning of their own after a backslash, with their units. -/
def namedEscapes : List (Char × UInt16) :=
  [('\'', 0x27), ('"', 0x22), ('\\', 0x5C), ('b', 0x08), ('t', 0x09), ('n', 0x0A), ('v', 0x0B),
    ('f', 0x0C), ('r', 0x0D)]

def lineEnds : List Char :=
  ['\n', '\r', '\u2028', '\u2029']

def octalNumber? (digits : List Char) : Option Nat :=
  digits.foldlM
    (fun value digit =>
      if '0' ≤ digit && digit ≤ '7' then some (8 * value + (digit.toNat - '0'.toNat)) else none) 0

/-- What may follow a backslash in a literal, before a given character, and the units that it stands
for. Octal escapes and escaped digits are those of code that is not strict. -/
inductive Escape (next : Option Char) : List Char → List UInt16 → Prop where
  | named {letter : Char} {unit : UInt16} (listed : (letter, unit) ∈ namedEscapes) :
      Escape next [letter] [unit]
  | itself {character : Char} (unnamed : character ∉ namedEscapes.map Prod.fst)
      (notDigit : character.isDigit = false) (notNumbered : character ∉ ['x', 'u'])
      (sameLine : character ∉ lineEnds) :
      Escape next [character] (codeUnits character.toNat)
  | lineEnd {character : Char} (ends : character ∈ lineEnds)
      (alone : ¬(character = '\r' ∧ next = some '\n')) :
      Escape next [character] []
  | bothLineEnds : Escape next ['\r', '\n'] []
  | octal {digits : List Char} {value : Nat} (number : octalNumber? digits = some value)
      (nonempty : digits ≠ []) (short : digits.length ≤ 3) (small : value < 256)
      (longest : digits.length = 3 ∨ ∀ digit larger, next = some digit →
        octalNumber? (digits ++ [digit]) = some larger → 256 ≤ larger) :
      Escape next digits [UInt16.ofNat value]
  | digit {character : Char} (notOctal : character ∈ ['8', '9']) :
      Escape next [character] (codeUnits character.toNat)
  | byte {first second : Char} {value : Nat}
      (number : Document.hexNumber? [first, second] = some value) :
      Escape next ['x', first, second] [UInt16.ofNat value]
  | unit {first second third fourth : Char} {value : Nat}
      (number : Document.hexNumber? [first, second, third, fourth] = some value) :
      Escape next ['u', first, second, third, fourth] [UInt16.ofNat value]
  | codePoint {digits : List Char} {value : Nat} (number : Document.hexNumber? digits = some value)
      (nonempty : digits ≠ []) (inRange : value ≤ 0x10FFFF) :
      Escape next ('u' :: '\x7b' :: digits ++ ['\x7d']) (codeUnits value)

/-- What may stand between the quotes of a literal, and the string that it denotes. A character that
is not escaped denotes itself; it is no quote, no backslash and ends no line. -/
inductive LiteralBody : List Char → List UInt16 → Prop where
  | nothing : LiteralBody [] []
  | plain {character : Char} {rest : List Char} {units : List UInt16}
      (isPlain : character ∉ ['"', '\\', '\n', '\r']) (others : LiteralBody rest units) :
      LiteralBody (character :: rest) (codeUnits character.toNat ++ units)
  | escape {sequence rest : List Char} {units others : List UInt16}
      (escape : Escape rest.head? sequence units) (body : LiteralBody rest others) :
      LiteralBody ('\\' :: (sequence ++ rest)) (units ++ others)

/-- One literal in double quotes, from the first character to the last, that denotes a text. -/
def IsLiteral (literal : List Char) (text : String) : Prop :=
  ∃ body, literal = '"' :: body ++ ['"'] ∧ LiteralBody body (stringValue text.toList)

def EndsInLiteral (script text : String) : Prop :=
  ∃ before literal, script.toList = before ++ literal ∧ IsLiteral literal text

/-- A text that needs no escapes in a literal. -/
def IsPlainText (text : List Char) : Prop :=
  ∀ character ∈ text, character ∉ ['"', '\\', '\n', '\r']

/-! ## Lengths -/

private theorem length_codeUnits
    (code : Nat) :
    1 ≤ (codeUnits code).length ∧ (codeUnits code).length ≤ 2 := by
  unfold codeUnits
  split
  · simp
  · simp

private theorem stringValue_cons
    (first : Char)
    (rest : List Char) :
    stringValue (first :: rest) = codeUnits first.toNat ++ stringValue rest :=
  rfl

private theorem stringValue_append
    (first second : List Char) :
    stringValue (first ++ second) = stringValue first ++ stringValue second :=
  List.flatMap_append

private theorem length_le_length_stringValue
    (text : List Char) :
    text.length ≤ (stringValue text).length := by
  induction text with
  | nil => exact Nat.le_refl _
  | cons first rest inductionHypothesis =>
      have atLeastOne := (length_codeUnits first.toNat).1
      rw [stringValue_cons, List.length_append, List.length_cons]
      omega

/-- An escape stands for no more units than are written after its backslash. -/
theorem Escape.length_le
    {next : Option Char}
    {sequence : List Char}
    {units : List UInt16}
    (escape : Escape next sequence units) :
    units.length ≤ (stringValue sequence).length := by
  have written := length_le_length_stringValue sequence
  cases escape with
  | named | byte | unit =>
      simp only [List.length_cons, List.length_nil] at written ⊢
      omega
  | itself | digit => simp [stringValue]
  | lineEnd | bothLineEnds => exact Nat.zero_le _
  | octal _ nonempty => exact Nat.le_trans (List.length_pos_of_ne_nil nonempty) written
  | @codePoint digits value =>
      have few := (length_codeUnits value).2
      simp only [List.length_cons, List.length_append, List.length_nil] at written
      omega

namespace LiteralBody

variable {body : List Char} {units : List UInt16}

/-- A literal denotes no more than is written, and less if there is an escape. -/
theorem length_le
    (literal : LiteralBody body units) :
    units.length ≤ (stringValue body).length ∧
      ('\\' ∈ body → units.length < (stringValue body).length) := by
  induction literal with
  | nothing => simp
  | @plain character rest units isPlain others inductionHypothesis =>
      obtain ⟨atMost, fewer⟩ := inductionHypothesis
      rw [stringValue_cons, List.length_append, List.length_append]
      refine ⟨by omega, ?_⟩
      intro escaped
      have inRest : '\\' ∈ rest := by
        rcases List.mem_cons.mp escaped with here | later
        · simp [← here] at isPlain
        · exact later
      have restFewer := fewer inRest
      omega
  | @escape sequence rest units others escape body inductionHypothesis =>
      have atMost := escape.length_le
      have backslash := (length_codeUnits '\\'.toNat).1
      rw [stringValue_cons, stringValue_append, List.length_append, List.length_append,
        List.length_append]
      omega

/-- Plain text denotes itself. -/
theorem of_isPlainText
    {text : List Char}
    (isPlain : IsPlainText text) :
    LiteralBody text (stringValue text) := by
  induction text with
  | nil => exact .nothing
  | cons first rest inductionHypothesis =>
      obtain ⟨firstPlain, restPlain⟩ := List.forall_mem_cons.mp isPlain
      exact .plain firstPlain (inductionHypothesis restPlain)

/-- Without a backslash, a literal is plain. -/
theorem isPlainText
    (literal : LiteralBody body units)
    (unescaped : '\\' ∉ body) :
    IsPlainText body := by
  induction literal with
  | nothing => exact List.forall_mem_nil _
  | plain isPlain _ inductionHypothesis =>
      exact List.forall_mem_cons.mpr
        ⟨isPlain, inductionHypothesis (List.not_mem_of_not_mem_cons unescaped)⟩
  | escape => exact absurd List.mem_cons_self unescaped

/-- A quote inside a literal is escaped. -/
theorem backslash_mem_of_quote
    (literal : LiteralBody body units)
    {before after : List Char}
    (split : body = before ++ '"' :: after) :
    '\\' ∈ before := by
  induction literal generalizing before with
  | nothing => simp at split
  | plain isPlain _ inductionHypothesis =>
      cases before with
      | nil =>
          obtain ⟨rfl, -⟩ := List.cons.inj split
          simp at isPlain
      | cons first rest =>
          obtain ⟨-, same⟩ := List.cons.inj split
          exact List.mem_cons_of_mem _ (inductionHypothesis same)
  | escape =>
      cases before with
      | nil => exact absurd (List.cons.inj split).1 (by decide)
      | cons first rest =>
          obtain ⟨rfl, -⟩ := List.cons.inj split
          exact List.mem_cons_self

/-- Only plain text denotes itself. -/
theorem self_iff
    {text : List Char} :
    LiteralBody text (stringValue text) ↔ IsPlainText text := by
  constructor
  · intro literal
    apply literal.isPlainText
    intro escaped
    exact absurd (literal.length_le.2 escaped) (Nat.lt_irrefl _)
  · exact of_isPlainText

end LiteralBody

/-- A text in quotes, after one without backslashes, ends in a literal that denotes it just if it is
plain. -/
theorem endsInLiteral_iff
    {script text : String}
    {start : List Char}
    (unescaped : '\\' ∉ start)
    (written : script.toList = start ++ '"' :: text.toList ++ ['"']) :
    EndsInLiteral script text ↔ IsPlainText text.toList := by
  constructor
  · rintro ⟨before, literal, split, body, rfl, denotes⟩
    have inner : start ++ '"' :: text.toList = before ++ '"' :: body := by
      rw [written, List.cons_append, ← List.cons_append, ← List.append_assoc] at split
      exact List.append_cancel_right split
    have atMost := denotes.length_le.1
    rcases List.append_eq_append_iff.mp inner with ⟨between, rfl, shorter⟩ | ⟨between, rfl, longer⟩
    · cases between with
      | nil =>
          obtain rfl := (List.cons.inj shorter).2
          exact LiteralBody.self_iff.mp denotes
      | cons first rest =>
          -- The literal would be shorter than what it denotes.
          have isLonger : text.toList = rest ++ '"' :: body := (List.cons.inj shorter).2
          rw [isLonger, stringValue_append, stringValue_cons, List.length_append,
            List.length_append] at atMost
          have quote := (length_codeUnits '"'.toNat).1
          omega
    · cases between with
      | nil =>
          obtain rfl := (List.cons.inj longer).2
          exact LiteralBody.self_iff.mp denotes
      | cons first rest =>
          -- The literal would hold the quote that opens the text.
          have escaped := denotes.backslash_mem_of_quote (List.cons.inj longer).2
          exact absurd (List.mem_append_right _ (List.mem_cons_of_mem _ escaped)) unescaped
  · intro isPlain
    exact ⟨start, _, by rw [written, List.append_assoc], text.toList, rfl,
      LiteralBody.of_isPlainText isPlain⟩

end AtomicCss.Script

namespace AtomicCss

open AtomicCss.Script

/-! ## Described bindings -/

/-- The units that numbers get. -/
theorem numberSuffix_mem
    (name : String) :
    Property.numberSuffix name ∈ ["", "px", "ms"] := by
  unfold Property.numberSuffix
  split
  · decide
  · split
    · decide
    · decide

/-- The transforms of a definition that compiles have no other units. -/
theorem suffix_mem_of_compileDefinition
    {options : Options}
    {definition : Definition}
    {output : Output}
    (success : compileDefinition options definition = .ok output)
    {style : String × CompiledNamespace}
    (member : style ∈ output.styles)
    {binding : Binding}
    (bound : binding ∈ style.2.bindings) :
    binding.transform.suffix ∈ ["", "px", "ms"] := by
  obtain ⟨compiles, -, rfl⟩ := (compileDefinition_eq_ok_iff options definition output).mp success
  rw [styles_gathered] at member
  obtain ⟨entry, entryMember, rfl⟩ := List.mem_map.mp member
  obtain ⟨leaves, flattened, -⟩ := (compiles entry entryMember).leaves
  obtain ⟨leaf, -, reference, -, rfl⟩ :=
    (mem_bindings_iff (compiles entry entryMember) flattened binding).mp bound
  exact numberSuffix_mem _

def describedStart (suffix : String) : String :=
  "val => typeof val === \"number\" ? " ++
    (if suffix = "" then "val" else "val + \"" ++ suffix ++ "\"") ++ " : val != null ? val : "

private theorem toList_quoted
    {opened start : String}
    (opens : opened.toList = start.toList ++ ['"'])
    (before text : String) :
    (before ++ opened ++ text ++ "\"").toList =
      (before ++ start).toList ++ '"' :: text.toList ++ ['"'] := by
  have quote : "\"".toList = ['"'] := by decide
  simp only [String.toList_append, opens, quote, List.append_assoc, List.cons_append,
    List.nil_append]

private theorem toList_describe
    (transform : ValueTransform) :
    transform.describe.toList =
      (describedStart transform.suffix).toList ++ '"' :: (transform.apply .null).toList ++
        ['"'] := by
  have opens : " : val != null ? val : \"".toList = " : val != null ? val : ".toList ++ ['"'] := by
    decide
  exact toList_quoted opens _ transform.nullFallback

private theorem backslash_not_mem_describedStart
    {suffix : String}
    (known : suffix ∈ ["", "px", "ms"]) :
    '\\' ∉ (describedStart suffix).toList := by
  simp only [List.mem_cons, List.not_mem_nil, or_false] at known
  rcases known with rfl | rfl | rfl
  all_goals decide +kernel

/-- When the described function agrees with the transform on a missing argument. Take any binding
of a definition that compiles: its described function ends in one string literal that denotes what
the transform gives for null, just if that text has no double quote, no backslash and no line
break. -/
theorem described_fallback_denoted_iff
    (options : Options)
    (definition : Definition)
    (output : Output)
    (success : compileDefinition options definition = .ok output)
    (style : String × CompiledNamespace)
    (member : style ∈ output.styles)
    (binding : Binding)
    (bound : binding ∈ style.2.bindings) :
    EndsInLiteral binding.transform.describe (binding.transform.apply .null) ↔
      IsPlainText (binding.transform.apply .null).toList := by
  have known := suffix_mem_of_compileDefinition success member bound
  exact endsInLiteral_iff (backslash_not_mem_describedStart known) (toList_describe _)

/-- A list of fonts with a quoted name breaks the literal, while a plain fallback is denoted. -/
theorem quoted_font_breaks_literal :
    let font : ValueTransform := ⟨"px", "\"Inter\", serif"⟩
    let width : ValueTransform := ⟨"px", "initial"⟩
    let compiled : CompiledNamespace :=
      ⟨[("fontFamily", ["x3drxju"]), ("width", ["x17fnjtu"])], ["font", "size"],
        [⟨"--font-family", "font", font⟩, ⟨"--width", "size", width⟩]⟩
    let styles : StyleMap :=
      [("fontFamily", .dynamic ⟨"font", some "\"Inter\", serif"⟩),
        ("width", .dynamic ⟨"size", none⟩)]
    ∃ output,
      compileDefinition Options.default [("card", ⟨["font", "size"], styles⟩)] = .ok output ∧
        output.styles = [("card", compiled)] ∧
        ¬EndsInLiteral font.describe (font.apply .null) ∧
        EndsInLiteral width.describe (width.apply .null) := by
  intro font width compiled styles
  let output : Output :=
    ⟨[("card", compiled)],
      [.rule ⟨"x3drxju", ⟨".x3drxju\x7bfont-family:var(--font-family,revert)\x7d", none⟩, 3000⟩,
        .rule ⟨"x17fnjtu", ⟨".x17fnjtu\x7bwidth:var(--width,revert)\x7d", none⟩, 4000⟩],
      []⟩
  have success :
      compileDefinition Options.default [("card", ⟨["font", "size"], styles⟩)] = .ok output := by
    decide +kernel
  have denoted := described_fallback_denoted_iff Options.default _ output success
    ("card", compiled) List.mem_cons_self
  have fontDenoted := denoted ⟨"--font-family", "font", font⟩ (by simp [compiled])
  have widthDenoted := denoted ⟨"--width", "size", width⟩ (by simp [compiled])
  refine ⟨output, success, rfl, ?_, ?_⟩
  · rw [fontDenoted]
    intro isPlain
    exact isPlain '"' (by decide) (by decide)
  · rw [widthDenoted]
    have plain :
        "initial".toList.all (fun character => character ∉ ['"', '\\', '\n', '\r']) = true := by
      decide
    intro character member
    exact of_decide_eq_true (List.all_eq_true.mp plain character member)

end AtomicCss
