import AtomicCss.Compile.Options
import AtomicCss.Declaration.Wording
import AtomicCss.Proofs.Text.Ascii
import Mathlib.Tactic.Tauto

/-!
Contract: identifiers in style text keep their spelling.

Owns:
- the characters of identifiers, and what they are not;
- texts without quotes, white space or separators, which each pass over a text leaves alone;
- words that do not start like a number;
- the canonical spelling of an identifier, which is the identifier.

Does not own: which identifiers are generated, and the content property, which puts quotes around
them.
-/

namespace AtomicCss

def isNameChar (character : Char) : Bool :=
  character.isAlphanum || character = '_' || character = '-'

def isNameStart (character : Char) : Bool :=
  character.isAlpha || character = '_'

theorem isClassPrefix_iff
    (name : String) :
    isClassPrefix name = true ↔
      ∃ first rest, name.toList = first :: rest ∧ isNameStart first = true ∧
        rest.all isNameChar = true := by
  unfold isClassPrefix
  cases name.toList with
  | nil => simp
  | cons first rest =>
      rw [Bool.and_eq_true]
      constructor
      · intro parts
        exact ⟨first, rest, rfl, parts⟩
      · rintro ⟨_, _, equal, parts⟩
        obtain ⟨rfl, rfl⟩ := List.cons.inj equal
        exact parts

/-! ## Characters of identifiers -/

private theorem isNameChar_of_isNameStart
    {character : Char}
    (starts : isNameStart character = true) :
    isNameChar character = true := by
  simp only [isNameStart, isNameChar, Char.isAlphanum, Bool.or_eq_true, decide_eq_true_eq]
    at starts ⊢
  tauto

private theorem toNat_lt_of_isNameChar
    {character : Char}
    (named : isNameChar character = true) :
    character.toNat < 128 := by
  simp only [isNameChar, Char.isAlphanum, Bool.or_eq_true, decide_eq_true_eq] at named
  rcases named with ((letter | digit) | rfl) | rfl
  · exact Text.toNat_lt_of_isAlpha letter
  · exact Text.toNat_lt_of_isDigit digit
  · decide
  · decide

/-- A test that the name characters among the first 128 pass is passed by every name character. -/
theorem passes_of_isNameChar
    (test : Char → Bool)
    (tested : ((List.range 128).map Char.ofNat).all fun character =>
      !isNameChar character || test character)
    {character : Char}
    (named : isNameChar character = true) :
    test character = true := by
  have passed := Text.passes_of_toNat_lt _ tested (toNat_lt_of_isNameChar named)
  simpa [named] using passed

private theorem ne_quote_of_isNameChar
    {character : Char}
    (named : isNameChar character = true) :
    character ≠ '\'' := by
  simpa using passes_of_isNameChar (fun other => other != '\'') (by decide) named

theorem isBlank_of_isNameChar
    {character : Char}
    (named : isNameChar character = true) :
    Text.isBlank character = false := by
  simpa using passes_of_isNameChar (fun other => !Text.isBlank other) (by decide) named

theorem endsWord_of_isNameChar
    {character : Char}
    (named : isNameChar character = true) :
    Wording.endsWord character = false := by
  simpa using passes_of_isNameChar (fun other => !Wording.endsWord other) (by decide) named

/-- Identifiers do not start with a digit, a sign or a point. -/
theorem not_numeric_of_isNameStart
    {character : Char}
    (starts : isNameStart character = true) :
    character ≠ '+' ∧ character ≠ '-' ∧ character ≠ '.' ∧
      Text.isDecimalDigit character = false := by
  have passed := passes_of_isNameChar
    (fun other => !isNameStart other ||
      (other != '+' && other != '-' && other != '.' && !Text.isDecimalDigit other))
    (by decide) (isNameChar_of_isNameStart starts)
  simpa [starts, and_assoc] using passed

/-! ## Passes over a text -/

namespace Wording

open AtomicCss.Text

private theorem doubleQuotes_eq_self
    {text : List Char}
    (unquoted : ∀ character ∈ text, character ≠ '\'') :
    doubleQuotes text = text := by
  unfold doubleQuotes
  induction text with
  | nil => rfl
  | cons first rest inductionHypothesis =>
      rw [List.forall_mem_cons] at unquoted
      rw [doubleQuotesFrom, if_neg unquoted.1, inductionHypothesis unquoted.2]

private theorem collapseBlanksFrom_eq_self
    {text : List Char}
    (unspaced : ∀ character ∈ text, isBlank character = false)
    (scan : Scan)
    (last : Option Char) :
    collapseBlanksFrom scan last false text = text := by
  induction text generalizing scan last with
  | nil => rfl
  | cons first rest inductionHypothesis =>
      rw [List.forall_mem_cons] at unspaced
      unfold collapseBlanksFrom
      simp only [inductionHypothesis unspaced.2, unspaced.1]
      by_cases quoted : scan.quoted
      · rw [if_pos quoted]
      · rw [if_neg quoted]
        cases last with
        | none => rfl
        | some before => rfl

/-- A text without separators is a single word, once it has a character. -/
theorem piecesFrom_of_word
    {text : List Char}
    (unseparated : ∀ character ∈ text, endsWord character = false)
    {scan : Scan}
    (unquoted : scan.quoted = false)
    (held : List Char) :
    piecesFrom scan held text = heldPiece scan.depth (text.reverse ++ held) := by
  induction text generalizing held with
  | nil => rfl
  | cons first rest inductionHypothesis =>
      rw [List.forall_mem_cons] at unseparated
      rw [piecesFrom, unquoted, unseparated.1]
      simp only [Bool.false_eq_true, if_false, inductionHypothesis unseparated.2,
        List.reverse_cons, List.append_assoc, List.singleton_append]

private theorem respellNumbers_of_word
    {text : List Char}
    (nonempty : text ≠ [])
    (unseparated : ∀ character ∈ text, endsWord character = false) :
    respellNumbers text = respellWord 0 text := by
  have single : pieces text = [.word 0 text] := by
    have started : Scan.start.quoted = false := rfl
    rw [pieces, piecesFrom_of_word unseparated started, heldPiece, List.append_nil,
      List.reverse_reverse]
    simp [nonempty, Scan.start]
  rw [respellNumbers, single]
  simp [Piece.respell]

private theorem read?_eq_none_of_isNameStart
    {first : Char}
    (starts : isNameStart first = true)
    (rest : List Char) :
    NumericWord.read? (first :: rest) = none := by
  obtain ⟨notPlus, notMinus, notPoint, notDigit⟩ := not_numeric_of_isNameStart starts
  unfold NumericWord.read?
  split
  · rename_i equal
    exact absurd (List.cons.inj equal).1 notPlus
  · rename_i equal
    exact absurd (List.cons.inj equal).1 notMinus
  · -- Neither a sign nor digits were taken, so the point would have to be the first character.
    simp only [List.length_nil, List.drop_zero, List.takeWhile_cons, List.dropWhile_cons, notDigit,
      Bool.false_eq_true, if_false]
    split
    · rename_i equal
      exact absurd (List.cons.inj equal).1 notPoint
    · simp

/-- An identifier is its own canonical spelling. -/
theorem canonical_of_isClassPrefix
    {property name : String}
    (other : property ≠ "content")
    (identifier : isClassPrefix name = true) :
    canonical property name = name := by
  obtain ⟨first, rest, spelled, starts, others⟩ := (isClassPrefix_iff name).mp identifier
  have named : ∀ character ∈ name.toList, isNameChar character = true := by
    rw [spelled, List.forall_mem_cons]
    exact ⟨isNameChar_of_isNameStart starts, List.all_eq_true.mp others⟩
  -- Pass by pass: quotes, white space, numbers.
  have unchanged : spaced name.toList = name.toList := by
    rw [spaced, doubleQuotes_eq_self fun _ member => ne_quote_of_isNameChar (named _ member)]
    exact collapseBlanksFrom_eq_self (fun _ member => isBlank_of_isNameChar (named _ member)) _ _
  have respelled : respellNumbers name.toList = name.toList := by
    rw [respellNumbers_of_word (by simp [spelled])
      fun _ member => endsWord_of_isNameChar (named _ member)]
    rw [spelled, respellWord, read?_eq_none_of_isNameStart starts]
  rw [canonical, canonicalChars, unchanged, respelled, if_neg other, String.ofList_toList]

end Wording

end AtomicCss
