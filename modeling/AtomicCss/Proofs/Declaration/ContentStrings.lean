import AtomicCss.Proofs.Declaration.Quotes
import Mathlib.Algebra.Group.Nat.Even

/-!
Contract: whether the quotes that are put around generated content make it one string.

Owns:
- strings of style text, in which a backslash escapes the next character;
- the backslashes right before a place, whose number decides whether the place is escaped;
- which texts of generated content become one string, and that those without backslashes do.

Does not own: content that is in quotes already, calls a function or is a keyword.
-/

namespace AtomicCss.Wording

open AtomicCss.Text

/-! ## Strings -/

/-- Whether the next character is escaped after one more character: a backslash escapes it, unless
the backslash is escaped itself. -/
def escapesNext (escaped : Bool) (character : Char) : Bool :=
  !escaped && character = '\\'

def escapedAfter (text : List Char) : Bool :=
  text.foldl escapesNext false

/-- One string from the first character to the last: both are double quotes, the last one is not
escaped, and all double quotes between them are. -/
def IsStringToken (text : List Char) : Prop :=
  ∃ inner, text = '"' :: inner ++ ['"'] ∧ escapedAfter inner = false ∧
    ∀ before after, inner = before ++ '"' :: after → escapedAfter before = true

def lastBackslashes (text : List Char) : Nat :=
  (text.reverse.takeWhile (· = '\\')).length

/-- Backslashes come in pairs where it matters: at the end of a text, and before each of its double
quotes. -/
def HasPairedBackslashes (text : List Char) : Prop :=
  Even (lastBackslashes text) ∧
    ∀ before after, text = before ++ '"' :: after → Even (lastBackslashes before)

private theorem lastBackslashes_concat
    (text : List Char)
    (character : Char) :
    lastBackslashes (text ++ [character]) =
      if character = '\\' then lastBackslashes text + 1 else 0 := by
  unfold lastBackslashes
  rw [List.reverse_append, List.reverse_singleton, List.singleton_append, List.takeWhile_cons]
  by_cases backslash : character = '\\'
  · simp [backslash]
  · simp [backslash]

private theorem escapedAfter_concat
    (text : List Char)
    (character : Char) :
    escapedAfter (text ++ [character]) = escapesNext (escapedAfter text) character := by
  simp [escapedAfter]

/-- What follows a text is escaped after an odd number of backslashes. -/
theorem escapedAfter_eq_false_iff
    (text : List Char) :
    escapedAfter text = false ↔ Even (lastBackslashes text) := by
  induction text using List.reverseRecOn with
  | nil => simp [escapedAfter, lastBackslashes]
  | append_singleton rest character inductionHypothesis =>
      rw [escapedAfter_concat, lastBackslashes_concat]
      by_cases backslash : character = '\\'
      · rw [if_pos backslash, Nat.even_add_one, ← inductionHypothesis]
        simp [escapesNext, backslash]
      · simp [escapesNext, backslash]

/-! ## Escaped quotes -/

/-- Escaping quotes leaves the backslashes at the end of a text as they are. -/
theorem lastBackslashes_flatMap_escapeQuote
    (text : List Char) :
    lastBackslashes (text.flatMap escapeQuote) = lastBackslashes text := by
  induction text using List.reverseRecOn with
  | nil => rfl
  | append_singleton rest character inductionHypothesis =>
      rw [List.flatMap_append, List.flatMap_singleton, lastBackslashes_concat]
      by_cases quote : character = '"'
      · subst quote
        show lastBackslashes (rest.flatMap escapeQuote ++ (['\\'] ++ ['"'])) = _
        rw [← List.append_assoc, lastBackslashes_concat]
        rfl
      · rw [escapeQuote, if_neg quote, lastBackslashes_concat, inductionHypothesis]

/-- Each quote of a text with escaped quotes is one of the text, after the backslash that was put
before it. -/
theorem flatMap_escapeQuote_eq_append_iff
    (text before after : List Char) :
    text.flatMap escapeQuote = before ++ '"' :: after ↔
      ∃ earlier later, text = earlier ++ '"' :: later ∧
        before = earlier.flatMap escapeQuote ++ ['\\'] ∧ after = later.flatMap escapeQuote := by
  constructor
  · intro equal
    induction text generalizing before with
    | nil => simp at equal
    | cons first rest inductionHypothesis =>
        rw [List.flatMap_cons] at equal
        by_cases quote : first = '"'
        · subst quote
          -- The quote is this one, or one that comes after it.
          match before with
          | [] => cases equal
          | [_] =>
              obtain ⟨rfl, shorter⟩ := List.cons.inj equal
              exact ⟨[], rest, rfl, rfl, (List.cons.inj shorter).2.symm⟩
          | _ :: _ :: others =>
              obtain ⟨rfl, shorter⟩ := List.cons.inj equal
              obtain ⟨rfl, same⟩ := List.cons.inj shorter
              obtain ⟨earlier, later, rfl, rfl, rfl⟩ := inductionHypothesis others same
              exact ⟨'"' :: earlier, later, rfl, rfl, rfl⟩
        · have kept : escapeQuote first = [first] := if_neg quote
          rw [kept, List.singleton_append] at equal
          match before with
          | [] => exact absurd (List.cons.inj equal).1 quote
          | _ :: others =>
              obtain ⟨rfl, same⟩ := List.cons.inj equal
              obtain ⟨earlier, later, rfl, rfl, rfl⟩ := inductionHypothesis others same
              refine ⟨first :: earlier, later, rfl, ?_, rfl⟩
              rw [List.flatMap_cons, kept]
              rfl
  · rintro ⟨earlier, later, rfl, rfl, rfl⟩
    rw [List.flatMap_append, List.flatMap_cons, List.append_assoc]
    rfl

/-- Escaping the quotes of a text and putting quotes around it makes a string just if its
backslashes are paired. -/
theorem isStringToken_quoted_iff
    (text : List Char) :
    IsStringToken ('"' :: text.flatMap escapeQuote ++ ['"']) ↔ HasPairedBackslashes text := by
  have closed : escapedAfter (text.flatMap escapeQuote) = false ↔ Even (lastBackslashes text) := by
    rw [escapedAfter_eq_false_iff, lastBackslashes_flatMap_escapeQuote]
  have escaped (earlier : List Char) :
      escapedAfter (earlier.flatMap escapeQuote ++ ['\\']) = true ↔
        Even (lastBackslashes earlier) := by
    rw [escapedAfter_concat, ← lastBackslashes_flatMap_escapeQuote, ← escapedAfter_eq_false_iff]
    simp [escapesNext]
  constructor
  · rintro ⟨inner, equal, last, between⟩
    obtain rfl : text.flatMap escapeQuote = inner :=
      List.append_cancel_right (List.cons.inj equal).2
    refine ⟨closed.mp last, ?_⟩
    intro before after split
    apply (escaped before).mp
    apply between _ (after.flatMap escapeQuote)
    exact (flatMap_escapeQuote_eq_append_iff _ _ _).mpr ⟨before, after, split, rfl, rfl⟩
  · rintro ⟨last, between⟩
    refine ⟨_, rfl, closed.mpr last, ?_⟩
    intro before after split
    obtain ⟨earlier, later, textIs, rfl, -⟩ := (flatMap_escapeQuote_eq_append_iff _ _ _).mp split
    exact (escaped earlier).mpr (between earlier later textIs)

/-! ## Characters of spelled texts -/

private theorem mem_of_mem_dropPlus
    {number : List Char}
    {character : Char}
    (member : character ∈ dropPlus number) :
    character ∈ number := by
  induction number using dropPlus.induct with
  | case1 rest inductionHypothesis => exact List.mem_cons_of_mem _ (inductionHypothesis member)
  | case2 number notPlus =>
      rw [dropPlus] at member
      · exact member
      · exact notPlus

private theorem mem_of_mem_dropLeadingZero
    {number : List Char}
    {character : Char}
    (member : character ∈ Property.dropLeadingZero number) :
    character ∈ number := by
  fun_cases Property.dropLeadingZero number with
  | case1 rest => exact List.mem_cons_of_mem _ member
  | case2 rest =>
      rw [Property.dropLeadingZero, List.mem_cons] at member
      rw [List.mem_cons]
      exact member.imp_right (List.mem_cons_of_mem _)
  | case3 =>
      rwa [Property.dropLeadingZero] at member
      all_goals assumption

/-- A style number has no characters but those of numbers. -/
theorem isNumberChar_of_mem_styleText
    {value : Binary64}
    {character : Char}
    (member : character ∈ value.styleText.toList) :
    isNumberChar character = true := by
  have form := isStyleNumber_styleText value
  generalize value.styleText.toList = written at form member
  have listed (tested : written.all isNumberChar = true) : isNumberChar character = true :=
    List.all_eq_true.mp tested character member
  cases form with
  | number numeral unsigned ascii nonzero => exact isNumberChar_of_mem_text ascii member
  | zero | notANumber | infinite | negativeInfinite => exact listed (by decide)

private theorem isNumberChar_of_mem_numberText
    {depth : Nat}
    {numeral : Numeral}
    (ascii : numeral.IsAscii)
    {name : String}
    (isUnit : IsUnit name)
    {character : Char}
    (member : character ∈ (numberText depth numeral.text numeral.value name).toList) :
    isNumberChar character = true := by
  unfold numberText at member
  split at member
  · rw [zeroText_eq, String.toList_append, List.mem_append] at member
    rcases member with zero | inUnit
    · exact List.all_eq_true.mp (by decide : ['0'].all isNumberChar = true) character zero
    · exact isNumberChar_of_isUnitChar ((isUnit_zeroUnit depth isUnit).inUnit character inUnit)
  · split at member
    · rw [toList_seconds, List.mem_append] at member
      rcases member with number | second
      · exact isNumberChar_of_mem_styleText (mem_of_mem_dropLeadingZero number)
      · exact isNumberChar_of_isUnitChar (isUnit_second.inUnit character second)
    · rw [String.toList_append, String.toList_ofList, List.mem_append] at member
      rcases member with number | inUnit
      · exact isNumberChar_of_mem_text ascii
          (mem_of_mem_dropPlus (mem_of_mem_dropLeadingZero number))
      · exact isNumberChar_of_isUnitChar (isUnit.inUnit character inUnit)

section Kept

variable {kept : Char → Prop}

/-- What all characters of a text have in common with double quotes is left when quotes are made
double. -/
theorem forall_mem_doubleQuotesFrom
    (quoteKept : kept '"')
    {held : Option (List Char)}
    {text : List Char}
    (all : ∀ character ∈ heldText held ++ text, kept character) :
    ∀ character ∈ doubleQuotesFrom held text, kept character := by
  induction text generalizing held with
  | nil =>
      rw [List.append_nil] at all
      cases held with
      | none => exact List.forall_mem_nil kept
      | some inner => exact all
  | cons first rest inductionHypothesis =>
      rw [List.forall_mem_append, List.forall_mem_cons] at all
      obtain ⟨heldKept, firstKept, restKept⟩ := all
      have others : ∀ character ∈ doubleQuotesFrom none rest, kept character :=
        inductionHypothesis restKept
      cases held with
      | none =>
          rw [doubleQuotesFrom]
          split
          · rename_i single
            apply inductionHypothesis
            rw [single] at firstKept
            exact List.forall_mem_cons.mpr ⟨firstKept, restKept⟩
          · exact List.forall_mem_cons.mpr ⟨firstKept, others⟩
      | some inner =>
          obtain ⟨singleKept, innerKept⟩ := List.forall_mem_cons.mp heldKept
          have closed {opening : Char} (openingKept : kept opening) :
              ∀ character ∈ opening :: inner.reverse ++ '"' :: doubleQuotesFrom none rest,
                kept character := by
            rw [List.forall_mem_append, List.forall_mem_cons, List.forall_mem_cons]
            exact ⟨⟨openingKept, innerKept⟩, quoteKept, others⟩
          rw [doubleQuotesFrom]
          split
          · exact closed quoteKept
          · split
            · exact closed singleKept
            · apply inductionHypothesis
              simp only [heldText, List.reverse_cons, List.cons_append, List.append_assoc]
              rw [List.forall_mem_cons, List.forall_mem_append, List.forall_mem_cons]
              exact ⟨singleKept, innerKept, firstKept, restKept⟩

private theorem forall_mem_collapseBlanksFrom
    (blankKept : kept ' ')
    {text : List Char}
    (all : ∀ character ∈ text, kept character)
    (scan : Scan)
    (last : Option Char)
    (pending : Bool) :
    ∀ character ∈ collapseBlanksFrom scan last pending text, kept character := by
  induction text generalizing scan last pending with
  | nil => exact List.forall_mem_nil kept
  | cons first rest inductionHypothesis =>
      obtain ⟨firstKept, restKept⟩ := List.forall_mem_cons.mp all
      have others := inductionHypothesis restKept
      cases quoted : scan.quoted with
      | true =>
          rw [collapseBlanksFrom_quoted last pending rest quoted, List.forall_mem_cons]
          exact ⟨firstKept, others _ _ _⟩
      | false =>
          cases blank : isBlank first with
          | true =>
              rw [collapseBlanksFrom_blank last pending rest quoted blank]
              exact others _ _ _
          | false =>
              rw [collapseBlanksFrom_solid last pending rest quoted blank, List.forall_mem_append,
                List.forall_mem_cons]
              refine ⟨?_, firstKept, others _ _ _⟩
              split
              · exact List.forall_mem_singleton.mpr blankKept
              · exact List.forall_mem_nil kept

private theorem forall_mem_respellNumbers
    (numberKept : ∀ character, isNumberChar character = true → kept character)
    {text : List Char}
    (all : ∀ character ∈ text, kept character) :
    ∀ character ∈ respellNumbers text, kept character := by
  rw [← characters_pieces text, List.forall_mem_flatMap] at all
  rw [respellNumbers, List.forall_mem_flatMap]
  intro piece member
  have pieceKept := all piece member
  cases piece with
  | mark character => exact pieceKept
  | word depth word =>
      show ∀ character ∈ respellWord depth word, kept character
      rcases respellWord_cases depth word with same | ⟨numeral, name, ascii, isUnit, respelled⟩
      · rw [same]
        exact pieceKept
      · rw [respelled]
        intro character inNumber
        exact numberKept character (isNumberChar_of_mem_numberText ascii isUnit inNumber)

end Kept

/-- The passes over a text write no backslashes of their own. -/
theorem backslash_not_mem_respelled
    {text : List Char}
    (free : '\\' ∉ text) :
    '\\' ∉ respellNumbers (spaced text) := by
  have other : ∀ character ∈ text, character ≠ '\\' := List.forall_mem_ne'.mpr free
  have doubled : ∀ character ∈ doubleQuotes text, character ≠ '\\' :=
    forall_mem_doubleQuotesFrom (by decide) other
  have collapsed : ∀ character ∈ spaced text, character ≠ '\\' :=
    forall_mem_collapseBlanksFrom (by decide) doubled _ _ _
  apply List.forall_mem_ne'.mp
  refine forall_mem_respellNumbers ?_ collapsed
  rintro character inNumber rfl
  cases inNumber

private theorem HasPairedBackslashes.of_not_mem
    {text : List Char}
    (free : '\\' ∉ text) :
    HasPairedBackslashes text := by
  have noneLast {start : List Char} (startFree : '\\' ∉ start) :
      Even (lastBackslashes start) := by
    cases start using List.reverseRecOn with
    | nil => exact Even.zero
    | append_singleton rest character =>
        have other : character ≠ '\\' := by
          rintro rfl
          exact startFree (List.mem_append_right _ List.mem_cons_self)
        rw [lastBackslashes_concat, if_neg other]
        exact Even.zero
  refine ⟨noneLast free, ?_⟩
  rintro before after rfl
  exact noneLast fun member => free (List.mem_append_left _ member)

/-! ## Generated content -/

/-- When generated content is one string. Take any text of the content property that is put in
quotes: in the one spelling of a text, it is not in quotes already, calls no function and is no
keyword. What is written is one string just if its backslashes are paired; so it is where the author
wrote no backslash. -/
theorem content_is_string_iff
    (text : String)
    (unquoted : isQuotedText (respellNumbers (spaced text.toList)) = false)
    (callFree : '(' ∉ respellNumbers (spaced text.toList))
    (notKeyword : String.ofList (respellNumbers (spaced text.toList)) ∉ contentKeywords) :
    let spelled := respellNumbers (spaced text.toList)
    (IsStringToken (canonical "content" text).toList ↔ HasPairedBackslashes spelled) ∧
      ('\\' ∉ text.toList → IsStringToken (canonical "content" text).toList) := by
  intro spelled
  have written :
      (canonical "content" text).toList = '"' :: spelled.flatMap escapeQuote ++ ['"'] := by
    rw [canonical, String.toList_ofList, canonicalChars, if_pos rfl, quoteContent, if_neg]
    simp [unquoted, callFree, notKeyword]
  rw [written, isStringToken_quoted_iff]
  refine ⟨Iff.rfl, ?_⟩
  intro free
  exact .of_not_mem (backslash_not_mem_respelled free)

/-- A backslash at the end takes the closing quote along, and quotes that the author escaped are
escaped no longer. -/
theorem last_backslash_and_escaped_quotes_break :
    let last := "a\\"
    let escaped := "say \\\"hi\\\" 0.50px"
    canonical "content" last = "\"a\\\"" ∧ ¬IsStringToken (canonical "content" last).toList ∧
      canonical "content" escaped = "\"say \\\\\"hi\\\\\" .50px\"" ∧
      ¬IsStringToken (canonical "content" escaped).toList := by
  intro last escaped
  have lastSpelled : respellNumbers (spaced last.toList) = ['a', '\\'] := by decide +kernel
  have escapedSpelled :
      respellNumbers (spaced escaped.toList) =
        "say \\".toList ++ '"' :: "hi\\\" .50px".toList := by
    decide +kernel
  have lastBreaks := content_is_string_iff last (by decide +kernel) (by decide +kernel)
    (by decide +kernel)
  have escapedBreaks := content_is_string_iff escaped (by decide +kernel) (by decide +kernel)
    (by decide +kernel)
  refine ⟨by decide +kernel, ?_, by decide +kernel, ?_⟩
  · rw [lastBreaks.1, lastSpelled]
    exact fun paired => absurd paired.1 (by decide)
  · rw [escapedBreaks.1, escapedSpelled]
    exact fun paired => absurd (paired.2 _ _ rfl) (by decide)

end AtomicCss.Wording
