import AtomicCss.Proofs.Text.Reading
import Mathlib.Data.List.Basic

/-!
Contract: the words of a text, also of one whose quotes and parentheses do not match.

Owns:
- texts without the white space of certain places;
- words, and texts that are made of words with white space between every two;
- that splitting a text finds the words that it is made of, and no others.

Does not own: what the words are used for.
-/

namespace AtomicCss.Text

/-! ## Texts without white space -/

def withoutBlanksFrom (dropped : Scan → Bool) (scan : Scan) : List Char → List Char
  | [] => []
  | character :: rest =>
    let others := withoutBlanksFrom dropped (scan.next character) rest
    if dropped scan && isBlank character then others else character :: others

/-- The text without the white space at places of the reading that are told. -/
def withoutBlanks (dropped : Scan → Bool) (text : List Char) : List Char :=
  withoutBlanksFrom dropped Scan.start text

theorem withoutBlanksFrom_blank
    {dropped : Scan → Bool}
    {scan : Scan}
    (here : dropped scan = true)
    {character : Char}
    (blank : isBlank character = true)
    (rest : List Char) :
    withoutBlanksFrom dropped scan (character :: rest) =
      withoutBlanksFrom dropped (scan.next character) rest := by
  rw [withoutBlanksFrom, here, blank]
  rfl

theorem withoutBlanksFrom_kept
    {dropped : Scan → Bool}
    {scan : Scan}
    {character : Char}
    (kept : dropped scan = true → isBlank character = false)
    (rest : List Char) :
    withoutBlanksFrom dropped scan (character :: rest) =
      character :: withoutBlanksFrom dropped (scan.next character) rest := by
  rw [withoutBlanksFrom, if_neg]
  intro both
  obtain ⟨here, blank⟩ := Bool.and_eq_true_iff.mp both
  rw [kept here] at blank
  cases blank

/-! ## Words -/

/-- No white space outside quotes and parentheses, where the reading begins at a given place. -/
def IsUnbrokenFrom (scan : Scan) (text : List Char) : Prop :=
  ∀ before character after, text = before ++ character :: after →
    (scan.after before).separates = true → isBlank character = false

section Unbroken

variable {scan : Scan}

theorem isUnbrokenFrom_nil :
    IsUnbrokenFrom scan [] := by
  intro before character after split
  simp at split

theorem isUnbrokenFrom_cons_iff
    {first : Char}
    {rest : List Char} :
    IsUnbrokenFrom scan (first :: rest) ↔
      (scan.separates = true → isBlank first = false) ∧ IsUnbrokenFrom (scan.next first) rest := by
  constructor
  · intro unbroken
    refine ⟨unbroken [] first rest rfl, ?_⟩
    rintro before character after rfl
    exact unbroken (first :: before) character after rfl
  · rintro ⟨firstSolid, others⟩ before character after split
    cases before with
    | nil =>
        obtain ⟨rfl, rfl⟩ := List.cons.inj split
        exact firstSolid
    | cons head tail =>
        obtain ⟨rfl, restIs⟩ := List.cons.inj split
        exact others tail character after restIs

theorem isUnbrokenFrom_concat_iff
    {text : List Char}
    {last : Char} :
    IsUnbrokenFrom scan (text ++ [last]) ↔
      IsUnbrokenFrom scan text ∧ ((scan.after text).separates = true → isBlank last = false) := by
  induction text generalizing scan with
  | nil =>
      rw [List.nil_append, isUnbrokenFrom_cons_iff]
      exact ⟨fun both => ⟨isUnbrokenFrom_nil, both.1⟩, fun both => ⟨both.2, isUnbrokenFrom_nil⟩⟩
  | cons first rest inductionHypothesis =>
      rw [List.cons_append, isUnbrokenFrom_cons_iff, isUnbrokenFrom_cons_iff, inductionHypothesis,
        and_assoc]
      rfl

/-- An unbroken text is read to its end before any word is finished. -/
theorem splitWordsFrom_append
    {text : List Char}
    (unbroken : IsUnbrokenFrom scan text)
    (held rest : List Char) :
    splitWordsFrom scan held (text ++ rest) =
      splitWordsFrom (scan.after text) (text.reverse ++ held) rest := by
  induction text generalizing scan held with
  | nil => rfl
  | cons first others inductionHypothesis =>
      obtain ⟨firstSolid, othersUnbroken⟩ := isUnbrokenFrom_cons_iff.mp unbroken
      have goesOn : ¬(scan.separates && isBlank first) = true := by
        intro both
        obtain ⟨separates, blank⟩ := Bool.and_eq_true_iff.mp both
        rw [firstSolid separates] at blank
        cases blank
      rw [List.cons_append, splitWordsFrom, if_neg goesOn, inductionHypothesis othersUnbroken,
        List.reverse_cons, List.append_assoc]
      rfl

private theorem withoutBlanksFrom_append
    {text : List Char}
    (unbroken : IsUnbrokenFrom scan text)
    (rest : List Char) :
    withoutBlanksFrom Scan.separates scan (text ++ rest) =
      text ++ withoutBlanksFrom Scan.separates (scan.after text) rest := by
  induction text generalizing scan with
  | nil => rfl
  | cons first others inductionHypothesis =>
      obtain ⟨firstSolid, othersUnbroken⟩ := isUnbrokenFrom_cons_iff.mp unbroken
      rw [List.cons_append, withoutBlanksFrom_kept firstSolid, inductionHypothesis othersUnbroken]
      rfl

end Unbroken

structure IsWord (text : List Char) : Prop where
  nonempty : text ≠ []
  unbroken : IsUnbrokenFrom Scan.start text

/-! ## Texts made of words -/

/-- A text that is made of words, with white space between every two of them and perhaps around
them. Each word but the last leaves the reading outside quotes and parentheses. -/
inductive MadeOf : List (List Char) → List Char → Prop where
  | nothing : MadeOf [] []
  | last {word : List Char} (isWord : IsWord word) : MadeOf [word] word
  | blank {words : List (List Char)} {character : Char} {text : List Char}
      (blank : isBlank character = true) (others : MadeOf words text) :
      MadeOf words (character :: text)
  | word {word : List Char} {words : List (List Char)} {character : Char} {text : List Char}
      (isWord : IsWord word) (ends : (Scan.start.after word).separates = true)
      (blank : isBlank character = true) (others : MadeOf words text) :
      MadeOf (word :: words) (word ++ character :: text)

/-- A separating blank finishes the word that is held. -/
theorem splitWordsFrom_blank
    (held : List Char)
    {character : Char}
    (blank : isBlank character = true)
    (rest : List Char) :
    splitWordsFrom Scan.start held (character :: rest) = heldWord held ++ splitWords rest := by
  rw [splitWordsFrom, blank]
  rfl

private theorem heldWord_reverse
    {word : List Char}
    (nonempty : word ≠ []) :
    heldWord word.reverse = [word] := by
  simp [heldWord, nonempty]

/-- Splitting a text that is made of words finds these words. -/
theorem MadeOf.splitWords_eq
    {words : List (List Char)}
    {text : List Char}
    (made : MadeOf words text) :
    splitWords text = words := by
  induction made with
  | nothing => rfl
  | @last word isWord =>
      have read := splitWordsFrom_append isWord.unbroken [] []
      rw [List.append_nil, List.append_nil] at read
      rw [splitWords, read, splitWordsFrom, heldWord_reverse isWord.nonempty]
  | blank blank others inductionHypothesis =>
      rw [splitWords, splitWordsFrom_blank [] blank, inductionHypothesis]
      rfl
  | @word word words character text isWord ends blank others inductionHypothesis =>
      rw [splitWords, splitWordsFrom_append isWord.unbroken, (Scan.separates_iff _).mp ends,
        List.append_nil, splitWordsFrom_blank _ blank, heldWord_reverse isWord.nonempty,
        inductionHypothesis]
      rfl

/-- The text that was read of a word, followed by any other text, is made of the words that go on
being found from there. -/
theorem madeOf_splitWordsFrom
    {read : List Char}
    (unbroken : IsUnbrokenFrom Scan.start read)
    (text : List Char) :
    MadeOf (splitWordsFrom (Scan.start.after read) read.reverse text) (read ++ text) := by
  induction text generalizing read with
  | nil =>
      rw [splitWordsFrom, List.append_nil]
      by_cases empty : read = []
      · subst empty
        exact .nothing
      · rw [heldWord_reverse empty]
        exact .last ⟨empty, unbroken⟩
  | cons first rest inductionHypothesis =>
      cases both : (Scan.start.after read).separates && isBlank first with
      | true =>
          obtain ⟨separates, blank⟩ := Bool.and_eq_true_iff.mp both
          have others : MadeOf (splitWords rest) rest := inductionHypothesis isUnbrokenFrom_nil
          rw [(Scan.separates_iff _).mp separates, splitWordsFrom_blank _ blank]
          by_cases empty : read = []
          · subst empty
            exact .blank blank others
          · rw [heldWord_reverse empty]
            exact .word ⟨empty, unbroken⟩ separates blank others
      | false =>
          have longer : IsUnbrokenFrom Scan.start (read ++ [first]) := by
            refine isUnbrokenFrom_concat_iff.mpr ⟨unbroken, ?_⟩
            intro separates
            simpa [separates] using both
          have step := inductionHypothesis longer
          rw [Scan.after, List.foldl_concat, List.reverse_concat, List.append_assoc] at step
          rw [splitWordsFrom, if_neg (by simp [both])]
          exact step

/-- The words that splitting a text finds are those that the text is made of. -/
theorem splitWords_eq_iff
    (text : List Char)
    (words : List (List Char)) :
    splitWords text = words ↔ MadeOf words text := by
  constructor
  · rintro rfl
    exact madeOf_splitWordsFrom isUnbrokenFrom_nil text
  · exact MadeOf.splitWords_eq

namespace MadeOf

variable {words : List (List Char)} {text : List Char} (made : MadeOf words text)
include made

private theorem isWord :
    ∀ word ∈ words, IsWord word := by
  induction made with
  | nothing => exact List.forall_mem_nil _
  | last isWord => exact List.forall_mem_singleton.mpr isWord
  | blank _ _ inductionHypothesis => exact inductionHypothesis
  | word isWord _ _ _ inductionHypothesis =>
      exact List.forall_mem_cons.mpr ⟨isWord, inductionHypothesis⟩

/-- The words are the text but for the white space between them. -/
theorem flatten_eq :
    words.flatten = withoutBlanks Scan.separates text := by
  induction made with
  | nothing => rfl
  | @last word isWord =>
      have whole := withoutBlanksFrom_append isWord.unbroken []
      rw [List.append_nil] at whole
      rw [withoutBlanks, whole]
      rfl
  | blank blank _ inductionHypothesis =>
      rw [inductionHypothesis, withoutBlanks, withoutBlanks, withoutBlanksFrom_blank rfl blank,
        next_of_isBlank rfl blank]
  | @word word words character text isWord ends blank others inductionHypothesis =>
      rw [List.flatten_cons, inductionHypothesis, withoutBlanks, withoutBlanks,
        withoutBlanksFrom_append isWord.unbroken, (Scan.separates_iff _).mp ends,
        withoutBlanksFrom_blank rfl blank, next_of_isBlank rfl blank]

/-- Single blanks between the words make a text of the same words. -/
theorem intercalate :
    MadeOf words ([' '].intercalate words) := by
  induction made with
  | nothing => exact .nothing
  | last isWord => simpa using MadeOf.last isWord
  | blank _ _ inductionHypothesis => exact inductionHypothesis
  | @word word words character text isWord ends blank others inductionHypothesis =>
      cases words with
      | nil => simpa using MadeOf.last isWord
      | cons next rest =>
          have joined := MadeOf.word isWord ends (show isBlank ' ' = true by decide)
            inductionHypothesis
          simpa using joined

end MadeOf

/-- Splitting a text loses nothing and is stable, whether or not its quotes and parentheses match.
The words are those that the text is made of, and no others. No word is empty, the words are the
text without the white space outside quotes and parentheses, none of them has such white space, and
joined by blanks they are split into the same words. -/
theorem words_lose_nothing_and_stay
    (text : List Char) :
    (∀ words, splitWords text = words ↔ MadeOf words text) ∧
      (∀ word ∈ splitWords text, word ≠ []) ∧
      (splitWords text).flatten = withoutBlanks Scan.separates text ∧
      (∀ word ∈ splitWords text, ∀ before character after, word = before ++ character :: after →
        (Scan.start.after before).separates = true → isBlank character = false) ∧
      splitWords ([' '].intercalate (splitWords text)) = splitWords text := by
  have made : MadeOf (splitWords text) text := (splitWords_eq_iff text _).mp rfl
  refine ⟨splitWords_eq_iff text, ?_, made.flatten_eq, ?_, made.intercalate.splitWords_eq⟩
  · intro word member
    exact (made.isWord word member).nonempty
  · intro word member
    exact (made.isWord word member).unbroken

example :
    splitWords " a)  (b c) \"d e".toList = ["a)".toList, "(b c)".toList, "\"d e".toList] := by
  decide

end AtomicCss.Text
