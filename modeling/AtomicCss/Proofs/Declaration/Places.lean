import AtomicCss.Proofs.Declaration.Quotes
import AtomicCss.Proofs.Text.Reading

/-!
Contract: parts of a text that the passes over it keep.

Owns:
- parts of a text in quotes and outside them, in the reading of the passes;
- that making quotes double keeps what has no quotes;
- that reducing white space keeps what has neither quotes nor white space, and brings nothing new
  into quotes;
- that respelling numbers changes nothing in quotes.

Does not own: parts outside quotes whose numbers are respelled.
-/

namespace AtomicCss.Wording

open AtomicCss.Text

/-- A part of a text that stands in quotes, or outside them, where the reading of the text begins at
a given place. -/
def StandsFrom (scan : Scan) (quoted : Bool) (part text : List Char) : Prop :=
  ∃ before after, text = before ++ (part ++ after) ∧ (scan.after before).quoted = quoted

def StandsQuoted (part text : List Char) : Prop :=
  StandsFrom Scan.start true part text

def IsQuoteFree (part : List Char) : Prop :=
  ∀ character ∈ part, Scan.isQuote character = false

def IsBlankFree (part : List Char) : Prop :=
  ∀ character ∈ part, isBlank character = false

/-- Whether the reading is in a region that a quote opened. -/
def IsProperScan (scan : Scan) : Prop :=
  ∀ mark ∈ scan.quote, Scan.isQuote mark = true

theorem isProperScan_start :
    IsProperScan Scan.start := by
  simp [IsProperScan, Scan.start]

theorem IsProperScan.next
    {scan : Scan}
    (proper : IsProperScan scan)
    (character : Char) :
    IsProperScan (scan.next character) := by
  obtain ⟨quote, depth⟩ := scan
  unfold Scan.next
  cases quote with
  | some mark =>
      dsimp only
      split
      · simp [IsProperScan]
      · exact proper
  | none =>
      dsimp only
      split
      · rename_i isQuote
        simpa [IsProperScan] using isQuote
      · repeat' split
        all_goals simp [IsProperScan]

/-- Inside quotes, a character that is none changes nothing. -/
theorem IsProperScan.next_of_quoted
    {scan : Scan}
    (proper : IsProperScan scan)
    (quoted : scan.quoted = true)
    {character : Char}
    (free : Scan.isQuote character = false) :
    scan.next character = scan := by
  obtain ⟨quote, depth⟩ := scan
  cases quote with
  | none => cases quoted
  | some mark =>
      have other : character ≠ mark := by
        rintro rfl
        rw [proper character rfl] at free
        cases free
      simp [Scan.next, other]

/-- Outside quotes, a character that is none leaves the reading outside. -/
theorem quoted_next_of_free
    {scan : Scan}
    (unquoted : scan.quoted = false)
    {character : Char}
    (free : Scan.isQuote character = false) :
    (scan.next character).quoted = false := by
  have outside : scan.quote = none := by simpa [Scan.quoted] using unquoted
  rw [Scan.quoted, quote_next_of_free outside free]
  rfl

/-! ## Places -/

section Places

variable {scan : Scan} {quoted : Bool} {part : List Char}

theorem not_standsFrom_nil
    (nonempty : part ≠ []) :
    ¬StandsFrom scan quoted part [] := by
  rintro ⟨before, after, empty, -⟩
  simp [nonempty] at empty

/-- A part stands at the beginning of a text or after its first character. -/
theorem standsFrom_cons_iff
    {character : Char}
    {rest : List Char} :
    StandsFrom scan quoted part (character :: rest) ↔
      (scan.quoted = quoted ∧ part <+: character :: rest) ∨
        StandsFrom (scan.next character) quoted part rest := by
  constructor
  · rintro ⟨before, after, split, place⟩
    cases before with
    | nil => exact .inl ⟨place, after, split.symm⟩
    | cons first others =>
        obtain ⟨rfl, restIs⟩ := List.cons.inj split
        exact .inr ⟨others, after, restIs, place⟩
  · rintro (⟨place, after, starts⟩ | ⟨before, after, rfl, place⟩)
    · exact ⟨[], after, starts.symm, place⟩
    · exact ⟨character :: before, after, rfl, place⟩

theorem isInfix_iff_standsFrom
    (scan : Scan)
    (part text : List Char) :
    part <:+: text ↔ StandsFrom scan true part text ∨ StandsFrom scan false part text := by
  constructor
  · rintro ⟨before, after, rfl⟩
    rw [List.append_assoc]
    cases quoted : (scan.after before).quoted with
    | true => exact .inl ⟨before, after, rfl, quoted⟩
    | false => exact .inr ⟨before, after, rfl, quoted⟩
  · rintro (⟨before, after, rfl, -⟩ | ⟨before, after, rfl, -⟩)
    · exact ⟨before, after, List.append_assoc _ _ _⟩
    · exact ⟨before, after, List.append_assoc _ _ _⟩

/-- Outside quotes, a part in quotes begins later. -/
theorem standsQuoted_cons_of_unquoted
    (unquoted : scan.quoted = false)
    {character : Char}
    {rest : List Char} :
    StandsFrom scan true part (character :: rest) ↔
      StandsFrom (scan.next character) true part rest := by
  rw [standsFrom_cons_iff, or_iff_right]
  rintro ⟨impossible, -⟩
  rw [unquoted] at impossible
  cases impossible

private theorem quoted_after_of_free
    {text : List Char}
    (free : IsQuoteFree text)
    (unquoted : scan.quoted = false) :
    (scan.after text).quoted = false := by
  induction text generalizing scan with
  | nil => exact unquoted
  | cons first rest inductionHypothesis =>
      obtain ⟨firstFree, restFree⟩ := List.forall_mem_cons.mp free
      exact inductionHypothesis restFree (quoted_next_of_free unquoted firstFree)

/-- A text without quotes has nothing in quotes. -/
theorem not_standsQuoted_of_free
    {text : List Char}
    (free : IsQuoteFree text) :
    ¬StandsQuoted part text := by
  rintro ⟨before, after, rfl, quoted⟩
  have beforeFree : IsQuoteFree before := (List.forall_mem_append.mp free).1
  rw [quoted_after_of_free beforeFree rfl] at quoted
  cases quoted

end Places

/-! ## Double quotes -/

/-- What follows an open single quote is written before anything else. -/
theorem exists_doubleQuotesFrom_some
    (inner text : List Char) :
    ∃ mark rest, doubleQuotesFrom (some inner) text = mark :: (inner.reverse ++ rest) := by
  induction text generalizing inner with
  | nil => exact ⟨'\'', [], by simp [doubleQuotesFrom]⟩
  | cons first others inductionHypothesis =>
      rcases quote_cases first with rfl | rfl | free
      · exact ⟨_, _, doubleQuotesFrom_some_double inner others⟩
      · exact ⟨_, _, doubleQuotesFrom_some_single inner others⟩
      · obtain ⟨mark, rest, written⟩ := inductionHypothesis (first :: inner)
        rw [doubleQuotesFrom_some_free inner others free, written]
        exact ⟨mark, first :: rest, by simp⟩

private theorem doubleQuotesFrom_none_append
    {part : List Char}
    (free : IsQuoteFree part)
    (text : List Char) :
    doubleQuotesFrom none (part ++ text) = part ++ doubleQuotesFrom none text := by
  induction part with
  | nil => rfl
  | cons first rest inductionHypothesis =>
      obtain ⟨firstFree, restFree⟩ := List.forall_mem_cons.mp free
      rw [List.cons_append, doubleQuotesFrom_none_free _ firstFree, inductionHypothesis restFree,
        List.cons_append]

theorem doubleQuotes_of_free
    {text : List Char}
    (free : IsQuoteFree text) :
    doubleQuotes text = text := by
  have kept := doubleQuotesFrom_none_append free []
  rwa [List.append_nil, doubleQuotesFrom, List.append_nil] at kept

private theorem doubleQuotesFrom_some_append
    {part : List Char}
    (free : IsQuoteFree part)
    (inner text : List Char) :
    doubleQuotesFrom (some inner) (part ++ text) =
      doubleQuotesFrom (some (part.reverse ++ inner)) text := by
  induction part generalizing inner with
  | nil => rfl
  | cons first rest inductionHypothesis =>
      obtain ⟨firstFree, restFree⟩ := List.forall_mem_cons.mp free
      rw [List.cons_append, doubleQuotesFrom_some_free _ _ firstFree, inductionHypothesis restFree]
      simp

/-- Making quotes double keeps what has no quotes. -/
theorem isInfix_doubleQuotesFrom
    {part : List Char}
    (free : IsQuoteFree part)
    (held : Option (List Char))
    (before after : List Char) :
    part <:+: doubleQuotesFrom held (before ++ (part ++ after)) := by
  induction before generalizing held with
  | nil =>
      rw [List.nil_append]
      cases held with
      | none =>
          rw [doubleQuotesFrom_none_append free]
          exact List.infix_append' [] part _
      | some inner =>
          obtain ⟨mark, rest, written⟩ :=
            exists_doubleQuotesFrom_some (part.reverse ++ inner) after
          rw [doubleQuotesFrom_some_append free, written]
          exact ⟨mark :: inner.reverse, rest, by simp⟩
  | cons first others inductionHypothesis =>
      have closed := inductionHypothesis none
      rw [List.cons_append]
      cases held with
      | none =>
          rcases quote_cases first with rfl | rfl | freeToo
          · exact List.infix_cons closed
          · exact inductionHypothesis (some [])
          · rw [doubleQuotesFrom_none_free _ freeToo]
            exact List.infix_cons closed
      | some inner =>
          rcases quote_cases first with rfl | rfl | freeToo
          · rw [doubleQuotesFrom_some_double, List.append_cons]
            exact closed.trans (List.suffix_append _ _).isInfix
          · rw [doubleQuotesFrom_some_single, List.append_cons]
            exact closed.trans (List.suffix_append _ _).isInfix
          · rw [doubleQuotesFrom_some_free _ _ freeToo]
            exact inductionHypothesis (some (first :: inner))

/-! ## White space -/

/-- In quotes, reducing white space changes nothing before the next quote. -/
theorem prefix_collapseBlanksFrom_quoted_iff
    {scan : Scan}
    (proper : IsProperScan scan)
    (quoted : scan.quoted = true)
    {part : List Char}
    (free : IsQuoteFree part)
    (last : Option Char)
    (pending : Bool)
    (text : List Char) :
    part <+: collapseBlanksFrom scan last pending text ↔ part <+: text := by
  induction part generalizing last text with
  | nil => simp
  | cons first rest inductionHypothesis =>
      obtain ⟨firstFree, restFree⟩ := List.forall_mem_cons.mp free
      cases text with
      | nil => rfl
      | cons head tail =>
          rw [collapseBlanksFrom_quoted last pending tail quoted, List.cons_prefix_cons,
            List.cons_prefix_cons]
          apply and_congr_right
          rintro rfl
          rw [proper.next_of_quoted quoted firstFree]
          exact inductionHypothesis restFree _ _

/-- Outside quotes, what has neither quotes nor white space is kept. -/
theorem prefix_collapseBlanksFrom
    {scan : Scan}
    (unquoted : scan.quoted = false)
    {part : List Char}
    (free : IsQuoteFree part)
    (solid : IsBlankFree part)
    (last : Option Char)
    {text : List Char}
    (starts : part <+: text) :
    part <+: collapseBlanksFrom scan last false text := by
  obtain ⟨after, rfl⟩ := starts
  induction part generalizing scan last with
  | nil => exact List.nil_prefix
  | cons first rest inductionHypothesis =>
      obtain ⟨firstFree, restFree⟩ := List.forall_mem_cons.mp free
      obtain ⟨firstSolid, restSolid⟩ := List.forall_mem_cons.mp solid
      rw [List.cons_append, collapseBlanksFrom_solid last false _ unquoted firstSolid]
      show first :: rest <+: first :: collapseBlanksFrom _ _ _ _
      rw [List.cons_prefix_cons]
      exact ⟨rfl, inductionHypothesis (quoted_next_of_free unquoted firstFree) restFree restSolid
        (some first)⟩

/-- What has neither quotes nor white space stands after white space is reduced where it stood
before, in quotes or outside. -/
theorem standsFrom_collapseBlanksFrom
    {part : List Char}
    (nonempty : part ≠ [])
    (free : IsQuoteFree part)
    (solid : IsBlankFree part)
    {scan : Scan}
    (proper : IsProperScan scan)
    {place : Bool}
    (last : Option Char)
    (pending : Bool)
    {text : List Char}
    (stands : StandsFrom scan place part text) :
    StandsFrom scan place part (collapseBlanksFrom scan last pending text) := by
  induction text generalizing scan last pending with
  | nil => exact absurd stands (not_standsFrom_nil nonempty)
  | cons first rest inductionHypothesis =>
      rw [standsFrom_cons_iff] at stands
      cases quoted : scan.quoted with
      | true =>
          have kept := prefix_collapseBlanksFrom_quoted_iff proper quoted free last pending
            (first :: rest)
          rw [collapseBlanksFrom_quoted last pending rest quoted] at kept ⊢
          rw [standsFrom_cons_iff, kept]
          exact stands.imp_right (inductionHypothesis (proper.next first) _ _)
      | false =>
          cases blank : isBlank first with
          | true =>
              rw [collapseBlanksFrom_blank last pending rest quoted blank]
              rw [next_of_isBlank quoted blank] at stands
              rcases stands with ⟨-, after, starts⟩ | later
              · obtain ⟨head, tail, rfl⟩ := List.exists_cons_of_ne_nil nonempty
                obtain rfl : head = first := (List.cons.inj starts).1
                rw [solid head List.mem_cons_self] at blank
                cases blank
              · exact inductionHypothesis proper _ _ later
          | false =>
              have solidStands :
                  StandsFrom scan place part
                    (first :: collapseBlanksFrom (scan.next first) (some first) false rest) := by
                rw [standsFrom_cons_iff]
                refine stands.imp ?_ (inductionHypothesis (proper.next first) _ _)
                rintro ⟨here, starts⟩
                have kept := prefix_collapseBlanksFrom quoted free solid last starts
                rw [collapseBlanksFrom_solid last false rest quoted blank] at kept
                exact ⟨here, kept⟩
              rw [collapseBlanksFrom_solid last pending rest quoted blank]
              split
              · rw [List.singleton_append, standsFrom_cons_iff,
                  next_of_isBlank quoted (show isBlank ' ' = true by decide)]
                exact .inr solidStands
              · exact solidStands

/-- Reducing white space brings nothing new into quotes. -/
theorem standsQuoted_of_collapseBlanksFrom
    {part : List Char}
    (free : IsQuoteFree part)
    {scan : Scan}
    (proper : IsProperScan scan)
    {last : Option Char}
    {pending : Bool}
    {text : List Char}
    (stands : StandsFrom scan true part (collapseBlanksFrom scan last pending text)) :
    StandsFrom scan true part text := by
  induction text generalizing scan last pending with
  | nil => exact stands
  | cons first rest inductionHypothesis =>
      cases quoted : scan.quoted with
      | true =>
          have kept := prefix_collapseBlanksFrom_quoted_iff proper quoted free last pending
            (first :: rest)
          rw [collapseBlanksFrom_quoted last pending rest quoted] at kept stands
          rw [standsFrom_cons_iff, kept] at stands
          rw [standsFrom_cons_iff]
          exact stands.imp_right (inductionHypothesis (proper.next first))
      | false =>
          rw [standsQuoted_cons_of_unquoted quoted]
          cases blank : isBlank first with
          | true =>
              rw [collapseBlanksFrom_blank last pending rest quoted blank] at stands
              rw [next_of_isBlank quoted blank]
              exact inductionHypothesis proper stands
          | false =>
              have solidStands :
                  StandsFrom scan true part
                    (first :: collapseBlanksFrom (scan.next first) (some first) false rest) := by
                rw [collapseBlanksFrom_solid last pending rest quoted blank] at stands
                split at stands
                · rw [List.singleton_append, standsQuoted_cons_of_unquoted quoted,
                    next_of_isBlank quoted (by decide)] at stands
                  exact stands
                · exact stands
              rw [standsQuoted_cons_of_unquoted quoted] at solidStands
              exact inductionHypothesis (proper.next first) solidStands

/-! ## Numbers -/

theorem standsQuoted_word_append_iff
    {scan : Scan}
    (unquoted : scan.quoted = false)
    {word : List Char}
    (plain : ∀ character ∈ word, endsWord character = false)
    {part text : List Char} :
    StandsFrom scan true part (word ++ text) ↔ StandsFrom scan true part text := by
  induction word with
  | nil => rfl
  | cons first rest inductionHypothesis =>
      obtain ⟨firstPlain, restPlain⟩ := List.forall_mem_cons.mp plain
      rw [List.cons_append, standsQuoted_cons_of_unquoted unquoted,
        next_of_endsWord_eq_false unquoted firstPlain]
      exact inductionHypothesis restPlain

/-- In quotes, respelling numbers changes nothing before the next quote. -/
theorem Cut.prefix_respelled_iff
    {scan : Scan}
    {list : List Piece}
    (cut : Cut scan list)
    (proper : IsProperScan scan)
    (quoted : scan.quoted = true)
    {part : List Char}
    (free : IsQuoteFree part) :
    part <+: (list.map Piece.respelled).flatMap Piece.characters ↔
      part <+: list.flatMap Piece.characters := by
  induction cut generalizing part with
  | nil => rfl
  | word unquoted =>
      rw [unquoted] at quoted
      cases quoted
  | @mark scan character rest marks others inductionHypothesis =>
      show part <+: character :: (rest.map Piece.respelled).flatMap Piece.characters ↔
        part <+: character :: rest.flatMap Piece.characters
      cases part with
      | nil => simp
      | cons first following =>
          obtain ⟨firstFree, followingFree⟩ := List.forall_mem_cons.mp free
          rw [List.cons_prefix_cons, List.cons_prefix_cons]
          apply and_congr_right
          rintro rfl
          rw [proper.next_of_quoted quoted firstFree] at inductionHypothesis
          exact inductionHypothesis proper quoted followingFree

/-- Respelling numbers neither brings anything into quotes nor takes anything out of them. -/
theorem Cut.standsQuoted_respelled_iff
    {scan : Scan}
    {list : List Piece}
    (cut : Cut scan list)
    (proper : IsProperScan scan)
    {part : List Char}
    (free : IsQuoteFree part) :
    StandsFrom scan true part ((list.map Piece.respelled).flatMap Piece.characters) ↔
      StandsFrom scan true part (list.flatMap Piece.characters) := by
  induction cut with
  | nil => rfl
  | @word scan characters rest unquoted nonempty plain ends others inductionHypothesis =>
      obtain ⟨-, kept⟩ := respellWord_keeps scan.depth nonempty (fun _ solid => solid.1) plain
      show StandsFrom scan true part (respellWord scan.depth characters ++ _) ↔
        StandsFrom scan true part (characters ++ _)
      rw [standsQuoted_word_append_iff unquoted kept, standsQuoted_word_append_iff unquoted plain]
      exact inductionHypothesis proper
  | @mark scan character rest marks others inductionHypothesis =>
      have later := inductionHypothesis (proper.next character)
      show StandsFrom scan true part (character :: _) ↔ StandsFrom scan true part (character :: _)
      cases quoted : scan.quoted with
      | false =>
          rw [standsQuoted_cons_of_unquoted quoted, standsQuoted_cons_of_unquoted quoted]
          exact later
      | true =>
          have here := (Cut.mark marks others).prefix_respelled_iff proper quoted free
          rw [standsFrom_cons_iff, standsFrom_cons_iff]
          exact or_congr (and_congr_right fun _ => here) later

/-- What has neither quotes nor white space stands in quotes in the respelled text exactly if it
does once quotes are double. -/
theorem standsQuoted_respellNumbers_spaced_iff
    {part : List Char}
    (nonempty : part ≠ [])
    (free : IsQuoteFree part)
    (solid : IsBlankFree part)
    (text : List Char) :
    StandsQuoted part (respellNumbers (spaced text)) ↔ StandsQuoted part (doubleQuotes text) := by
  have respelled := (cut_pieces (spaced text)).standsQuoted_respelled_iff isProperScan_start free
  rw [← respellNumbers_eq, characters_pieces] at respelled
  rw [StandsQuoted, respelled]
  exact ⟨standsQuoted_of_collapseBlanksFrom free isProperScan_start,
    standsFrom_collapseBlanksFrom nonempty free solid isProperScan_start none false⟩

end AtomicCss.Wording
