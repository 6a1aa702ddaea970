import AtomicCss.Proofs.Declaration.Spacing

/-!
Contract: the quotes that are left once pairs of single quotes are double.

Owns:
- the quotes of a text in order, and when no pair of single quotes is left among them;
- that making quotes double leaves no such pair, and changes nothing where there is none;
- that the other passes over a text keep its quotes.

Does not own: which regions of a text are quoted.
-/

namespace AtomicCss.Wording

open AtomicCss.Text

def quotesOf (text : List Char) : List Char :=
  text.filter Scan.isQuote

def ApartQuotes (first second : Char) : Prop :=
  ¬(first = '\'' ∧ second = '\'')

/-- No two single quotes of the text stand without a quote between them. -/
def QuotesSettled (text : List Char) : Prop :=
  (quotesOf text).IsChain ApartQuotes

theorem quotesOf_append
    (first second : List Char) :
    quotesOf (first ++ second) = quotesOf first ++ quotesOf second :=
  List.filter_append _ _

private theorem quotesOf_eq_nil
    {text : List Char}
    (free : ∀ character ∈ text, Scan.isQuote character = false) :
    quotesOf text = [] := by
  rw [quotesOf, List.filter_eq_nil_iff]
  intro character member
  simp [free character member]

private theorem isChain_double_cons
    {quotes : List Char}
    (chain : quotes.IsChain ApartQuotes) :
    ('"' :: quotes).IsChain ApartQuotes := by
  rw [List.isChain_cons]
  exact ⟨fun _ _ both => absurd both.1 (by decide), chain⟩

theorem isChain_single_double_cons
    {quotes : List Char}
    (chain : quotes.IsChain ApartQuotes) :
    ('\'' :: '"' :: quotes).IsChain ApartQuotes := by
  rw [List.isChain_cons_cons]
  exact ⟨fun both => absurd both.2 (by decide), isChain_double_cons chain⟩

/-- Each character is one of the quotes or none. -/
theorem quote_cases
    (character : Char) :
    character = '"' ∨ character = '\'' ∨ Scan.isQuote character = false := by
  by_cases double : character = '"'
  · exact .inl double
  · by_cases single : character = '\''
    · exact .inr (.inl single)
    · exact .inr (.inr (by simp [Scan.isQuote, double, single]))

theorem quotesOf_cons_of_free
    {character : Char}
    (free : Scan.isQuote character = false)
    (rest : List Char) :
    quotesOf (character :: rest) = quotesOf rest := by
  rw [quotesOf, List.filter_cons, free]
  rfl

/-! ## Steps -/

section Steps

variable (inner rest : List Char)

private theorem doubleQuotesFrom_none_double :
    doubleQuotesFrom none ('"' :: rest) = '"' :: doubleQuotesFrom none rest :=
  rfl

theorem doubleQuotesFrom_some_double :
    doubleQuotesFrom (some inner) ('"' :: rest) =
      '\'' :: inner.reverse ++ '"' :: doubleQuotesFrom none rest :=
  rfl

theorem doubleQuotesFrom_some_single :
    doubleQuotesFrom (some inner) ('\'' :: rest) =
      '"' :: inner.reverse ++ '"' :: doubleQuotesFrom none rest :=
  rfl

variable {character : Char} (free : Scan.isQuote character = false)
include free

theorem doubleQuotesFrom_none_free :
    doubleQuotesFrom none (character :: rest) = character :: doubleQuotesFrom none rest := by
  have notSingle : character ≠ '\'' := by
    rintro rfl
    cases free
  simp [doubleQuotesFrom, notSingle]

theorem doubleQuotesFrom_some_free :
    doubleQuotesFrom (some inner) (character :: rest) =
      doubleQuotesFrom (some (character :: inner)) rest := by
  have notSingle : character ≠ '\'' := by
    rintro rfl
    cases free
  have notDouble : character ≠ '"' := by
    rintro rfl
    cases free
  simp [doubleQuotesFrom, notSingle, notDouble]

end Steps

/-! ## Settled quotes -/

/-- An open single quote with what follows it, as it was read. -/
def heldText : Option (List Char) → List Char
  | none => []
  | some inner => '\'' :: inner.reverse

def HeldFree (held : Option (List Char)) : Prop :=
  ∀ inner ∈ held, ∀ character ∈ inner, Scan.isQuote character = false

theorem heldFree_none :
    HeldFree none := by
  simp [HeldFree]

theorem heldFree_nil :
    HeldFree (some []) := by
  simp [HeldFree]

theorem HeldFree.cons
    {inner : List Char}
    (free : HeldFree (some inner))
    {character : Char}
    (freeToo : Scan.isQuote character = false) :
    HeldFree (some (character :: inner)) := by
  intro longer same
  obtain rfl := Option.some.inj same
  rw [List.forall_mem_cons]
  exact ⟨freeToo, free inner rfl⟩

theorem HeldFree.quotesOf_reverse
    {inner : List Char}
    (free : HeldFree (some inner)) :
    quotesOf inner.reverse = [] := by
  apply quotesOf_eq_nil
  intro character member
  exact free inner rfl character (List.mem_reverse.mp member)

/-- No pair of single quotes is left. -/
theorem quotesSettled_doubleQuotesFrom
    {held : Option (List Char)}
    (free : HeldFree held)
    (text : List Char) :
    QuotesSettled (doubleQuotesFrom held text) := by
  unfold QuotesSettled
  induction text generalizing held with
  | nil =>
      cases held with
      | none => exact .nil
      | some inner =>
          show (quotesOf (['\''] ++ inner.reverse)).IsChain _
          rw [quotesOf_append, free.quotesOf_reverse, List.append_nil]
          exact .singleton _
  | cons first rest inductionHypothesis =>
      have closed := inductionHypothesis heldFree_none
      cases held with
      | none =>
          rcases quote_cases first with rfl | rfl | freeToo
          · exact isChain_double_cons closed
          · exact inductionHypothesis heldFree_nil
          · rw [doubleQuotesFrom_none_free rest freeToo, quotesOf_cons_of_free freeToo]
            exact closed
      | some inner =>
          rcases quote_cases first with rfl | rfl | freeToo
          · rw [doubleQuotesFrom_some_double, quotesOf_append]
            show ('\'' :: quotesOf inner.reverse ++ '"' :: quotesOf _).IsChain _
            rw [free.quotesOf_reverse]
            exact isChain_single_double_cons closed
          · rw [doubleQuotesFrom_some_single, quotesOf_append]
            show ('"' :: quotesOf inner.reverse ++ '"' :: quotesOf _).IsChain _
            rw [free.quotesOf_reverse]
            exact isChain_double_cons (isChain_double_cons closed)
          · rw [doubleQuotesFrom_some_free inner rest freeToo]
            exact inductionHypothesis (free.cons freeToo)

/-- Where there is no pair of single quotes, nothing changes. -/
theorem doubleQuotesFrom_of_settled
    {held : Option (List Char)}
    (free : HeldFree held)
    {text : List Char}
    (settled : QuotesSettled (heldText held ++ text)) :
    doubleQuotesFrom held text = heldText held ++ text := by
  induction text generalizing held with
  | nil =>
      cases held with
      | none => rfl
      | some inner => exact (List.append_nil _).symm
  | cons first rest inductionHypothesis =>
      cases held with
      | none =>
          rcases quote_cases first with rfl | rfl | freeToo
          · rw [doubleQuotesFrom_none_double,
              inductionHypothesis heldFree_none (List.IsChain.tail settled)]
            rfl
          · exact inductionHypothesis heldFree_nil settled
          · have same : quotesOf (first :: rest) = quotesOf rest :=
              quotesOf_cons_of_free freeToo rest
            rw [doubleQuotesFrom_none_free rest freeToo, inductionHypothesis heldFree_none]
            · rfl
            · show (quotesOf rest).IsChain _
              rw [← same]
              exact settled
      | some inner =>
          have quotes (after : List Char) :
              quotesOf (heldText (some inner) ++ after) = '\'' :: quotesOf after := by
            show quotesOf (['\''] ++ inner.reverse ++ after) = _
            rw [quotesOf_append, quotesOf_append, free.quotesOf_reverse]
            rfl
          have chain := settled
          rw [QuotesSettled, quotes] at chain
          rcases quote_cases first with rfl | rfl | freeToo
          · rw [doubleQuotesFrom_some_double, inductionHypothesis heldFree_none]
            · rfl
            · exact List.IsChain.tail (List.IsChain.tail chain)
          · -- Two single quotes with nothing between them.
            exact absurd ⟨rfl, rfl⟩ (List.isChain_cons_cons.mp chain).1
          · have moved : heldText (some (first :: inner)) ++ rest =
                heldText (some inner) ++ first :: rest := by
              simp [heldText]
            rw [← moved] at settled ⊢
            rw [doubleQuotesFrom_some_free inner rest freeToo]
            exact inductionHypothesis (free.cons freeToo) settled

private theorem quotesSettled_doubleQuotes
    (text : List Char) :
    QuotesSettled (doubleQuotes text) :=
  quotesSettled_doubleQuotesFrom heldFree_none text

theorem doubleQuotes_of_settled
    {text : List Char}
    (settled : QuotesSettled text) :
    doubleQuotes text = text :=
  doubleQuotesFrom_of_settled heldFree_none settled

/-! ## Other passes -/

theorem isQuote_of_isBlank
    {character : Char}
    (blank : isBlank character = true) :
    Scan.isQuote character = false := by
  rcases quote_cases character with rfl | rfl | free
  · revert blank
    decide
  · revert blank
    decide
  · exact free

theorem isQuote_of_endsWord_eq_false
    {character : Char}
    (plain : endsWord character = false) :
    Scan.isQuote character = false := by
  rcases quote_cases character with rfl | rfl | free
  · cases plain
  · cases plain
  · exact free

private theorem quotesOf_collapseBlanksFrom
    (scan : Scan)
    (last : Option Char)
    (pending : Bool)
    (text : List Char) :
    quotesOf (collapseBlanksFrom scan last pending text) = quotesOf text := by
  induction text generalizing scan last pending with
  | nil => rfl
  | cons first rest inductionHypothesis =>
      have kept (state : Scan) (before : Option Char) (gap : Bool) :
          quotesOf (first :: collapseBlanksFrom state before gap rest) =
            quotesOf (first :: rest) := by
        rw [← List.singleton_append, quotesOf_append, inductionHypothesis, ← quotesOf_append,
          List.singleton_append]
      cases quoted : scan.quoted with
      | true =>
          rw [collapseBlanksFrom_quoted last pending rest quoted]
          exact kept _ _ _
      | false =>
          cases blank : isBlank first with
          | true =>
              rw [collapseBlanksFrom_blank last pending rest quoted blank, inductionHypothesis,
                quotesOf_cons_of_free (isQuote_of_isBlank blank)]
          | false =>
              have gapFree (kept : Bool) : quotesOf (if kept = true then [' '] else []) = [] := by
                cases kept with
                | false | true => rfl
              rw [collapseBlanksFrom_solid last pending rest quoted blank, quotesOf_append, gapFree]
              exact kept _ _ _

private theorem Cut.quotesOf_respelled
    {scan : Scan}
    {list : List Piece}
    (cut : Cut scan list) :
    quotesOf ((list.map Piece.respelled).flatMap Piece.characters) =
      quotesOf (list.flatMap Piece.characters) := by
  induction cut with
  | nil => rfl
  | @mark scan character rest marks others inductionHypothesis =>
      rw [List.map_cons, List.flatMap_cons, List.flatMap_cons, quotesOf_append, quotesOf_append,
        inductionHypothesis]
      rfl
  | @word scan characters rest unquoted nonempty plain ends others inductionHypothesis =>
      obtain ⟨-, kept⟩ := respellWord_keeps scan.depth nonempty (fun _ solid => solid.1) plain
      rw [List.map_cons, List.flatMap_cons, List.flatMap_cons, quotesOf_append, quotesOf_append,
        inductionHypothesis]
      show quotesOf (respellWord scan.depth characters) ++ _ = quotesOf characters ++ _
      rw [quotesOf_eq_nil fun _ member => isQuote_of_endsWord_eq_false (kept _ member),
        quotesOf_eq_nil fun _ member => isQuote_of_endsWord_eq_false (plain _ member)]

private theorem quotesOf_respellNumbers
    (text : List Char) :
    quotesOf (respellNumbers text) = quotesOf text := by
  rw [respellNumbers_eq, (cut_pieces text).quotesOf_respelled, characters_pieces]

/-- The quotes of a text in its one spelling are settled. -/
theorem quotesSettled_respellNumbers_spaced
    (text : List Char) :
    QuotesSettled (respellNumbers (spaced text)) := by
  rw [QuotesSettled, quotesOf_respellNumbers, spaced, collapseBlanks, quotesOf_collapseBlanksFrom]
  exact quotesSettled_doubleQuotes text

end AtomicCss.Wording
