import AtomicCss.Proofs.Declaration.Measures
import AtomicCss.Proofs.Declaration.Places

/-!
Contract: addresses without quotes in style texts.

Owns:
- addresses, and the segments that a reading of the text takes for words;
- the pieces of a text around an address that stands outside quotes;
- which addresses a text in its one spelling still has.

Does not own: addresses in quotes, which are quoted text like any other.
-/

namespace AtomicCss.Wording

open AtomicCss.Text

/-- An address without quotes: no quotes, parentheses or white space stand in it. -/
def IsAddress (body : List Char) : Prop :=
  ∀ character ∈ body, isBlank character = false ∧ Scan.isQuote character = false ∧
    character ≠ '(' ∧ character ≠ ')'

instance (body : List Char) : Decidable (IsAddress body) :=
  decidable_of_iff
    ((body.all fun character => !isBlank character && !Scan.isQuote character &&
      character != '(' && character != ')') = true)
    (by simp only [IsAddress, List.all_eq_true, Bool.and_eq_true, Bool.not_eq_true', bne_iff_ne,
      and_assoc])

def urlToken (body : List Char) : List Char :=
  "url(".toList ++ (body ++ [')'])

def endsSegment (character : Char) : Bool :=
  character = ',' || character = '/' || character = '*'

def segments (body : List Char) : List (List Char) :=
  body.splitOnP endsSegment

/-! ## Pieces -/

/-- A text is cut in the order in which it is read. -/
theorem exists_piecesFrom_append
    (scan : Scan)
    (held before : List Char) :
    ∃ done holding, ∀ rest, piecesFrom scan held (before ++ rest) =
      done ++ piecesFrom (scan.after before) holding rest := by
  induction before generalizing scan held with
  | nil => exact ⟨[], held, fun _ => rfl⟩
  | cons first others inductionHypothesis =>
      cases quoted : scan.quoted with
      | true =>
          obtain ⟨done, holding, cut⟩ := inductionHypothesis (scan.next first) held
          refine ⟨.mark first :: done, holding, fun rest => ?_⟩
          rw [List.cons_append, piecesFrom, quoted, if_pos rfl, cut]
          rfl
      | false =>
          cases ends : endsWord first with
          | true =>
              obtain ⟨done, holding, cut⟩ := inductionHypothesis (scan.next first) []
              refine ⟨heldPiece scan.depth held ++ .mark first :: done, holding, fun rest => ?_⟩
              rw [List.cons_append, piecesFrom, quoted, ends, cut]
              simp [Scan.after]
          | false =>
              obtain ⟨done, holding, cut⟩ := inductionHypothesis scan (first :: held)
              refine ⟨done, holding, fun rest => ?_⟩
              rw [List.cons_append, piecesFrom, quoted, ends]
              have stays := next_of_endsWord_eq_false quoted ends
              simp [cut, Scan.after, stays]

/-- What is held is left alone as a word. -/
theorem forall_heldPiece_iff
    (depth : Nat)
    (held : List Char) :
    (∀ piece ∈ heldPiece depth held, piece.respell = piece.characters) ↔
      respellWord depth held.reverse = held.reverse := by
  unfold heldPiece
  cases held with
  | nil =>
      have empty : respellWord depth [] = [] := rfl
      simp [empty]
  | cons last others => simp [Piece.respell, Piece.characters]

section Stretch

/-! A stretch of text without quotes and parentheses, outside quotes. -/

variable {scan : Scan} (unquoted : scan.quoted = false)
variable {text : List Char} (level : ∀ character ∈ text, scan.next character = scan)

include unquoted level

/-- A stretch is cut apart from what follows the mark at its end. -/
theorem piecesFrom_append_cons
    (held : List Char)
    {mark : Char}
    (ends : endsWord mark = true)
    (rest : List Char) :
    piecesFrom scan held (text ++ mark :: rest) =
      piecesFrom scan held text ++ .mark mark :: piecesFrom (scan.next mark) [] rest := by
  induction text generalizing held with
  | nil =>
      rw [List.nil_append, piecesFrom, piecesFrom, unquoted, ends]
      rfl
  | cons first others inductionHypothesis =>
      obtain ⟨stays, othersLevel⟩ := List.forall_mem_cons.mp level
      rw [List.cons_append, piecesFrom, piecesFrom, unquoted, stays]
      cases endsWord first with
      | true => simp [inductionHypothesis othersLevel]
      | false => simp [inductionHypothesis othersLevel]

/-- The words of a stretch of an address are its segments. -/
theorem forall_piecesFrom_iff
    (segmented : ∀ character ∈ text, endsWord character = endsSegment character)
    (held : List Char) :
    (∀ piece ∈ piecesFrom scan held text, piece.respell = piece.characters) ↔
      ∀ segment ∈ (segments text).modifyHead (held.reverse ++ ·),
        respellWord scan.depth segment = segment := by
  induction text generalizing held with
  | nil => simpa [piecesFrom, segments] using forall_heldPiece_iff scan.depth held
  | cons first others inductionHypothesis =>
      obtain ⟨stays, othersLevel⟩ := List.forall_mem_cons.mp level
      obtain ⟨firstSegmented, othersSegmented⟩ := List.forall_mem_cons.mp segmented
      have later := inductionHypothesis othersLevel othersSegmented
      rw [piecesFrom, unquoted, stays, segments, List.splitOnP_cons_eq_if_modifyHead,
        ← firstSegmented]
      cases endsWord first with
      | true =>
          have kept : (Piece.mark first).respell = (Piece.mark first).characters := rfl
          have none : (segments others).modifyHead (fun segment => segment) = segments others := by
            cases segments others with
            | nil | cons => rfl
          have laterKept := later []
          simp only [List.reverse_nil, List.nil_append, none] at laterKept
          simp only [Bool.false_eq_true, if_false, if_true, List.modifyHead_cons,
            List.append_nil, List.forall_mem_append, List.forall_mem_cons, kept, true_and,
            forall_heldPiece_iff, laterKept]
          rfl
      | false =>
          have longer (list : List (List Char)) :
              (list.modifyHead (List.cons first)).modifyHead (held.reverse ++ ·) =
                list.modifyHead ((first :: held).reverse ++ ·) := by
            cases list with
            | nil => rfl
            | cons head tail => simp
          simp only [Bool.false_eq_true, if_false, longer]
          exact later (first :: held)

end Stretch

/-! ## Addresses outside quotes -/

namespace IsAddress

variable {body : List Char} (address : IsAddress body)

include address

theorem level
    (depth : Nat) :
    ∀ character ∈ body, Scan.next ⟨none, depth⟩ character = ⟨none, depth⟩ := by
  intro character member
  obtain ⟨-, free, notOpen, notClose⟩ := address character member
  simp [Scan.next, free, notOpen, notClose]

private theorem segmented :
    ∀ character ∈ body, endsWord character = endsSegment character := by
  intro character member
  obtain ⟨solid, free, notOpen, notClose⟩ := address character member
  have notBlank : character ≠ ' ' := by
    rintro rfl
    cases solid
  obtain ⟨notDouble, notSingle⟩ : character ≠ '"' ∧ character ≠ '\'' := by
    simpa [Scan.isQuote] using free
  simp [endsWord, endsSegment, notBlank, notOpen, notClose, notDouble, notSingle, Bool.or_assoc]

/-- Among arguments, the pieces of an address are left alone if its segments are. -/
theorem forall_pieces_iff
    (depth : Nat) :
    (∀ piece ∈ piecesFrom ⟨none, depth + 1⟩ [] body, piece.respell = piece.characters) ↔
      ∀ segment ∈ segments body, ¬IsMisspelledInCall segment := by
  have kept := forall_piecesFrom_iff rfl (address.level (depth + 1)) address.segmented []
  have none : (segments body).modifyHead ([].reverse ++ ·) = segments body := by
    cases segments body with
    | nil | cons => rfl
  rw [kept, none]
  exact forall₂_congr fun segment _ => respellWord_succ_eq_self_iff depth segment

end IsAddress

/-- A word that ends as the name of addresses does is no number: no known unit does. -/
theorem respellWord_url
    (depth : Nat)
    (word : List Char) :
    respellWord depth (word ++ ['u', 'r', 'l']) = word ++ ['u', 'r', 'l'] := by
  apply respellWord_of_not_isMeasure
  intro numeral unit measure
  have lasts := congrArg List.getLast? measure.spelled
  rw [List.getLast?_append, List.getLast?_append] at lasts
  change some 'l' = _ at lasts
  cases last : unit.getLast? with
  | none =>
      rw [last, Option.none_or] at lasts
      have letter := isUnitChar_of_mem_text (List.mem_of_getLast? lasts.symm)
      exact absurd letter (by decide)
  | some final =>
      rw [last, Option.some_or] at lasts
      obtain rfl := Option.some.inj lasts
      have filled : unit ≠ [] := by
        rintro rfl
        cases last
      have units :
          Property.knownUnits.all (fun name => name.toList.getLast? != some 'l') = true := by
        decide
      have other := List.all_eq_true.mp units _
        (List.contains_iff_mem.mp (measure.known.resolve_left filled))
      rw [toList_lowered, List.getLast?_map, last] at other
      exact absurd other (by decide)

/-- The pieces around an address that stands outside quotes. -/
theorem IsAddress.exists_pieces
    {body : List Char}
    (address : IsAddress body)
    {text : List Char}
    (stands : StandsFrom Scan.start false (urlToken body) text) :
    ∃ done word depth rest, pieces text =
      done ++ (.word depth (word ++ ['u', 'r', 'l']) :: .mark '(' ::
        (piecesFrom ⟨none, depth + 1⟩ [] body ++ .mark ')' :: rest)) := by
  obtain ⟨before, after, rfl, unquoted⟩ := stands
  obtain ⟨done, holding, cut⟩ := exists_piecesFrom_append Scan.start [] before
  generalize Scan.start.after before = scan at unquoted cut
  obtain ⟨quote, depth⟩ := scan
  obtain rfl : quote = none := by simpa [Scan.quoted] using unquoted
  have token : urlToken body ++ after = ['u', 'r', 'l'] ++ '(' :: (body ++ ')' :: after) := by
    simp [urlToken]
  have plain : ∀ character ∈ ['u', 'r', 'l'], endsWord character = false := by
    simp [endsWord]
  have inside := piecesFrom_append_cons rfl (address.level (depth + 1)) []
    (show endsWord ')' = true by decide) after
  refine ⟨done, holding.reverse, depth, piecesFrom ⟨none, depth⟩ [] after, ?_⟩
  rw [pieces, cut, token, piecesFrom_append_of_plain unquoted plain, piecesFrom]
  have opens : Scan.next ⟨none, depth⟩ '(' = ⟨none, depth + 1⟩ := rfl
  have separates : endsWord '(' = true := by decide
  rw [unquoted, separates, opens, inside]
  simp [heldPiece, Scan.next, Scan.isQuote]

/-- Outside quotes, an address is written with its segments respelled. -/
theorem IsAddress.exists_written
    {body : List Char}
    (address : IsAddress body)
    {text : List Char}
    (stands : StandsFrom Scan.start false (urlToken body) text) :
    ∃ written, urlToken written <:+: respellNumbers text ∧
      ((∀ segment ∈ segments body, ¬IsMisspelledInCall segment) → written = body) := by
  obtain ⟨done, word, depth, rest, cut⟩ := address.exists_pieces stands
  refine ⟨(piecesFrom ⟨none, depth + 1⟩ [] body).flatMap Piece.respell, ?_, fun settled => ?_⟩
  · refine ⟨done.flatMap Piece.respell ++ word, rest.flatMap Piece.respell, ?_⟩
    rw [respellNumbers, cut]
    simp [Piece.respell, respellWord_url, urlToken]
  · rw [← address.forall_pieces_iff depth] at settled
    rw [List.flatMap_congr settled]
    exact characters_piecesFrom (fun _ => rfl) body

/-- Every piece of a respelled text is left alone. -/
theorem respell_of_mem_pieces_respellNumbers
    {text : List Char}
    {piece : Piece}
    (member : piece ∈ pieces (respellNumbers text)) :
    piece.respell = piece.characters := by
  rw [pieces_respellNumbers, List.mem_map] at member
  obtain ⟨original, -, rfl⟩ := member
  cases original with
  | mark character => rfl
  | word depth characters => exact respellWord_respellWord depth characters

/-- The addresses outside quotes in a respelled text have their segments respelled. -/
theorem IsAddress.settled_of_stands
    {body : List Char}
    (address : IsAddress body)
    {text : List Char}
    (stands : StandsFrom Scan.start false (urlToken body) (respellNumbers text)) :
    ∀ segment ∈ segments body, ¬IsMisspelledInCall segment := by
  obtain ⟨done, word, depth, rest, cut⟩ := address.exists_pieces stands
  rw [← address.forall_pieces_iff depth]
  intro piece member
  have inText : piece ∈ pieces (respellNumbers text) := by simp [cut, member]
  exact respell_of_mem_pieces_respellNumbers inText

/-! ## Texts in their one spelling -/

namespace IsAddress

variable {body : List Char} (address : IsAddress body)

include address

theorem urlToken_free :
    urlToken body ≠ [] ∧ IsQuoteFree (urlToken body) ∧ IsBlankFree (urlToken body) := by
  have around : ("url(".toList ++ [')']).all
      (fun character => !Scan.isQuote character && !isBlank character) = true := by
    decide
  have free : ∀ character ∈ urlToken body,
      Scan.isQuote character = false ∧ isBlank character = false := by
    simp only [List.all_eq_true, List.forall_mem_append, Bool.and_eq_true, Bool.not_eq_true']
      at around
    rw [urlToken, List.forall_mem_append, List.forall_mem_append]
    refine ⟨around.1, fun character member => ?_, around.2⟩
    obtain ⟨solid, free, -⟩ := address character member
    exact ⟨free, solid⟩
  exact ⟨by simp [urlToken], fun character member => (free character member).1,
    fun character member => (free character member).2⟩

/-- An address is written with its segments respelled, or as it is where quotes, made double, are
around it. -/
theorem exists_written_spaced
    {text : List Char}
    (contained : urlToken body <:+: text) :
    ∃ written, urlToken written <:+: respellNumbers (spaced text) ∧
      ((∀ segment ∈ segments body, ¬IsMisspelledInCall segment) → written = body) := by
  obtain ⟨nonempty, free, solid⟩ := address.urlToken_free
  have doubled : urlToken body <:+: doubleQuotes text := by
    obtain ⟨before, after, rfl⟩ := contained
    rw [List.append_assoc]
    exact isInfix_doubleQuotesFrom free none before after
  rcases (isInfix_iff_standsFrom Scan.start _ _).mp doubled with quoted | outside
  · have kept := (standsQuoted_respellNumbers_spaced_iff nonempty free solid text).mpr quoted
    exact ⟨body, (isInfix_iff_standsFrom Scan.start _ _).mpr (.inl kept), fun _ => rfl⟩
  · exact address.exists_written
      (standsFrom_collapseBlanksFrom nonempty free solid isProperScan_start none false outside)

/-- An address stands in the respelled text exactly if its segments are left alone or quotes, made
double, are around it. -/
theorem isInfix_respellNumbers_spaced_iff
    {text : List Char}
    (contained : urlToken body <:+: text) :
    urlToken body <:+: respellNumbers (spaced text) ↔
      (∀ segment ∈ segments body, ¬IsMisspelledInCall segment) ∨
        StandsQuoted (urlToken body) (doubleQuotes text) := by
  obtain ⟨nonempty, free, solid⟩ := address.urlToken_free
  have quotedKept := standsQuoted_respellNumbers_spaced_iff nonempty free solid text
  constructor
  · intro kept
    rcases (isInfix_iff_standsFrom Scan.start _ _).mp kept with quoted | outside
    · exact .inr (quotedKept.mp quoted)
    · exact .inl (address.settled_of_stands outside)
  · rintro (settled | quoted)
    · obtain ⟨written, kept, same⟩ := address.exists_written_spaced contained
      rw [same settled] at kept
      exact kept
    · exact (isInfix_iff_standsFrom Scan.start _ _).mpr (.inl (quotedKept.mpr quoted))

/-- A text with an address gets no quotes around it, as the content property or as another. -/
theorem canonicalChars_eq
    {text : List Char}
    (contained : urlToken body <:+: text)
    (property : String) :
    canonicalChars property text = respellNumbers (spaced text) := by
  obtain ⟨written, kept, -⟩ := address.exists_written_spaced contained
  have opens : '(' ∈ respellNumbers (spaced text) := kept.subset (by simp [urlToken])
  unfold canonicalChars
  simp [quoteContent, opens]

end IsAddress

/-- The addresses of a text that its one spelling keeps. For every property, an address without
quotes is kept exactly if none of its segments is a number that is spelled differently among the
arguments of a function, or if it stands in quotes once pairs of single quotes are double. So in a
text without quotes, an address whose path has such a number is lost. -/
theorem address_kept_iff
    {body : List Char}
    (address : IsAddress body)
    {text : String}
    (contained : urlToken body <:+: text.toList)
    (property : String) :
    (urlToken body <:+: (canonical property text).toList ↔
      (∀ segment ∈ segments body, ¬IsMisspelledInCall segment) ∨
        StandsQuoted (urlToken body) (doubleQuotes text.toList)) ∧
      (IsQuoteFree text.toList →
        (urlToken body <:+: (canonical property text).toList ↔
          ∀ segment ∈ segments body, ¬IsMisspelledInCall segment)) := by
  have kept := address.isInfix_respellNumbers_spaced_iff contained
  rw [canonical, String.toList_ofList, address.canonicalChars_eq contained]
  refine ⟨kept, fun free => ?_⟩
  rw [kept, or_iff_left]
  rw [doubleQuotes_of_free free]
  exact not_standsQuoted_of_free free

/-- The version number in a path loses the zero before its point. -/
theorem address_with_version_lost :
    let body := "img/0.5/a.png".toList
    let text := "url(img/0.5/a.png)"
    IsAddress body ∧ urlToken body <:+: text.toList ∧ IsQuoteFree text.toList ∧
      canonical "background-image" text = "url(img/.5/a.png)" ∧
      ¬urlToken body <:+: (canonical "background-image" text).toList := by
  intro body text
  have address : IsAddress body := by decide
  have contained : urlToken body <:+: text.toList := ⟨[], [], by decide⟩
  have quoteFree : (text.toList.all fun character => !Scan.isQuote character) = true := by decide
  have free : IsQuoteFree text.toList := by simpa [IsQuoteFree] using quoteFree
  refine ⟨address, contained, free, by decide +kernel, ?_⟩
  rw [(address_kept_iff address contained "background-image").2 free]
  intro settled
  have version : "0.5".toList ∈ segments body := by decide
  have digits : ∀ digit ∈ ['0'] ++ (some ['5']).getD [], digit.isDigit = true :=
    List.all_eq_true.mp (by decide)
  let half := Numeral.ascii false ['0'] (some ['5']) digits (by decide)
  have measure : IsMeasure "0.5".toList half [] := ⟨rfl, digits, by simp, .inl rfl⟩
  exact settled _ version ⟨half, [], measure, .inr (.inl ⟨rfl, List.cons_ne_nil _ _⟩)⟩

end AtomicCss.Wording
