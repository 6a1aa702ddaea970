import AtomicCss.Proofs.Declaration.NumericWords

/-!
Contract: cutting a text into pieces and putting pieces together.

Owns:
- the characters of a piece, of which the text is made up again;
- the lists of pieces that a text can be cut into, at a given place of the reading;
- that such pieces are found again in the text they make up;
- respelled pieces, which are the pieces of the respelled text.

Does not own: how a word is respelled.
-/

namespace AtomicCss.Wording

open AtomicCss.Text

theorem next_of_endsWord_eq_false
    {scan : Scan}
    (unquoted : scan.quoted = false)
    {character : Char}
    (plain : endsWord character = false) :
    scan.next character = scan := by
  obtain ⟨quote, depth⟩ := scan
  cases quote with
  | some mark => cases unquoted
  | none =>
      simp only [endsWord, List.contains_cons, Bool.or_eq_false_iff, beq_eq_false_iff_ne] at plain
      simp [Scan.next, Scan.isQuote, plain]

namespace Piece

def characters : Piece → List Char
  | .word _ characters => characters
  | .mark character => [character]

def respelled : Piece → Piece
  | .word depth characters => .word depth (respellWord depth characters)
  | .mark character => .mark character

private theorem characters_respelled
    (piece : Piece) :
    piece.respelled.characters = piece.respell := by
  cases piece with
  | word _ _ | mark _ => rfl

def isWord : Piece → Bool
  | .word _ _ => true
  | .mark _ => false

end Piece

/-- The pieces of a text from a given place on: words outside quotes, none right after another, and
marks, which end words outside quotes and may be any character inside. -/
inductive Cut : Scan → List Piece → Prop where
  | nil (scan : Scan) : Cut scan []
  | word {scan : Scan} {characters : List Char} {rest : List Piece}
      (unquoted : scan.quoted = false)
      (nonempty : characters ≠ [])
      (plain : ∀ character ∈ characters, endsWord character = false)
      (ends : ∀ piece ∈ rest.head?, piece.isWord = false)
      (others : Cut scan rest) :
      Cut scan (.word scan.depth characters :: rest)
  | mark {scan : Scan} {character : Char} {rest : List Piece}
      (marks : scan.quoted = true ∨ endsWord character = true)
      (others : Cut (scan.next character) rest) :
      Cut scan (.mark character :: rest)

/-! ## Cutting -/

private theorem characters_heldPiece
    (depth : Nat)
    (held : List Char) :
    (heldPiece depth held).flatMap Piece.characters = held.reverse := by
  unfold heldPiece
  cases held with
  | nil => rfl
  | cons last others => simp [Piece.characters]

section Held

variable {scan : Scan} {held : List Char}
variable (idle : scan.quoted = true → held = [])
variable (plain : ∀ character ∈ held, endsWord character = false)

include idle in
/-- Pieces make up the text they were cut from. -/
theorem characters_piecesFrom
    (text : List Char) :
    (piecesFrom scan held text).flatMap Piece.characters = held.reverse ++ text := by
  induction text generalizing scan held with
  | nil => rw [piecesFrom, characters_heldPiece, List.append_nil]
  | cons first rest inductionHypothesis =>
      rw [piecesFrom]
      split
      · rename_i quoted
        obtain rfl := idle quoted
        rw [List.flatMap_cons, inductionHypothesis fun _ => rfl]
        rfl
      · rename_i notQuoted
        split
        · rw [List.flatMap_append, characters_heldPiece, List.flatMap_cons,
            inductionHypothesis fun _ => rfl]
          rfl
        · rw [inductionHypothesis fun quoted => absurd quoted notQuoted]
          simp

include plain in
private theorem cut_heldPiece_append
    (unquoted : scan.quoted = false)
    {rest : List Piece}
    (ends : ∀ piece ∈ rest.head?, piece.isWord = false)
    (others : Cut scan rest) :
    Cut scan (heldPiece scan.depth held ++ rest) := by
  unfold heldPiece
  split
  · exact others
  · rename_i filled
    refine .word unquoted ?_ ?_ ends others
    · simpa using filled
    · simpa using plain

include idle plain in
/-- What a text is cut into are pieces of a text. -/
theorem cut_piecesFrom
    (text : List Char) :
    Cut scan (piecesFrom scan held text) := by
  induction text generalizing scan held with
  | nil =>
      rw [piecesFrom]
      cases quoted : scan.quoted with
      | true =>
          rw [idle quoted]
          exact .nil scan
      | false =>
          rw [← List.append_nil (heldPiece scan.depth held)]
          exact cut_heldPiece_append plain quoted (by simp) (.nil scan)
  | cons first rest inductionHypothesis =>
      rw [piecesFrom]
      split
      · rename_i quoted
        obtain rfl := idle quoted
        exact .mark (.inl quoted) (inductionHypothesis (fun _ => rfl) (by simp))
      · rename_i notQuoted
        have unquoted : scan.quoted = false := by simpa using notQuoted
        split
        · rename_i separates
          refine cut_heldPiece_append plain unquoted (by simp [Piece.isWord]) ?_
          exact .mark (.inr separates) (inductionHypothesis (fun _ => rfl) (by simp))
        · rename_i notSeparates
          apply inductionHypothesis fun quoted => absurd quoted notQuoted
          rw [List.forall_mem_cons]
          exact ⟨by simpa using notSeparates, plain⟩

end Held

theorem characters_pieces
    (text : List Char) :
    (pieces text).flatMap Piece.characters = text :=
  characters_piecesFrom (fun _ => rfl) text

theorem cut_pieces
    (text : List Char) :
    Cut Scan.start (pieces text) :=
  cut_piecesFrom (fun _ => rfl) (by simp) text

/-! ## Putting together -/

/-- The characters of a word are held until it ends. -/
theorem piecesFrom_append_of_plain
    {scan : Scan}
    (unquoted : scan.quoted = false)
    {characters : List Char}
    (plain : ∀ character ∈ characters, endsWord character = false)
    (held text : List Char) :
    piecesFrom scan held (characters ++ text) =
      piecesFrom scan (characters.reverse ++ held) text := by
  induction characters generalizing held with
  | nil => rfl
  | cons first rest inductionHypothesis =>
      obtain ⟨firstPlain, restPlain⟩ := List.forall_mem_cons.mp plain
      rw [List.cons_append, piecesFrom, unquoted, firstPlain]
      simp [inductionHypothesis restPlain]

/-- Pieces are found again in the text they make up. -/
theorem Cut.piecesFrom_characters
    {scan : Scan}
    {list : List Piece}
    (cut : Cut scan list) :
    piecesFrom scan [] (list.flatMap Piece.characters) = list := by
  induction cut with
  | nil scan => rfl
  | @mark scan character rest marks others inductionHypothesis =>
      rw [List.flatMap_cons]
      show piecesFrom scan [] (character :: rest.flatMap Piece.characters) = _
      rw [piecesFrom, inductionHypothesis]
      cases quoted : scan.quoted with
      | true => rfl
      | false =>
          rw [marks.resolve_left (by simp [quoted])]
          rfl
  | @word scan characters rest unquoted nonempty plain ends others inductionHypothesis =>
      have heldIs : heldPiece scan.depth characters.reverse = [.word scan.depth characters] := by
        simp [heldPiece, nonempty]
      rw [List.flatMap_cons]
      show piecesFrom scan [] (characters ++ rest.flatMap Piece.characters) = _
      rw [piecesFrom_append_of_plain unquoted plain, List.append_nil]
      -- The word ends at the end of the text or at the mark that follows it.
      cases others with
      | nil => exact heldIs
      | word => cases ends _ rfl
      | @mark _ character rest marks others =>
          have separates : endsWord character = true := marks.resolve_left (by simp [unquoted])
          have marked : (Piece.mark character :: rest).flatMap Piece.characters =
              character :: rest.flatMap Piece.characters := rfl
          rw [marked, piecesFrom, unquoted, separates] at inductionHypothesis ⊢
          simp only [Bool.false_eq_true, if_false, if_true, heldIs] at inductionHypothesis ⊢
          exact congrArg _ inductionHypothesis

/-! ## Respelling -/

private theorem isWord_respelled
    (piece : Piece) :
    piece.respelled.isWord = piece.isWord := by
  cases piece with
  | word _ _ | mark _ => rfl

/-- Respelled pieces are pieces of a text. -/
theorem Cut.respelled
    {scan : Scan}
    {list : List Piece}
    (cut : Cut scan list) :
    Cut scan (list.map Piece.respelled) := by
  induction cut with
  | nil scan => exact .nil scan
  | mark marks _ inductionHypothesis => exact .mark marks inductionHypothesis
  | @word scan characters rest unquoted nonempty plain ends _ inductionHypothesis =>
      obtain ⟨filled, kept⟩ :=
        respellWord_keeps scan.depth nonempty (fun _ solid => solid.1) plain
      refine .word unquoted filled kept ?_ inductionHypothesis
      intro piece first
      rw [List.head?_map, Option.mem_def, Option.map_eq_some_iff] at first
      obtain ⟨original, isFirst, rfl⟩ := first
      rw [isWord_respelled]
      exact ends original isFirst

/-- The respelled text, as the one that the respelled pieces make up. -/
theorem respellNumbers_eq
    (text : List Char) :
    respellNumbers text = ((pieces text).map Piece.respelled).flatMap Piece.characters := by
  rw [respellNumbers, List.flatMap_map]
  exact List.flatMap_congr fun piece _ => piece.characters_respelled.symm

theorem pieces_respellNumbers
    (text : List Char) :
    pieces (respellNumbers text) = (pieces text).map Piece.respelled := by
  rw [respellNumbers_eq]
  exact (cut_pieces text).respelled.piecesFrom_characters

/-- Respelling the numbers of a text twice is respelling them once. -/
theorem respellNumbers_respellNumbers
    (text : List Char) :
    respellNumbers (respellNumbers text) = respellNumbers text := by
  have twice (piece : Piece) : piece.respelled.respell = piece.respell := by
    cases piece with
    | mark character => rfl
    | word depth characters => exact respellWord_respellWord depth characters
  rw [respellNumbers, pieces_respellNumbers, List.flatMap_map]
  exact List.flatMap_congr fun piece _ => twice piece

end AtomicCss.Wording
