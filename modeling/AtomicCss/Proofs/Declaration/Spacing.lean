import AtomicCss.Proofs.Declaration.Pieces
import AtomicCss.Proofs.Text.Reading

/-!
Contract: texts whose white space cannot be reduced any further.

Owns:
- the steps of reducing white space, each as one equation;
- texts with single blanks only, each between two characters that it separates;
- that reducing white space leads to such a text, and leaves it as it is;
- that respelling numbers keeps a text so.

Does not own: which white space of the original text a blank stands for.
-/

namespace AtomicCss.Wording

open AtomicCss.Text

def keepsGap (depth : Nat) (last : Option Char) (after : Char) : Bool :=
  match last with
  | none => false
  | some before => keepsBlank depth before after

/-! ## Steps -/

section Steps

variable {scan : Scan} {character : Char} (last : Option Char) (pending : Bool) (rest : List Char)

theorem collapseBlanksFrom_quoted
    (quoted : scan.quoted = true) :
    collapseBlanksFrom scan last pending (character :: rest) =
      character :: collapseBlanksFrom (scan.next character) (some character) pending rest := by
  rw [collapseBlanksFrom.eq_def]
  simp only [quoted, if_true]

theorem collapseBlanksFrom_blank
    (unquoted : scan.quoted = false)
    (blank : isBlank character = true) :
    collapseBlanksFrom scan last pending (character :: rest) =
      collapseBlanksFrom scan last true rest := by
  rw [collapseBlanksFrom.eq_def]
  simp only [unquoted, blank, if_true, Bool.false_eq_true, if_false]

theorem collapseBlanksFrom_solid
    (unquoted : scan.quoted = false)
    (solid : isBlank character = false) :
    collapseBlanksFrom scan last pending (character :: rest) =
      (if pending && keepsGap scan.depth last character then [' '] else []) ++
        character :: collapseBlanksFrom (scan.next character) (some character) false rest := by
  rw [collapseBlanksFrom.eq_def]
  simp only [unquoted, solid, Bool.false_eq_true, if_false]
  cases last with
  | none => simp [keepsGap]
  | some before => rfl

end Steps

/-! ## Even spacing -/

/-- Outside quotes, the only white space are blanks, each between two characters that it
separates. -/
def EvenlySpacedFrom (scan : Scan) (last : Option Char) : List Char → Prop
  | [] => True
  | character :: rest =>
    if scan.quoted then EvenlySpacedFrom (scan.next character) (some character) rest
    else if isBlank character then
      character = ' ' ∧
        (∃ after, rest.head? = some after ∧ isBlank after = false ∧
          keepsGap scan.depth last after = true) ∧
        EvenlySpacedFrom scan last rest
    else EvenlySpacedFrom (scan.next character) (some character) rest

section EvenSteps

variable {scan : Scan} {character : Char} (last : Option Char) (rest : List Char)

theorem evenlySpacedFrom_quoted
    (quoted : scan.quoted = true) :
    EvenlySpacedFrom scan last (character :: rest) ↔
      EvenlySpacedFrom (scan.next character) (some character) rest := by
  rw [EvenlySpacedFrom, if_pos quoted]

theorem evenlySpacedFrom_blank
    (unquoted : scan.quoted = false)
    (blank : isBlank character = true) :
    EvenlySpacedFrom scan last (character :: rest) ↔
      character = ' ' ∧
        (∃ after, rest.head? = some after ∧ isBlank after = false ∧
          keepsGap scan.depth last after = true) ∧
        EvenlySpacedFrom scan last rest := by
  rw [EvenlySpacedFrom, if_neg (by simp [unquoted]), if_pos blank]

theorem evenlySpacedFrom_solid
    (unquoted : scan.quoted = false)
    (solid : isBlank character = false) :
    EvenlySpacedFrom scan last (character :: rest) ↔
      EvenlySpacedFrom (scan.next character) (some character) rest := by
  rw [EvenlySpacedFrom, if_neg (by simp [unquoted]), if_neg (by simp [solid])]

end EvenSteps

/-- Reducing white space spaces a text evenly. -/
theorem evenlySpacedFrom_collapseBlanksFrom
    (scan : Scan)
    (last : Option Char)
    (pending : Bool)
    (text : List Char) :
    EvenlySpacedFrom scan last (collapseBlanksFrom scan last pending text) := by
  induction text generalizing scan last pending with
  | nil => trivial
  | cons first rest inductionHypothesis =>
      cases quoted : scan.quoted with
      | true =>
          rw [collapseBlanksFrom_quoted last pending rest quoted,
            evenlySpacedFrom_quoted _ _ quoted]
          exact inductionHypothesis _ _ _
      | false =>
          cases blank : isBlank first with
          | true =>
              rw [collapseBlanksFrom_blank last pending rest quoted blank]
              exact inductionHypothesis _ _ _
          | false =>
              have solid :
                  EvenlySpacedFrom scan last
                    (first :: collapseBlanksFrom (scan.next first) (some first) false rest) := by
                rw [evenlySpacedFrom_solid _ _ quoted blank]
                exact inductionHypothesis _ _ _
              rw [collapseBlanksFrom_solid last pending rest quoted blank]
              split
              · rename_i kept
                have isKept := (Bool.and_eq_true_iff.mp kept).2
                rw [List.singleton_append, evenlySpacedFrom_blank _ _ quoted (by decide)]
                exact ⟨rfl, ⟨first, rfl, blank, isKept⟩, solid⟩
              · exact solid

/-- Reducing white space leaves an evenly spaced text as it is. -/
theorem collapseBlanksFrom_of_evenlySpaced
    {scan : Scan}
    {last : Option Char}
    {text : List Char}
    (even : EvenlySpacedFrom scan last text) :
    collapseBlanksFrom scan last false text = text := by
  induction text generalizing scan last with
  | nil => rfl
  | cons first rest inductionHypothesis =>
      cases quoted : scan.quoted with
      | true =>
          rw [evenlySpacedFrom_quoted _ _ quoted] at even
          rw [collapseBlanksFrom_quoted last false rest quoted, inductionHypothesis even]
      | false =>
          cases blank : isBlank first with
          | false =>
              rw [evenlySpacedFrom_solid _ _ quoted blank] at even
              rw [collapseBlanksFrom_solid last false rest quoted blank, inductionHypothesis even]
              rfl
          | true =>
              rw [evenlySpacedFrom_blank _ _ quoted blank] at even
              obtain ⟨rfl, ⟨after, starts, solid, kept⟩, others⟩ := even
              obtain ⟨following, rfl⟩ := List.head?_eq_some_iff.mp starts
              -- The rest is reduced to itself, with the blank before it or without.
              have same := inductionHypothesis others
              rw [collapseBlanksFrom_solid last false following quoted solid] at same
              rw [collapseBlanksFrom_blank last false _ quoted blank,
                collapseBlanksFrom_solid last true following quoted solid, kept]
              exact congrArg _ same

/-! ## Respelled texts -/

/-- A blank before or after a word is kept whatever the word is. -/
theorem keepsGap_after_plain
    (depth : Nat)
    (last : Option Char)
    {first second : Char}
    (firstPlain : endsWord first = false)
    (secondPlain : endsWord second = false) :
    keepsGap depth last first = keepsGap depth last second := by
  simp only [endsWord, List.contains_cons, Bool.or_eq_false_iff, beq_eq_false_iff_ne]
    at firstPlain secondPlain
  cases last with
  | none => rfl
  | some before => simp [keepsGap, keepsBlank, firstPlain, secondPlain]

private theorem keepsGap_before_plain
    (depth : Nat)
    {first second : Char}
    (firstPlain : endsWord first = false)
    (secondPlain : endsWord second = false)
    (after : Char) :
    keepsGap depth (some first) after = keepsGap depth (some second) after := by
  simp only [endsWord, List.contains_cons, Bool.or_eq_false_iff, beq_eq_false_iff_ne]
    at firstPlain secondPlain
  simp [keepsGap, keepsBlank, firstPlain, secondPlain]

theorem getLast?_cons_or
    (first : Char)
    (rest : List Char)
    (other : Option Char) :
    (first :: rest).getLast?.or other = rest.getLast?.or (some first) := by
  rw [List.getLast?_cons]
  cases rest.getLast? with
  | none | some _ => rfl

/-- A word has no white space in an evenly spaced text, and leaves the spacing of the rest to its
last character. -/
theorem evenlySpacedFrom_word_append
    {scan : Scan}
    (unquoted : scan.quoted = false)
    {word : List Char}
    (plain : ∀ character ∈ word, endsWord character = false)
    (last : Option Char)
    (text : List Char) :
    EvenlySpacedFrom scan last (word ++ text) ↔
      (∀ character ∈ word, isBlank character = false) ∧
        EvenlySpacedFrom scan (word.getLast?.or last) text := by
  induction word generalizing last with
  | nil => simp
  | cons first rest inductionHypothesis =>
      obtain ⟨firstPlain, restPlain⟩ := List.forall_mem_cons.mp plain
      rw [List.cons_append, List.forall_mem_cons]
      cases blank : isBlank first with
      | true =>
          rw [evenlySpacedFrom_blank _ _ unquoted blank]
          have notBlank : first ≠ ' ' := by
            rintro rfl
            cases firstPlain
          simp [notBlank]
      | false =>
          rw [evenlySpacedFrom_solid _ _ unquoted blank,
            next_of_endsWord_eq_false unquoted firstPlain, inductionHypothesis restPlain,
            getLast?_cons_or]
          simp

/-- After a word, it does not matter which one it was. -/
theorem keepsGap_after_word
    {first second : List Char}
    (firstNonempty : first ≠ [])
    (secondNonempty : second ≠ [])
    (firstPlain : ∀ character ∈ first, endsWord character = false)
    (secondPlain : ∀ character ∈ second, endsWord character = false)
    (last same : Option Char)
    (depth : Nat)
    (after : Char) :
    keepsGap depth (first.getLast?.or last) after =
      keepsGap depth (second.getLast?.or same) after := by
  rw [List.getLast?_eq_some_getLast firstNonempty, List.getLast?_eq_some_getLast secondNonempty]
  exact keepsGap_before_plain depth (firstPlain _ (List.getLast_mem firstNonempty))
    (secondPlain _ (List.getLast_mem secondNonempty)) after

/-- The first character of an evenly spaced text is white space only if it stays so, and otherwise a
blank before it is kept as before. -/
theorem Cut.exists_head_respelled
    {scan : Scan}
    {list : List Piece}
    (cut : Cut scan list)
    {last : Option Char}
    (even : EvenlySpacedFrom scan last (list.flatMap Piece.characters))
    {after : Char}
    (starts : (list.flatMap Piece.characters).head? = some after)
    (solid : isBlank after = false) :
    ∃ first, ((list.map Piece.respelled).flatMap Piece.characters).head? = some first ∧
      isBlank first = false ∧
      ∀ depth before, keepsGap depth before first = keepsGap depth before after := by
  cases cut with
  | nil => cases starts
  | mark => exact ⟨after, starts, solid, fun _ _ => rfl⟩
  | @word _ characters rest unquoted nonempty plain ends others =>
      have noBlank := ((evenlySpacedFrom_word_append unquoted plain last _).mp even).1
      obtain ⟨filled, respelledPlain⟩ :=
        respellWord_keeps scan.depth nonempty (fun _ solid => solid.1) plain
      obtain ⟨-, respelledSolid⟩ :=
        respellWord_keeps scan.depth nonempty (fun _ solid => solid.2) noBlank
      obtain ⟨first, others, spelled⟩ := List.exists_cons_of_ne_nil filled
      have member : first ∈ respellWord scan.depth characters := spelled ▸ List.mem_cons_self
      have afterMember : after ∈ characters := by
        obtain ⟨head, tail, rfl⟩ := List.exists_cons_of_ne_nil nonempty
        obtain rfl := Option.some.inj starts
        exact List.mem_cons_self
      refine ⟨first, ?_, respelledSolid first member, fun depth before => ?_⟩
      · show (respellWord scan.depth characters ++ _).head? = some first
        rw [spelled]
        rfl
      · exact keepsGap_after_plain depth before (respelledPlain first member)
          (plain after afterMember)

/-- Respelling numbers keeps an even spacing. -/
theorem Cut.evenlySpacedFrom_respelled
    {scan : Scan}
    {list : List Piece}
    (cut : Cut scan list)
    {last same : Option Char}
    (alike : ∀ depth after, keepsGap depth last after = keepsGap depth same after)
    (even : EvenlySpacedFrom scan last (list.flatMap Piece.characters)) :
    EvenlySpacedFrom scan same ((list.map Piece.respelled).flatMap Piece.characters) := by
  induction cut generalizing last same with
  | nil => trivial
  | @word scan characters rest unquoted nonempty plain ends others inductionHypothesis =>
      rw [List.flatMap_cons] at even
      rw [List.map_cons, List.flatMap_cons]
      obtain ⟨noBlank, restEven⟩ := (evenlySpacedFrom_word_append unquoted plain last _).mp even
      obtain ⟨filled, respelledPlain⟩ :=
        respellWord_keeps scan.depth nonempty (fun _ solid => solid.1) plain
      obtain ⟨-, respelledSolid⟩ :=
        respellWord_keeps scan.depth nonempty (fun _ solid => solid.2) noBlank
      refine (evenlySpacedFrom_word_append unquoted respelledPlain same _).mpr
        ⟨respelledSolid, inductionHypothesis ?_ restEven⟩
      exact keepsGap_after_word nonempty filled plain respelledPlain last same
  | @mark scan character rest marks others inductionHypothesis =>
      change EvenlySpacedFrom scan last (character :: rest.flatMap Piece.characters) at even
      show EvenlySpacedFrom scan same
        (character :: (rest.map Piece.respelled).flatMap Piece.characters)
      cases quoted : scan.quoted with
      | true =>
          rw [evenlySpacedFrom_quoted _ _ quoted] at even ⊢
          exact inductionHypothesis (fun _ _ => rfl) even
      | false =>
          cases blank : isBlank character with
          | false =>
              rw [evenlySpacedFrom_solid _ _ quoted blank] at even ⊢
              exact inductionHypothesis (fun _ _ => rfl) even
          | true =>
              rw [next_of_isBlank quoted blank] at others inductionHypothesis
              rw [evenlySpacedFrom_blank _ _ quoted blank] at even ⊢
              obtain ⟨isSpace, ⟨after, starts, solid, kept⟩, restEven⟩ := even
              obtain ⟨first, respelledStarts, firstSolid, sameGap⟩ :=
                others.exists_head_respelled restEven starts solid
              refine ⟨isSpace, ⟨first, respelledStarts, firstSolid, ?_⟩,
                inductionHypothesis alike restEven⟩
              rw [sameGap, ← alike]
              exact kept

/-- A text whose white space was reduced stays so when its numbers are respelled. -/
theorem collapseBlanks_respellNumbers
    (text : List Char) :
    collapseBlanks (respellNumbers (collapseBlanks text)) =
      respellNumbers (collapseBlanks text) := by
  have even := evenlySpacedFrom_collapseBlanksFrom Scan.start none false text
  rw [← collapseBlanks, ← characters_pieces (collapseBlanks text)] at even
  rw [respellNumbers_eq]
  exact collapseBlanksFrom_of_evenlySpaced
    ((cut_pieces _).evenlySpacedFrom_respelled (fun _ _ => rfl) even)

end AtomicCss.Wording
