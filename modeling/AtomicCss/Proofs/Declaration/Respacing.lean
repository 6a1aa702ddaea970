import AtomicCss.Proofs.Declaration.Gaps
import Mathlib.Logic.Relation

/-!
Contract: which texts differ only in white space that does not matter.

Owns:
- the changes of white space that do not matter, one at a time and in turn;
- that reducing white space is made of such changes, and does not see them;
- the whole statement on reducing white space.

Does not own: other changes that lead to one spelling.
-/

namespace AtomicCss.Wording

open AtomicCss.Text

def AreBlank (text : List Char) : Prop :=
  ∀ character ∈ text, isBlank character = true

/-- One change of white space outside quotes that does not matter: of its kind and amount, and also
whether there is any at the start of a text, at its end, and inside parentheses right after an
opening one or a comma or right before a closing one or a comma. -/
inductive RespacedOnce : List Char → List Char → Prop where
  | amount {before first second after : List Char}
      (outside : (Scan.start.after before).quoted = false)
      (firstBlank : AreBlank first) (secondBlank : AreBlank second)
      (firstSome : first ≠ []) (secondSome : second ≠ []) :
      RespacedOnce (before ++ (first ++ after)) (before ++ (second ++ after))
  | start {first second after : List Char}
      (firstBlank : AreBlank first) (secondBlank : AreBlank second) :
      RespacedOnce (first ++ after) (second ++ after)
  | finish {before first second : List Char}
      (outside : (Scan.start.after before).quoted = false)
      (firstBlank : AreBlank first) (secondBlank : AreBlank second) :
      RespacedOnce (before ++ first) (before ++ second)
  | tight {before first second after : List Char}
      (outside : (Scan.start.after before).quoted = false)
      (firstBlank : AreBlank first) (secondBlank : AreBlank second)
      (inside : 0 < (Scan.start.after before).depth)
      (beside : before.getLast? = some '(' ∨ before.getLast? = some ',' ∨
        after.head? = some ')' ∨ after.head? = some ',') :
      RespacedOnce (before ++ (first ++ after)) (before ++ (second ++ after))

def Respaced : List Char → List Char → Prop :=
  Relation.ReflTransGen RespacedOnce

theorem RespacedOnce.symm
    {text other : List Char}
    (step : RespacedOnce text other) :
    RespacedOnce other text := by
  cases step with
  | amount outside firstBlank secondBlank firstSome secondSome =>
      exact .amount outside secondBlank firstBlank secondSome firstSome
  | start firstBlank secondBlank => exact .start secondBlank firstBlank
  | finish outside firstBlank secondBlank => exact .finish outside secondBlank firstBlank
  | tight outside firstBlank secondBlank inside beside =>
      exact .tight outside secondBlank firstBlank inside beside

theorem Respaced.symm
    {text other : List Char}
    (respaced : Respaced text other) :
    Respaced other text := by
  induction respaced with
  | refl => exact .refl
  | tail _ step inductionHypothesis => exact .head step.symm inductionHypothesis

/-! ## Reading a part of a text -/

/-- The last character that was kept, after a text is read from a given place. -/
def lastKeptFrom (scan : Scan) (last : Option Char) : List Char → Option Char
  | [] => last
  | character :: rest =>
    lastKeptFrom (scan.next character)
      (if isOutside scan && isBlank character then last else some character) rest

private theorem lastKeptFrom_concat
    (scan : Scan)
    (last : Option Char)
    (text : List Char)
    {character : Char}
    (solid : isBlank character = false) :
    lastKeptFrom scan last (text ++ [character]) = some character := by
  induction text generalizing scan last with
  | nil => simp [lastKeptFrom, solid]
  | cons first rest inductionHypothesis => exact inductionHypothesis _ _

/-- After a part of a text, the reduction of the rest depends on that part only by the place of the
reading, the last character that was kept, and whether white space came after it. -/
theorem exists_collapseBlanksFrom_append
    (scan : Scan)
    (last : Option Char)
    (pending : Bool)
    (part : List Char) :
    ∃ written left, ∀ rest,
      collapseBlanksFrom scan last pending (part ++ rest) =
        written ++
          collapseBlanksFrom (scan.after part) (lastKeptFrom scan last part) left rest := by
  induction part generalizing scan last pending with
  | nil => exact ⟨[], pending, fun _ => rfl⟩
  | cons first others inductionHypothesis =>
      cases quoted : scan.quoted with
      | true =>
          obtain ⟨written, left, read⟩ := inductionHypothesis (scan.next first) (some first) pending
          refine ⟨first :: written, left, fun rest => ?_⟩
          rw [List.cons_append, collapseBlanksFrom_quoted last pending _ quoted, read, lastKeptFrom,
            isOutside, quoted]
          rfl
      | false =>
          cases blank : isBlank first with
          | true =>
              obtain ⟨written, left, read⟩ := inductionHypothesis scan last true
              refine ⟨written, left, fun rest => ?_⟩
              rw [List.cons_append, collapseBlanksFrom_blank last pending _ quoted blank, read,
                lastKeptFrom, isOutside, quoted, blank, Scan.after, Scan.after, List.foldl_cons,
                next_of_isBlank quoted blank]
              rfl
          | false =>
              obtain ⟨written, left, read⟩ :=
                inductionHypothesis (scan.next first) (some first) false
              refine ⟨(if pending && keepsGap scan.depth last first then [' '] else []) ++
                first :: written, left, fun rest => ?_⟩
              rw [List.cons_append, collapseBlanksFrom_solid last pending _ quoted blank, read,
                lastKeptFrom, blank, Bool.and_false, ← List.cons_append, ← List.append_assoc]
              rfl

/-- White space outside quotes is only remembered. -/
theorem collapseBlanksFrom_areBlank_append
    {scan : Scan}
    (unquoted : scan.quoted = false)
    {blanks : List Char}
    (areBlank : AreBlank blanks)
    (last : Option Char)
    (pending : Bool)
    (rest : List Char) :
    collapseBlanksFrom scan last pending (blanks ++ rest) =
      collapseBlanksFrom scan last (pending || !blanks.isEmpty) rest := by
  induction blanks generalizing pending with
  | nil => simp
  | cons first others inductionHypothesis =>
      obtain ⟨blank, othersBlank⟩ := List.forall_mem_cons.mp areBlank
      rw [List.cons_append, collapseBlanksFrom_blank last pending _ unquoted blank,
        inductionHypothesis othersBlank]
      simp

/-- White space is forgotten again where none is written before the next character. -/
theorem collapseBlanksFrom_forgets
    {scan : Scan}
    (unquoted : scan.quoted = false)
    {last : Option Char}
    {text : List Char}
    (tight : ∀ right, (text.dropWhile isBlank).head? = some right →
      keepsGap scan.depth last right = false)
    (pending : Bool) :
    collapseBlanksFrom scan last pending text = collapseBlanksFrom scan last false text := by
  cases text with
  | nil => rfl
  | cons first rest =>
      cases blank : isBlank first with
      | true =>
          rw [collapseBlanksFrom_blank last pending rest unquoted blank,
            collapseBlanksFrom_blank last false rest unquoted blank]
      | false =>
          have nothing : keepsGap scan.depth last first = false := by
            apply tight
            rw [List.dropWhile_cons_of_neg (by simp [blank])]
            rfl
          rw [collapseBlanksFrom_solid last pending rest unquoted blank,
            collapseBlanksFrom_solid last false rest unquoted blank, nothing, Bool.and_false,
            Bool.and_false]

/-! ## Changes that are not seen -/

/-- A change of white space is not seen if there was some before and after, or if white space is
forgotten there. -/
theorem collapseBlanks_eq_of_change
    (before after : List Char)
    {first second : List Char}
    (outside : (Scan.start.after before).quoted = false)
    (firstBlank : AreBlank first)
    (secondBlank : AreBlank second)
    (unseen : (first ≠ [] ∧ second ≠ []) ∨
      ∀ right, (after.dropWhile isBlank).head? = some right →
        keepsGap (Scan.start.after before).depth (lastKeptFrom Scan.start none before) right =
          false) :
    collapseBlanks (before ++ (first ++ after)) = collapseBlanks (before ++ (second ++ after)) := by
  obtain ⟨written, left, read⟩ :=
    exists_collapseBlanksFrom_append Scan.start none false before
  rw [collapseBlanks, collapseBlanks, read, read,
    collapseBlanksFrom_areBlank_append outside firstBlank,
    collapseBlanksFrom_areBlank_append outside secondBlank]
  rcases unseen with ⟨firstSome, secondSome⟩ | forgotten
  · rw [List.isEmpty_eq_false_iff.mpr firstSome, List.isEmpty_eq_false_iff.mpr secondSome]
  · rw [collapseBlanksFrom_forgets outside forgotten,
      collapseBlanksFrom_forgets outside forgotten (left || !second.isEmpty)]

/-- Inside parentheses, no white space is written after an opening one or a comma. -/
theorem keepsGap_eq_false_of_left
    {depth : Nat}
    (inside : 0 < depth)
    {left : Char}
    (opens : left = '(' ∨ left = ',')
    (right : Char) :
    keepsGap depth (some left) right = false := by
  have deep : depth ≠ 0 := Nat.ne_of_gt inside
  rcases opens with rfl | rfl
  · simp [keepsGap, keepsBlank, deep]
  · simp [keepsGap, keepsBlank, deep]

/-- Inside parentheses, no white space is written before a closing one or a comma. -/
theorem keepsGap_eq_false_of_right
    {depth : Nat}
    (inside : 0 < depth)
    (last : Option Char)
    {right : Char}
    (closes : right = ')' ∨ right = ',') :
    keepsGap depth last right = false := by
  have deep : depth ≠ 0 := Nat.ne_of_gt inside
  cases last with
  | none => rfl
  | some left =>
      rcases closes with rfl | rfl
      · simp [keepsGap, keepsBlank, deep]
      · simp [keepsGap, keepsBlank, deep]

private theorem collapseBlanks_eq_of_respacedOnce
    {text other : List Char}
    (step : RespacedOnce text other) :
    collapseBlanks text = collapseBlanks other := by
  cases step with
  | @amount before first second after outside firstBlank secondBlank firstSome secondSome =>
      exact collapseBlanks_eq_of_change before after outside firstBlank secondBlank
        (.inl ⟨firstSome, secondSome⟩)
  | @start first second after firstBlank secondBlank =>
      exact collapseBlanks_eq_of_change [] after rfl firstBlank secondBlank (.inr fun _ _ => rfl)
  | @finish before first second outside firstBlank secondBlank =>
      have same := collapseBlanks_eq_of_change before [] outside firstBlank secondBlank
        (.inr fun _ nothing => by cases nothing)
      rwa [List.append_nil, List.append_nil] at same
  | @tight before first second after outside firstBlank secondBlank inside beside =>
      have afterLeft {left : Char} (ends : before.getLast? = some left)
          (opens : left = '(' ∨ left = ',') (right : Char) :
          keepsGap (Scan.start.after before).depth (lastKeptFrom Scan.start none before) right =
            false := by
        have solid : isBlank left = false := by rcases opens with rfl | rfl <;> rfl
        obtain ⟨earlier, rfl⟩ := List.getLast?_eq_some_iff.mp ends
        rw [lastKeptFrom_concat _ _ _ solid]
        exact keepsGap_eq_false_of_left inside opens right
      have beforeRight {right : Char} (starts : after.head? = some right)
          (closes : right = ')' ∨ right = ',') (found : Char)
          (isFound : (after.dropWhile isBlank).head? = some found) :
          keepsGap (Scan.start.after before).depth (lastKeptFrom Scan.start none before) found =
            false := by
        have solid : isBlank right = false := by rcases closes with rfl | rfl <;> rfl
        obtain ⟨later, rfl⟩ := List.head?_eq_some_iff.mp starts
        rw [List.dropWhile_cons_of_neg (by simp [solid])] at isFound
        obtain rfl := Option.some.inj isFound
        exact keepsGap_eq_false_of_right inside _ closes
      apply collapseBlanks_eq_of_change before after outside firstBlank secondBlank
      rcases beside with ends | ends | starts | starts
      · exact .inr fun right _ => afterLeft ends (.inl rfl) right
      · exact .inr fun right _ => afterLeft ends (.inr rfl) right
      · exact .inr (beforeRight starts (.inl rfl))
      · exact .inr (beforeRight starts (.inr rfl))

/-! ## Reducing white space as changes -/

private theorem after_of_areBlank
    {scan : Scan}
    (unquoted : scan.quoted = false)
    {blanks : List Char}
    (areBlank : AreBlank blanks) :
    scan.after blanks = scan := by
  induction blanks with
  | nil => rfl
  | cons first rest inductionHypothesis =>
      obtain ⟨blank, restBlank⟩ := List.forall_mem_cons.mp areBlank
      rw [Scan.after, List.foldl_cons, next_of_isBlank unquoted blank]
      exact inductionHypothesis restBlank

/-- White space outside quotes is made what is written of it by one change that does not matter. -/
theorem respaced_gap
    {done blanks : List Char}
    (areBlank : AreBlank blanks)
    (outside : (Scan.start.after done).quoted = false)
    (right : Char)
    (rest : List Char) :
    Respaced (done ++ (blanks ++ right :: rest))
      (done ++
        ((if !blanks.isEmpty && keepsGap (Scan.start.after done).depth done.getLast? right
          then [' '] else []) ++ right :: rest)) := by
  by_cases nothing : blanks = []
  · subst nothing
    exact .refl
  · have some : blanks.isEmpty = false := List.isEmpty_eq_false_iff.mpr nothing
    cases kept : keepsGap (Scan.start.after done).depth done.getLast? right with
    | true =>
        rw [some]
        exact .single
          (.amount outside areBlank (List.forall_mem_singleton.mpr rfl) nothing (by simp))
    | false =>
        rw [Bool.and_false]
        cases ends : done.getLast? with
        | none =>
            obtain rfl := List.getLast?_eq_none_iff.mp ends
            exact .single (.start areBlank (List.forall_mem_nil _))
        | some left =>
            rw [ends] at kept
            simp only [keepsGap, keepsBlank, Bool.or_eq_false_iff, Bool.not_eq_false',
              Bool.or_eq_true, decide_eq_true_eq, decide_eq_false_iff_not] at kept
            obtain ⟨deep, beside⟩ := kept
            refine .single (.tight outside areBlank (List.forall_mem_nil _)
              (Nat.pos_of_ne_zero deep) ?_)
            rw [ends]
            simp only [Option.some.injEq, List.head?_cons]
            tauto

/-- Reducing the white space of a text, of which the first part is reduced already, is a number of
changes that do not matter. -/
theorem respaced_collapseBlanksFrom
    {done blanks : List Char}
    (areBlank : AreBlank blanks)
    (outside : blanks ≠ [] → (Scan.start.after done).quoted = false)
    (text : List Char) :
    Respaced (done ++ (blanks ++ text))
      (done ++
        collapseBlanksFrom (Scan.start.after done) done.getLast? (!blanks.isEmpty) text) := by
  induction text generalizing done blanks with
  | nil =>
      rw [List.append_nil, collapseBlanksFrom]
      by_cases nothing : blanks = []
      · subst nothing
        exact .refl
      · exact .single (.finish (outside nothing) areBlank (List.forall_mem_nil _))
  | cons first rest inductionHypothesis =>
      -- The next character joins what is done, after whatever is written before it.
      have goesOn {gap : List Char}
          (place : (Scan.start.after done).after gap = Scan.start.after done) :
          Respaced (done ++ (gap ++ first :: rest))
            (done ++ (gap ++ first :: collapseBlanksFrom ((Scan.start.after done).next first)
              (some first) false rest)) := by
        have noBlanks : AreBlank [] := List.forall_mem_nil _
        have step := @inductionHypothesis (done ++ (gap ++ [first])) [] noBlanks (absurd rfl)
        have reached :
            Scan.start.after (done ++ (gap ++ [first])) = (Scan.start.after done).next first := by
          rw [← place]
          simp [Scan.after]
        rw [reached] at step
        simpa using step
      cases quoted : (Scan.start.after done).quoted with
      | true =>
          obtain rfl : blanks = [] := by
            by_contra nothing
            rw [outside nothing] at quoted
            cases quoted
          rw [collapseBlanksFrom_quoted _ _ rest quoted]
          exact goesOn rfl
      | false =>
          cases blank : isBlank first with
          | true =>
              have moreBlank : AreBlank (blanks ++ [first]) :=
                List.forall_mem_append.mpr ⟨areBlank, List.forall_mem_singleton.mpr blank⟩
              have step := inductionHypothesis moreBlank fun _ => quoted
              rw [List.isEmpty_eq_false_iff.mpr (by simp), List.append_assoc] at step
              rw [collapseBlanksFrom_blank _ _ rest quoted blank]
              exact step
          | false =>
              rw [collapseBlanksFrom_solid _ _ rest quoted blank]
              refine (respaced_gap areBlank quoted first rest).trans (goesOn ?_)
              apply after_of_areBlank quoted
              split
              · exact List.forall_mem_singleton.mpr rfl
              · exact List.forall_mem_nil _

/-- Two texts differ only in white space that does not matter just if they are reduced to the same
text. -/
theorem respaced_iff
    (text other : List Char) :
    Respaced text other ↔ collapseBlanks text = collapseBlanks other := by
  have reducing (text : List Char) : Respaced text (collapseBlanks text) :=
    @respaced_collapseBlanksFrom [] [] (List.forall_mem_nil _) (absurd rfl) text
  constructor
  · intro respaced
    induction respaced with
    | refl => rfl
    | tail _ step inductionHypothesis =>
        exact inductionHypothesis.trans (collapseBlanks_eq_of_respacedOnce step)
  · intro same
    exact (reducing text).trans (same ▸ (reducing other).symm)

/-- Reducing white space changes white space only, and leads to one form. Whether or not quotes and
parentheses match, the text without white space outside quotes is kept, and so are the quoted
regions. What white space is left outside quotes are single blanks between two other characters, and
none in a tight gap; every other gap has one just if it had white space. Texts that differ only in
white space that does not matter are reduced to the same text, and no others are. -/
theorem reduced_white_space_is_canonical
    (text : List Char) :
    withoutBlanks isOutside (collapseBlanks text) = withoutBlanks isOutside text ∧
      quotedRegions (collapseBlanks text) = quotedRegions text ∧
      HasSingleBlanks (collapseBlanks text) ∧
      gaps (collapseBlanks text) = (gaps text).map Gap.reduced ∧
      ∀ other, Respaced text other ↔ collapseBlanks text = collapseBlanks other :=
  ⟨withoutBlanksFrom_collapseBlanksFrom Scan.start none false text,
    quotedRegions_collapseBlanks text, hasSingleBlanks_collapseBlanks text,
    gapsFrom_collapseBlanksFrom Scan.start none false text, respaced_iff text⟩

example :
    collapseBlanks " a )  rgb( 1 ,\t2 ) \"b  c".toList = "a ) rgb(1,2) \"b  c".toList := by
  decide

end AtomicCss.Wording
