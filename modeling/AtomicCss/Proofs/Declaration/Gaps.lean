import AtomicCss.Proofs.Declaration.Places
import AtomicCss.Proofs.Text.Words

/-!
Contract: what reducing white space keeps of a text, and what it makes of each gap.

Owns:
- the text without white space outside quotes, and its quoted regions, both of which are kept;
- the gaps between the characters that are kept, and the white space that stays in them;
- the places of white space in a text that was reduced.

Does not own: which other texts are reduced to the same one.
-/

namespace AtomicCss.Wording

open AtomicCss.Text

def isOutside (scan : Scan) : Bool :=
  !scan.quoted

private theorem isOutside_eq_true
    {scan : Scan}
    (unquoted : scan.quoted = false) :
    isOutside scan = true := by
  rw [isOutside, unquoted]
  rfl

/-! ## What is kept -/

private theorem withoutBlanksFrom_quoted
    {scan : Scan}
    (quoted : scan.quoted = true)
    (character : Char)
    (rest : List Char) :
    withoutBlanksFrom isOutside scan (character :: rest) =
      character :: withoutBlanksFrom isOutside (scan.next character) rest := by
  apply withoutBlanksFrom_kept
  simp [isOutside, quoted]

private theorem withoutBlanksFrom_outside
    {scan : Scan}
    (unquoted : scan.quoted = false)
    {character : Char}
    (blank : isBlank character = true)
    (rest : List Char) :
    withoutBlanksFrom isOutside scan (character :: rest) =
      withoutBlanksFrom isOutside scan rest := by
  rw [withoutBlanksFrom_blank (isOutside_eq_true unquoted) blank, next_of_isBlank unquoted blank]

theorem withoutBlanksFrom_collapseBlanksFrom
    (scan : Scan)
    (last : Option Char)
    (pending : Bool)
    (text : List Char) :
    withoutBlanksFrom isOutside scan (collapseBlanksFrom scan last pending text) =
      withoutBlanksFrom isOutside scan text := by
  induction text generalizing scan last pending with
  | nil => rfl
  | cons first rest inductionHypothesis =>
      cases quoted : scan.quoted with
      | true =>
          rw [collapseBlanksFrom_quoted last pending rest quoted, withoutBlanksFrom_quoted quoted,
            withoutBlanksFrom_quoted quoted, inductionHypothesis]
      | false =>
          cases blank : isBlank first with
          | true =>
              rw [collapseBlanksFrom_blank last pending rest quoted blank,
                withoutBlanksFrom_outside quoted blank, inductionHypothesis]
          | false =>
              have solid :
                  withoutBlanksFrom isOutside scan
                      (first :: collapseBlanksFrom (scan.next first) (some first) false rest) =
                    withoutBlanksFrom isOutside scan (first :: rest) := by
                rw [withoutBlanksFrom_kept fun _ => blank, withoutBlanksFrom_kept fun _ => blank,
                  inductionHypothesis]
              rw [collapseBlanksFrom_solid last pending rest quoted blank]
              split
              · rw [List.singleton_append, withoutBlanksFrom_outside quoted (by decide), solid]
              · exact solid

def quotedRegionsFrom (scan : Scan) (region : List Char) : List Char → List (List Char)
  | [] => if scan.quoted then [region] else []
  | character :: rest =>
    let after := scan.next character
    if after.quoted then quotedRegionsFrom after (region ++ [character]) rest
    else if scan.quoted then (region ++ [character]) :: quotedRegionsFrom after [] rest
    else quotedRegionsFrom after [] rest

/-- The quoted regions of a text in order, with their quotes. The last one may be open. -/
def quotedRegions (text : List Char) : List (List Char) :=
  quotedRegionsFrom Scan.start [] text

/-- White space outside quotes is in no quoted region. -/
theorem quotedRegionsFrom_withoutBlanksFrom
    {scan : Scan}
    {region : List Char}
    (closed : scan.quoted = false → region = [])
    (text : List Char) :
    quotedRegionsFrom scan region (withoutBlanksFrom isOutside scan text) =
      quotedRegionsFrom scan region text := by
  induction text generalizing scan region with
  | nil => rfl
  | cons first rest inductionHypothesis =>
      by_cases dropped : isOutside scan = true ∧ isBlank first = true
      · obtain ⟨outside, blank⟩ := dropped
        have unquoted : scan.quoted = false := by simpa [isOutside] using outside
        obtain rfl := closed unquoted
        rw [withoutBlanksFrom_outside unquoted blank, inductionHypothesis closed, quotedRegionsFrom,
          next_of_isBlank unquoted blank, unquoted]
        rfl
      · have kept (outside : isOutside scan = true) : isBlank first = false :=
          Bool.eq_false_iff.mpr fun blank => dropped ⟨outside, blank⟩
        rw [withoutBlanksFrom_kept kept, quotedRegionsFrom, quotedRegionsFrom]
        cases quoted : (scan.next first).quoted with
        | true => simp [inductionHypothesis, quoted]
        | false => simp [inductionHypothesis]

theorem quotedRegions_collapseBlanks
    (text : List Char) :
    quotedRegions (collapseBlanks text) = quotedRegions text := by
  have closed : Scan.start.quoted = false → ([] : List Char) = [] := fun _ => rfl
  have kept := withoutBlanksFrom_collapseBlanksFrom Scan.start none false text
  rw [quotedRegions, quotedRegions, ← quotedRegionsFrom_withoutBlanksFrom closed (collapseBlanks _),
    ← quotedRegionsFrom_withoutBlanksFrom closed text, collapseBlanks, kept]

/-! ## Gaps -/

/-- A gap between two characters outside quotes that are kept: the parentheses around it, the
characters, and whether white space stands between them. -/
structure Gap where
  depth : Nat
  left : Char
  right : Char
  blank : Bool
deriving DecidableEq, Repr

namespace Gap

/-- Whether a gap is inside parentheses, right after an opening one or a comma, or right before a
closing one or a comma. -/
def isTight (gap : Gap) : Bool :=
  0 < gap.depth &&
    (gap.left = '(' || gap.left = ',' || gap.right = ')' || gap.right = ',')

def reduced (gap : Gap) : Gap :=
  ⟨gap.depth, gap.left, gap.right, gap.blank && !gap.isTight⟩

end Gap

/-- `gaps` from a given place: the last character that was kept, and whether white space was read
after it. -/
def gapsFrom (scan : Scan) (last : Option Char) (blank : Bool) : List Char → List Gap
  | [] => []
  | character :: rest =>
    if scan.quoted then gapsFrom (scan.next character) (some character) blank rest
    else if isBlank character then gapsFrom (scan.next character) last true rest
    else
      let gap := last.map fun left => ⟨scan.depth, left, character, blank⟩
      gap.toList ++ gapsFrom (scan.next character) (some character) false rest

/-- The gaps of a text in order, one before each character outside quotes that is kept, but for the
first character. -/
def gaps (text : List Char) : List Gap :=
  gapsFrom Scan.start none false text

section Steps

variable {scan : Scan} {character : Char} (last : Option Char) (blank : Bool) (rest : List Char)

private theorem gapsFrom_quoted
    (quoted : scan.quoted = true) :
    gapsFrom scan last blank (character :: rest) =
      gapsFrom (scan.next character) (some character) blank rest := by
  rw [gapsFrom, if_pos quoted]

private theorem gapsFrom_blank
    (unquoted : scan.quoted = false)
    (isBlank : isBlank character = true) :
    gapsFrom scan last blank (character :: rest) = gapsFrom scan last true rest := by
  rw [gapsFrom, if_neg (by simp [unquoted]), if_pos isBlank, next_of_isBlank unquoted isBlank]

private theorem gapsFrom_solid
    (unquoted : scan.quoted = false)
    (solid : isBlank character = false) :
    gapsFrom scan last blank (character :: rest) =
      (last.map fun left => ⟨scan.depth, left, character, blank⟩).toList ++
        gapsFrom (scan.next character) (some character) false rest := by
  rw [gapsFrom, if_neg (by simp [unquoted]), if_neg (by simp [solid])]

end Steps

/-- White space is written in gaps that are not tight. -/
theorem keepsBlank_eq_not_isTight
    (depth : Nat)
    (left right : Char)
    (blank : Bool) :
    keepsBlank depth left right = !(Gap.mk depth left right blank).isTight := by
  rw [Bool.eq_iff_iff]
  simp only [keepsBlank, Gap.isTight, Bool.or_eq_true, decide_eq_true_eq, Bool.not_eq_true',
    Bool.and_eq_false_iff, Bool.or_eq_false_iff, decide_eq_false_iff_not]
  grind

/-- The gap before a character, with the white space that is written there. -/
theorem map_gap_reduced
    (depth : Nat)
    (last : Option Char)
    (pending : Bool)
    (right : Char) :
    (last.map fun left => Gap.mk depth left right (pending && keepsGap depth last right)) =
      (last.map fun left => Gap.mk depth left right pending).map Gap.reduced := by
  cases last with
  | none => rfl
  | some left =>
      simp only [Option.map_some, Gap.reduced, keepsGap,
        keepsBlank_eq_not_isTight depth left right pending]

/-- Reducing white space reduces each gap on its own. -/
theorem gapsFrom_collapseBlanksFrom
    (scan : Scan)
    (last : Option Char)
    (pending : Bool)
    (text : List Char) :
    gapsFrom scan last false (collapseBlanksFrom scan last pending text) =
      (gapsFrom scan last pending text).map Gap.reduced := by
  induction text generalizing scan last pending with
  | nil => rfl
  | cons first rest inductionHypothesis =>
      cases quoted : scan.quoted with
      | true =>
          rw [collapseBlanksFrom_quoted last pending rest quoted, gapsFrom_quoted _ _ _ quoted,
            gapsFrom_quoted _ _ _ quoted, inductionHypothesis]
      | false =>
          cases blank : isBlank first with
          | true =>
              rw [collapseBlanksFrom_blank last pending rest quoted blank, inductionHypothesis,
                gapsFrom_blank _ _ _ quoted blank]
          | false =>
              -- A blank that is written is read again as white space of the gap.
              have readAgain (written : Bool) (others : List Char) :
                  gapsFrom scan last false ((if written then [' '] else []) ++ first :: others) =
                    gapsFrom scan last written (first :: others) := by
                cases written with
                | true => exact gapsFrom_blank _ _ _ quoted (by decide)
                | false => rfl
              rw [collapseBlanksFrom_solid last pending rest quoted blank, readAgain,
                gapsFrom_solid _ _ _ quoted blank, gapsFrom_solid _ _ _ quoted blank,
                inductionHypothesis, map_gap_reduced, List.map_append, Option.toList_map]

/-! ## Single blanks -/

/-- Outside quotes, the only white space of a text are single blanks, each between two other
characters, and none in a tight gap. -/
def HasSingleBlanks (text : List Char) : Prop :=
  ∀ before character after, text = before ++ character :: after →
    (Scan.start.after before).quoted = false → isBlank character = true →
      character = ' ' ∧
        ∃ left right, before.getLast? = some left ∧ after.head? = some right ∧
          isBlank left = false ∧ isBlank right = false ∧
          (Gap.mk (Scan.start.after before).depth left right true).isTight = false

private theorem isBlank_eq_false_of_isQuote
    {character : Char}
    (quote : Scan.isQuote character = true) :
    isBlank character = false := by
  rcases quote_cases character with rfl | rfl | free
  · rfl
  · rfl
  · rw [quote] at free
    cases free

/-- A quoted region ends with a quote. -/
theorem IsProperScan.isQuote_of_unquoted_next
    {scan : Scan}
    (proper : IsProperScan scan)
    (quoted : scan.quoted = true)
    {character : Char}
    (ends : (scan.next character).quoted = false) :
    Scan.isQuote character = true := by
  rw [← Bool.not_eq_false]
  intro free
  rw [proper.next_of_quoted quoted free, quoted] at ends
  cases ends

/-- The white space of an evenly spaced text, at any place outside quotes. -/
theorem EvenlySpacedFrom.blank_at
    {scan : Scan}
    {last : Option Char}
    {before after : List Char}
    {character : Char}
    (even : EvenlySpacedFrom scan last (before ++ character :: after))
    (proper : IsProperScan scan)
    (lastSolid : scan.quoted = false → ∀ left ∈ last, isBlank left = false)
    (outside : (scan.after before).quoted = false)
    (blank : isBlank character = true) :
    character = ' ' ∧
      ∃ left right, before.getLast?.or last = some left ∧ after.head? = some right ∧
        isBlank left = false ∧ isBlank right = false ∧
        keepsBlank (scan.after before).depth left right = true := by
  induction before generalizing scan last with
  | nil =>
      obtain ⟨isSpace, ⟨right, starts, solid, kept⟩, -⟩ :=
        (evenlySpacedFrom_blank last after outside blank).mp even
      cases last with
      | none => cases kept
      | some left =>
          exact ⟨isSpace, left, right, rfl, starts, lastSolid outside left rfl, solid, kept⟩
  | cons first rest inductionHypothesis =>
      cases quoted : scan.quoted with
      | true =>
          rw [List.cons_append, evenlySpacedFrom_quoted _ _ quoted] at even
          rw [getLast?_cons_or]
          refine inductionHypothesis even (proper.next first) ?_ outside
          rintro ends _ ⟨⟩
          exact isBlank_eq_false_of_isQuote (proper.isQuote_of_unquoted_next quoted ends)
      | false =>
          cases firstBlank : isBlank first with
          | false =>
              rw [List.cons_append, evenlySpacedFrom_solid _ _ quoted firstBlank] at even
              rw [getLast?_cons_or]
              refine inductionHypothesis even (proper.next first) ?_ outside
              rintro - _ ⟨⟩
              exact firstBlank
          | true =>
              rw [List.cons_append, evenlySpacedFrom_blank _ _ quoted firstBlank] at even
              obtain ⟨-, ⟨right, starts, solid, -⟩, others⟩ := even
              have same : scan.next first = scan := next_of_isBlank quoted firstBlank
              have place : scan.after (first :: rest) = scan.after rest := by
                rw [Scan.after, List.foldl_cons, same, Scan.after]
              rw [place] at outside ⊢
              -- White space is not followed by white space, so something stands between.
              cases rest with
              | nil =>
                  obtain rfl : character = right := Option.some.inj starts
                  rw [blank] at solid
                  cases solid
              | cons second rest =>
                  have spaced := inductionHypothesis others proper lastSolid outside
                  rwa [List.getLast?_cons_cons]

theorem hasSingleBlanks_collapseBlanks
    (text : List Char) :
    HasSingleBlanks (collapseBlanks text) := by
  intro before character after split outside blank
  have even := evenlySpacedFrom_collapseBlanksFrom Scan.start none false text
  rw [← collapseBlanks, split] at even
  obtain ⟨isSpace, left, right, ends, starts, leftSolid, rightSolid, kept⟩ :=
    even.blank_at isProperScan_start (by simp) outside blank
  rw [keepsBlank_eq_not_isTight _ _ _ true, Bool.not_eq_true'] at kept
  rw [Option.or_none] at ends
  exact ⟨isSpace, left, right, ends, starts, leftSolid, rightSolid, kept⟩

end AtomicCss.Wording
