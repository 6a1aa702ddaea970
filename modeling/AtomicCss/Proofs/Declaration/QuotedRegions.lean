import AtomicCss.Proofs.Declaration.Quotes
import AtomicCss.Proofs.Text.Reading

/-!
Contract: which double-quoted regions of a text its one spelling keeps.

Owns:
- the double-quoted regions of a text, in the reading of the passes over it;
- that reducing white space and respelling numbers keep them;
- that making quotes double keeps those with at most one single quote inside, and spoils the others;
- the regions as parts of the spelled text, one after the other.

Does not own: single-quoted regions, whose quotes are to change.
-/

namespace AtomicCss.Wording

open AtomicCss.Text

/-! ## Regions -/

def doubleQuotedFrom (scan : Scan) (region : List Char) : List Char → List (List Char)
  | [] => if scan.quote = some '"' then [region] else []
  | character :: rest =>
    let after := scan.next character
    if after.quote = some '"' then doubleQuotedFrom after (region ++ [character]) rest
    else if scan.quote = some '"' then
      (region ++ [character]) :: doubleQuotedFrom after [] rest
    else doubleQuotedFrom after [] rest

/-- The double-quoted regions of a text in order, with their quotes. The last one may be open. -/
def doubleQuotedRegions (text : List Char) : List (List Char) :=
  doubleQuotedFrom Scan.start [] text

/-- Texts that stand in another one after the other, without a shared character. -/
def AppearInOrder : List (List Char) → List Char → Prop
  | [], _ => True
  | part :: parts, text =>
    ∃ before after, text = before ++ part ++ after ∧ AppearInOrder parts after

private theorem doubleQuotedFrom_congr
    {first second : Scan}
    (same : first.quote = second.quote)
    (region text : List Char) :
    doubleQuotedFrom first region text = doubleQuotedFrom second region text := by
  induction text generalizing first second region with
  | nil => rw [doubleQuotedFrom, doubleQuotedFrom, same]
  | cons character rest inductionHypothesis =>
      have next := quote_next_congr same character
      rw [doubleQuotedFrom, doubleQuotedFrom, same, next]
      simp only [inductionHypothesis next]

section Outside

variable {scan : Scan} (unquoted : scan.quoted = false)
include unquoted

/-- Outside quotes, what is no quote is in no region. -/
theorem doubleQuotedFrom_free
    {character : Char}
    (free : Scan.isQuote character = false)
    (rest : List Char) :
    doubleQuotedFrom scan [] (character :: rest) = doubleQuotedFrom scan [] rest := by
  have outside : scan.quote = none := by simpa [Scan.quoted] using unquoted
  have stays := quote_next_of_free outside free
  rw [doubleQuotedFrom]
  simp only [stays, outside, reduceCtorEq, if_false]
  exact doubleQuotedFrom_congr (stays.trans outside.symm) [] rest

theorem doubleQuotedFrom_free_append
    {text : List Char}
    (free : ∀ character ∈ text, Scan.isQuote character = false)
    (rest : List Char) :
    doubleQuotedFrom scan [] (text ++ rest) = doubleQuotedFrom scan [] rest := by
  induction text with
  | nil => rfl
  | cons first others inductionHypothesis =>
      obtain ⟨firstFree, othersFree⟩ := List.forall_mem_cons.mp free
      rw [List.cons_append, doubleQuotedFrom_free unquoted firstFree,
        inductionHypothesis othersFree]

end Outside

/-! ## Places of the reading -/

/-- Where a reading stands among quotes: outside, in single quotes, or in double quotes with the
region read so far. -/
inductive Reading where
  | outside
  | single
  | double (region : List Char)

namespace Reading

def scan : Reading → Scan
  | .outside => ⟨none, 0⟩
  | .single => ⟨some '\'', 0⟩
  | .double _ => ⟨some '"', 0⟩

def regions (reading : Reading) (text : List Char) : List (List Char) :=
  match reading with
  | .double region => doubleQuotedFrom reading.scan region text
  | _ => doubleQuotedFrom reading.scan [] text

section Steps

variable (region rest : List Char) {character : Char} {text : List Char}

theorem regions_outside_double :
    regions .outside ('"' :: rest) = regions (.double ['"']) rest :=
  rfl

private theorem regions_outside_single :
    regions .outside ('\'' :: rest) = regions .single rest :=
  rfl

theorem regions_outside_free
    (free : Scan.isQuote character = false) :
    regions .outside (character :: rest) = regions .outside rest :=
  doubleQuotedFrom_free rfl free rest

theorem regions_double_double :
    regions (.double region) ('"' :: rest) = (region ++ ['"']) :: regions .outside rest :=
  rfl

theorem regions_double_other
    (other : character ≠ '"') :
    regions (.double region) (character :: rest) =
      regions (.double (region ++ [character])) rest := by
  simp [regions, doubleQuotedFrom, scan, Scan.next, other]

private theorem regions_single_single :
    regions .single ('\'' :: rest) = regions .outside rest :=
  rfl

theorem regions_single_other
    (other : character ≠ '\'') :
    regions .single (character :: rest) = regions .single rest := by
  simp [regions, doubleQuotedFrom, scan, Scan.next, other]

private theorem regions_outside_append
    (free : ∀ character ∈ text, Scan.isQuote character = false) :
    regions .outside (text ++ rest) = regions .outside rest :=
  doubleQuotedFrom_free_append rfl free rest

private theorem regions_double_append
    (other : ∀ character ∈ text, character ≠ '"') :
    regions (.double region) (text ++ rest) = regions (.double (region ++ text)) rest := by
  induction text generalizing region with
  | nil => rw [List.nil_append, List.append_nil]
  | cons first others inductionHypothesis =>
      obtain ⟨firstOther, othersOther⟩ := List.forall_mem_cons.mp other
      rw [List.cons_append, regions_double_other _ _ firstOther, inductionHypothesis _ othersOther,
        List.append_assoc, List.singleton_append]

private theorem regions_single_append
    (other : ∀ character ∈ text, character ≠ '\'') :
    regions .single (text ++ rest) = regions .single rest := by
  induction text with
  | nil => rfl
  | cons first others inductionHypothesis =>
      obtain ⟨firstOther, othersOther⟩ := List.forall_mem_cons.mp other
      rw [List.cons_append, regions_single_other _ firstOther, inductionHypothesis othersOther]

end Steps

end Reading

/-! ## Making quotes double -/

def isKeptRegion (region : List Char) : Bool :=
  region.count '\'' ≤ 1

/-- A reading of a text, what is held while its quotes are made double, and a reading of the result,
which has not read what is held. -/
inductive Tracks : Reading → Option (List Char) → Reading → Prop where
  /-- Outside quotes in both. -/
  | outside : Tracks .outside none .outside
  /-- In the same region of both. -/
  | region {region : List Char} (whole : '\'' ∉ region) :
      Tracks (.double region) none (.double region)
  /-- In the same region of both, where a single quote is held. -/
  | heldRegion {region inner : List Char} (whole : '\'' ∉ region) (free : HeldFree (some inner)) :
      Tracks (.double (region ++ heldText (some inner))) (some inner) (.double region)
  /-- In a region that had two single quotes, and in some region of the result. -/
  | spoiled {region other : List Char} {held : Option (List Char)} (twice : 2 ≤ region.count '\'')
      (free : HeldFree held) : Tracks (.double region) held (.double other)
  /-- In single quotes, the first of which is held. -/
  | single {inner : List Char} (free : HeldFree (some inner)) : Tracks .single (some inner) .outside
  /-- In single quotes with a double quote inside, of which none is held. -/
  | mixed : Tracks .single none .single
  /-- After such single quotes, the second of which is held. -/
  | closed {inner : List Char} (free : HeldFree (some inner)) : Tracks .outside (some inner) .single

/-- One more character of the text: both readings go on, and a region that the first one leaves
whole is a region of the second. -/
def Tracks.GoesOn (reading : Reading) (held : Option (List Char)) (result : Reading)
    (character : Char) : Prop :=
  ∃ nextReading nextHeld nextResult regions resultRegions,
    Tracks nextReading nextHeld nextResult ∧
    (∀ rest, reading.regions (character :: rest) = regions ++ nextReading.regions rest) ∧
    (∀ rest, result.regions (doubleQuotesFrom held (character :: rest)) =
      resultRegions ++ nextResult.regions (doubleQuotesFrom nextHeld rest)) ∧
    (regions.filter isKeptRegion).Sublist resultRegions

section Emitted

variable {inner : List Char} (free : HeldFree (some inner)) (region rest : List Char)
include free

theorem HeldFree.ne_double :
    ∀ character ∈ inner.reverse, character ≠ '"' := by
  rintro character member rfl
  cases free inner rfl _ (List.mem_reverse.mp member)

theorem HeldFree.ne_single :
    ∀ character ∈ inner.reverse, character ≠ '\'' := by
  rintro character member rfl
  cases free inner rfl _ (List.mem_reverse.mp member)

theorem HeldFree.isQuote_reverse :
    ∀ character ∈ inner.reverse, Scan.isQuote character = false :=
  fun character member => free inner rfl character (List.mem_reverse.mp member)

/-- A held quote inside a region is written as it was read. -/
theorem Reading.regions_double_held :
    regions (.double region) ('\'' :: inner.reverse ++ '"' :: rest) =
      [region ++ heldText (some inner) ++ ['"']] ++ regions .outside rest := by
  have other : ∀ character ∈ heldText (some inner), character ≠ '"' :=
    List.forall_mem_cons.mpr ⟨by decide, free.ne_double⟩
  show regions (.double region) (heldText (some inner) ++ '"' :: rest) = _
  rw [regions_double_append _ _ other, regions_double_double]
  rfl

/-- Two single quotes inside a region end it and begin another one. -/
theorem Reading.regions_double_paired :
    regions (.double region) ('"' :: inner.reverse ++ '"' :: rest) =
      [region ++ ['"']] ++ regions (.double ['"']) rest := by
  rw [List.cons_append, regions_double_double, regions_outside_append _ free.isQuote_reverse,
    regions_outside_double]
  rfl

private theorem Reading.regions_outside_held :
    regions .outside ('\'' :: inner.reverse ++ '"' :: rest) = regions .single rest := by
  rw [List.cons_append, regions_outside_single, regions_single_append _ free.ne_single,
    regions_single_other _ (by decide)]

private theorem Reading.regions_outside_paired :
    regions .outside ('"' :: inner.reverse ++ '"' :: rest) =
      [['"'] ++ inner.reverse ++ ['"']] ++ regions .outside rest := by
  rw [List.cons_append, regions_outside_double, regions_double_append _ _ free.ne_double,
    regions_double_double]
  rfl

private theorem Reading.regions_single_held :
    regions .single ('\'' :: inner.reverse ++ '"' :: rest) = regions (.double ['"']) rest := by
  rw [List.cons_append, regions_single_single, regions_outside_append _ free.isQuote_reverse,
    regions_outside_double]

private theorem Reading.regions_single_paired :
    regions .single ('"' :: inner.reverse ++ '"' :: rest) = regions .single rest := by
  rw [List.cons_append, regions_single_other _ (by decide), regions_single_append _ free.ne_single,
    regions_single_other _ (by decide)]

end Emitted

namespace Tracks

variable {reading result : Reading} {held : Option (List Char)}

private theorem filter_of_spoiled
    {region : List Char}
    (twice : 2 ≤ region.count '\'')
    (others : List (List Char)) :
    ([region ++ ['"']].filter isKeptRegion).Sublist others := by
  have dropped : isKeptRegion (region ++ ['"']) = false := by
    simp only [isKeptRegion, List.count_append, decide_eq_false_iff_not]
    omega
  rw [List.filter_singleton, dropped]
  exact List.nil_sublist others

private theorem goesOn_double
    (tracks : Tracks reading held result) :
    GoesOn reading held result '"' := by
  cases tracks with
  | outside =>
      exact ⟨_, _, _, [], [], .region (by decide), fun _ => rfl, fun _ => rfl, .slnil⟩
  | @region region whole =>
      exact ⟨_, _, _, [_], [_], .outside, fun _ => rfl, fun _ => rfl, List.filter_sublist⟩
  | heldRegion whole free =>
      exact ⟨_, _, _, [_], [_], .outside, fun _ => rfl,
        fun _ => Reading.regions_double_held free _ _, List.filter_sublist⟩
  | @spoiled region other held twice free =>
      cases held with
      | none =>
          exact ⟨_, _, _, [_], [_], .outside, fun _ => rfl, fun _ => rfl, filter_of_spoiled twice _⟩
      | some inner =>
          exact ⟨_, _, _, [_], [_], .outside, fun _ => rfl,
            fun _ => Reading.regions_double_held free _ _, filter_of_spoiled twice _⟩
  | single free =>
      exact ⟨_, _, _, [], [], .mixed, fun _ => rfl,
        fun _ => Reading.regions_outside_held free _, .slnil⟩
  | mixed => exact ⟨_, _, _, [], [], .mixed, fun _ => rfl, fun _ => rfl, .slnil⟩
  | closed free =>
      exact ⟨_, _, _, [], [], .region (by decide), fun _ => rfl,
        fun _ => Reading.regions_single_held free _, .slnil⟩

private theorem goesOn_single
    (tracks : Tracks reading held result) :
    GoesOn reading held result '\'' := by
  cases tracks with
  | outside =>
      exact ⟨_, _, _, [], [], .single heldFree_nil, fun _ => rfl, fun _ => rfl, .slnil⟩
  | @region region whole =>
      exact ⟨_, _, _, [], [], .heldRegion whole heldFree_nil, fun _ => rfl, fun _ => rfl, .slnil⟩
  | @heldRegion region inner whole free =>
      have twice : 2 ≤ (region ++ heldText (some inner) ++ ['\'']).count '\'' := by
        simp only [heldText, List.count_append, List.count_cons_self]
        omega
      exact ⟨_, _, _, [], [_], .spoiled twice heldFree_none, fun _ => rfl,
        fun _ => Reading.regions_double_paired free _ _, List.nil_sublist _⟩
  | @spoiled region other held twice free =>
      have stillTwice : 2 ≤ (region ++ ['\'']).count '\'' := by
        rw [List.count_append]
        omega
      cases held with
      | none =>
          exact ⟨_, _, _, [], [], .spoiled stillTwice heldFree_nil, fun _ => rfl, fun _ => rfl,
            .slnil⟩
      | some inner =>
          exact ⟨_, _, _, [], [_], .spoiled stillTwice heldFree_none, fun _ => rfl,
            fun _ => Reading.regions_double_paired free _ _, List.nil_sublist _⟩
  | single free =>
      exact ⟨_, _, _, [], [_], .outside, fun _ => rfl,
        fun _ => Reading.regions_outside_paired free _, List.nil_sublist _⟩
  | mixed => exact ⟨_, _, _, [], [], .closed heldFree_nil, fun _ => rfl, fun _ => rfl, .slnil⟩
  | closed free =>
      exact ⟨_, _, _, [], [], .mixed, fun _ => rfl,
        fun _ => Reading.regions_single_paired free _, .slnil⟩

private theorem goesOn_free
    (tracks : Tracks reading held result)
    {character : Char}
    (freeToo : Scan.isQuote character = false) :
    GoesOn reading held result character := by
  have notDouble : character ≠ '"' := by
    rintro rfl
    cases freeToo
  have notSingle : character ≠ '\'' := by
    rintro rfl
    cases freeToo
  have inDouble (region rest : List Char) :=
    Reading.regions_double_other region rest notDouble
  have written (reading : Reading) (rest : List Char) :
      reading.regions (doubleQuotesFrom none (character :: rest)) =
        reading.regions (character :: doubleQuotesFrom none rest) := by
    rw [doubleQuotesFrom_none_free rest freeToo]
  have waiting (reading : Reading) (inner rest : List Char) :
      reading.regions (doubleQuotesFrom (some inner) (character :: rest)) =
        reading.regions (doubleQuotesFrom (some (character :: inner)) rest) := by
    rw [doubleQuotesFrom_some_free inner rest freeToo]
  cases tracks with
  | outside =>
      exact ⟨_, _, _, [], [], .outside, fun rest => Reading.regions_outside_free rest freeToo,
        fun rest => (written _ rest).trans (Reading.regions_outside_free _ freeToo), .slnil⟩
  | @region region whole =>
      have wholeToo : '\'' ∉ region ++ [character] := by
        simp [whole, Ne.symm notSingle]
      exact ⟨_, _, _, [], [], .region wholeToo, inDouble region,
        fun rest => (written _ rest).trans (inDouble region _), .slnil⟩
  | @heldRegion region inner whole free =>
      have longer : region ++ heldText (some inner) ++ [character] =
          region ++ heldText (some (character :: inner)) := by
        simp [heldText]
      refine ⟨_, _, _, [], [], .heldRegion whole (free.cons freeToo), fun rest => ?_,
        waiting _ inner, .slnil⟩
      rw [inDouble, longer]
      rfl
  | @spoiled region other held twice free =>
      have stillTwice : 2 ≤ (region ++ [character]).count '\'' := by
        rw [List.count_append]
        omega
      cases held with
      | none =>
          exact ⟨_, _, _, [], [], .spoiled stillTwice heldFree_none, inDouble region,
            fun rest => (written _ rest).trans (inDouble other _), .slnil⟩
      | some inner =>
          exact ⟨_, _, _, [], [], .spoiled stillTwice (free.cons freeToo), inDouble region,
            waiting _ inner, .slnil⟩
  | @single inner free =>
      exact ⟨_, _, _, [], [], .single (free.cons freeToo),
        fun rest => Reading.regions_single_other rest notSingle, waiting _ inner, .slnil⟩
  | mixed =>
      exact ⟨_, _, _, [], [], .mixed, fun rest => Reading.regions_single_other rest notSingle,
        fun rest => (written _ rest).trans (Reading.regions_single_other _ notSingle), .slnil⟩
  | @closed inner free =>
      exact ⟨_, _, _, [], [], .closed (free.cons freeToo),
        fun rest => Reading.regions_outside_free rest freeToo, waiting _ inner, .slnil⟩

/-- At the end of the text, an open region that is whole is one of the result. -/
theorem sublist_at_end
    (tracks : Tracks reading held result) :
    ((reading.regions []).filter isKeptRegion).Sublist
      (result.regions (doubleQuotesFrom held [])) := by
  cases tracks with
  | outside | single _ | mixed | closed _ => exact List.nil_sublist _
  | region whole => exact List.filter_sublist
  | @heldRegion region inner whole free =>
      have other : ∀ character ∈ heldText (some inner), character ≠ '"' :=
        List.forall_mem_cons.mpr ⟨by decide, free.ne_double⟩
      have read := Reading.regions_double_append region [] other
      rw [List.append_nil] at read
      show List.Sublist _ (Reading.regions (.double region) (heldText (some inner)))
      rw [read]
      exact List.filter_sublist
  | @spoiled region other held twice free =>
      have dropped : isKeptRegion region = false := by
        simp only [isKeptRegion, decide_eq_false_iff_not]
        omega
      show ([region].filter isKeptRegion).Sublist _
      rw [List.filter_singleton, dropped]
      exact List.nil_sublist _

/-- The regions that are whole are regions of the result. -/
theorem sublist
    (tracks : Tracks reading held result)
    (text : List Char) :
    ((reading.regions text).filter isKeptRegion).Sublist
      (result.regions (doubleQuotesFrom held text)) := by
  induction text generalizing reading held result with
  | nil => exact tracks.sublist_at_end
  | cons character rest inductionHypothesis =>
      have goesOn : GoesOn reading held result character := by
        rcases quote_cases character with rfl | rfl | free
        · exact tracks.goesOn_double
        · exact tracks.goesOn_single
        · exact tracks.goesOn_free free
      obtain ⟨_, _, _, regions, resultRegions, next, read, resultRead, kept⟩ := goesOn
      rw [read, resultRead, List.filter_append]
      exact kept.append (inductionHypothesis next)

end Tracks

private theorem doubleQuotedRegions_doubleQuotes
    (text : List Char) :
    ((doubleQuotedRegions text).filter isKeptRegion).Sublist
      (doubleQuotedRegions (doubleQuotes text)) :=
  Tracks.outside.sublist text

/-! ## Other passes -/

/-- The regions of two texts that start alike. -/
theorem doubleQuotedFrom_cons_congr
    {scan : Scan}
    {character : Char}
    {first second : List Char}
    (same : ∀ region, ((scan.next character).quoted = false → region = []) →
      doubleQuotedFrom (scan.next character) region first =
        doubleQuotedFrom (scan.next character) region second)
    (region : List Char) :
    doubleQuotedFrom scan region (character :: first) =
      doubleQuotedFrom scan region (character :: second) := by
  rw [doubleQuotedFrom, doubleQuotedFrom]
  split
  · rename_i inside
    apply same
    intro unquoted
    rw [Scan.quoted, inside] at unquoted
    cases unquoted
  · rw [same [] fun _ => rfl]

/-- Reducing white space keeps the regions. -/
theorem doubleQuotedFrom_collapseBlanksFrom
    {scan : Scan}
    {region : List Char}
    (idle : scan.quoted = false → region = [])
    (last : Option Char)
    (pending : Bool)
    (text : List Char) :
    doubleQuotedFrom scan region (collapseBlanksFrom scan last pending text) =
      doubleQuotedFrom scan region text := by
  induction text generalizing scan region last pending with
  | nil => rfl
  | cons first rest inductionHypothesis =>
      have kept (gap : Bool) (read : List Char) :
          doubleQuotedFrom scan read
              (first :: collapseBlanksFrom (scan.next first) (some first) gap rest) =
            doubleQuotedFrom scan read (first :: rest) :=
        doubleQuotedFrom_cons_congr (fun _ stillIdle => inductionHypothesis stillIdle _ _) read
      cases quoted : scan.quoted with
      | true =>
          rw [collapseBlanksFrom_quoted last pending rest quoted]
          exact kept pending region
      | false =>
          obtain rfl := idle quoted
          cases blank : isBlank first with
          | true =>
              rw [collapseBlanksFrom_blank last pending rest quoted blank,
                doubleQuotedFrom_free quoted (isQuote_of_isBlank blank)]
              exact inductionHypothesis (fun _ => rfl) _ _
          | false =>
              have gapFree (gap : Bool) :
                  ∀ character ∈ (if gap = true then [' '] else []),
                    Scan.isQuote character = false := by
                cases gap with
                | false => simp
                | true => exact fun _ member => List.mem_singleton.mp member ▸ rfl
              rw [collapseBlanksFrom_solid last pending rest quoted blank,
                doubleQuotedFrom_free_append quoted (gapFree _)]
              exact kept false []

/-- Respelling numbers keeps the regions. -/
theorem Cut.doubleQuotedFrom_respelled
    {scan : Scan}
    {list : List Piece}
    (cut : Cut scan list)
    {region : List Char}
    (idle : scan.quoted = false → region = []) :
    doubleQuotedFrom scan region ((list.map Piece.respelled).flatMap Piece.characters) =
      doubleQuotedFrom scan region (list.flatMap Piece.characters) := by
  induction cut generalizing region with
  | nil => rfl
  | @mark scan character rest marks others inductionHypothesis =>
      exact doubleQuotedFrom_cons_congr (fun _ stillIdle => inductionHypothesis stillIdle) region
  | @word scan characters rest unquoted nonempty plain ends others inductionHypothesis =>
      obtain rfl := idle unquoted
      obtain ⟨-, kept⟩ := respellWord_keeps scan.depth nonempty (fun _ solid => solid.1) plain
      rw [List.map_cons, List.flatMap_cons, List.flatMap_cons]
      have respelledFree := fun character member =>
        isQuote_of_endsWord_eq_false (kept character member)
      have free := fun character member => isQuote_of_endsWord_eq_false (plain character member)
      refine (doubleQuotedFrom_free_append unquoted respelledFree _).trans ?_
      refine Eq.trans ?_ (doubleQuotedFrom_free_append unquoted free _).symm
      exact inductionHypothesis fun _ => rfl

private theorem doubleQuotedRegions_respellNumbers_spaced
    (text : List Char) :
    doubleQuotedRegions (respellNumbers (spaced text)) =
      doubleQuotedRegions (doubleQuotes text) := by
  have idle : Scan.start.quoted = false → ([] : List Char) = [] := fun _ => rfl
  rw [doubleQuotedRegions, respellNumbers_eq, (cut_pieces _).doubleQuotedFrom_respelled idle,
    characters_pieces, spaced, collapseBlanks, doubleQuotedFrom_collapseBlanksFrom idle]
  rfl

/-! ## Regions in the text -/

namespace AppearInOrder

variable {parts : List (List Char)} {text : List Char}

theorem after
    (before : List Char)
    (appear : AppearInOrder parts text) :
    AppearInOrder parts (before ++ text) := by
  cases parts with
  | nil => trivial
  | cons part others =>
      obtain ⟨start, rest, rfl, restAppear⟩ := appear
      exact ⟨before ++ start, rest, by simp only [List.append_assoc], restAppear⟩

private theorem sublist
    {fewer : List (List Char)}
    (sublist : fewer.Sublist parts)
    (appear : AppearInOrder parts text) :
    AppearInOrder fewer text := by
  induction sublist generalizing text with
  | slnil => trivial
  | cons part _ inductionHypothesis =>
      obtain ⟨before, rest, rfl, restAppear⟩ := appear
      exact (inductionHypothesis restAppear).after (before ++ part)
  | cons_cons part _ inductionHypothesis =>
      obtain ⟨before, rest, rfl, restAppear⟩ := appear
      exact ⟨before, rest, rfl, inductionHypothesis restAppear⟩

private theorem isInfix
    (appear : AppearInOrder parts text)
    {part : List Char}
    (member : part ∈ parts) :
    part <:+: text := by
  induction parts generalizing text with
  | nil => cases member
  | cons first others inductionHypothesis =>
      obtain ⟨before, rest, rfl, restAppear⟩ := appear
      rcases List.mem_cons.mp member with rfl | later
      · exact ⟨before, rest, rfl⟩
      · exact (inductionHypothesis restAppear later).trans (List.suffix_append _ _).isInfix

end AppearInOrder

/-- The regions of a text appear in it. -/
theorem appearInOrder_doubleQuotedFrom
    {scan : Scan}
    {region : List Char}
    (text : List Char) :
    AppearInOrder (doubleQuotedFrom scan region text) (region ++ text) := by
  induction text generalizing scan region with
  | nil =>
      rw [doubleQuotedFrom]
      split
      · exact ⟨[], [], by simp, trivial⟩
      · trivial
  | cons character rest inductionHypothesis =>
      rw [doubleQuotedFrom]
      have moved : region ++ character :: rest = (region ++ [character]) ++ rest := by simp
      have others : AppearInOrder (doubleQuotedFrom (scan.next character) [] rest) rest :=
        inductionHypothesis
      split
      · rw [moved]
        exact inductionHypothesis
      · split
        · exact ⟨[], rest, by simp, others⟩
        · rw [moved]
          exact others.after _

/-- A region: a double quote, characters that are none, and a double quote unless the text ends. -/
def IsRegion (region : List Char) : Prop :=
  ∃ inner closing, region = '"' :: inner ++ closing ∧ '"' ∉ inner ∧ (closing = [] ∨ closing = ['"'])

/-- An open region has been read from its quote on. -/
def Reading.IsProper : Reading → Prop
  | .double region => ∃ inner, region = '"' :: inner ∧ '"' ∉ inner
  | _ => True

private theorem Reading.isProper_outside :
    IsProper .outside :=
  trivial

private theorem Reading.isProper_single :
    IsProper .single :=
  trivial

private theorem Reading.isProper_double
    {inner : List Char}
    (inside : '"' ∉ inner) :
    IsProper (.double ('"' :: inner)) :=
  ⟨inner, rfl, inside⟩

private theorem Reading.isRegion_of_mem
    {reading : Reading}
    (proper : reading.IsProper)
    {text region : List Char}
    (member : region ∈ reading.regions text) :
    IsRegion region := by
  induction text generalizing reading with
  | nil =>
      cases reading with
      | outside | single => cases member
      | double read =>
          obtain ⟨inner, rfl, inside⟩ := proper
          obtain rfl := List.mem_singleton.mp member
          exact ⟨inner, [], (List.append_nil _).symm, inside, .inl rfl⟩
  | cons character rest inductionHypothesis =>
      cases reading with
      | outside =>
          rcases quote_cases character with rfl | rfl | free
          · exact inductionHypothesis (isProper_double List.not_mem_nil) member
          · exact inductionHypothesis isProper_single member
          · rw [regions_outside_free rest free] at member
            exact inductionHypothesis isProper_outside member
      | single =>
          by_cases closes : character = '\''
          · subst closes
            exact inductionHypothesis isProper_outside member
          · rw [regions_single_other rest closes] at member
            exact inductionHypothesis isProper_single member
      | double read =>
          obtain ⟨inner, rfl, inside⟩ := proper
          by_cases closes : character = '"'
          · subst closes
            rw [regions_double_double, List.mem_cons] at member
            rcases member with rfl | later
            · exact ⟨inner, ['"'], rfl, inside, .inr rfl⟩
            · exact inductionHypothesis isProper_outside later
          · rw [regions_double_other _ rest closes] at member
            have insideToo : '"' ∉ inner ++ [character] := by
              simp [inside, Ne.symm closes]
            exact inductionHypothesis (isProper_double insideToo) member

/-- Inside a region there are single quotes only. -/
theorem quotesOf_of_not_mem
    {inner : List Char}
    (inside : '"' ∉ inner) :
    quotesOf inner = List.replicate (inner.count '\'') '\'' := by
  rw [← List.filter_eq, quotesOf]
  apply List.filter_congr
  intro character member
  have notDouble : character ≠ '"' := by
    rintro rfl
    exact inside member
  simp [Scan.isQuote, notDouble]

/-- A region with two single quotes stands in no text whose quotes are settled. -/
theorem IsRegion.not_isInfix
    {region : List Char}
    (isRegion : IsRegion region)
    (twice : 2 ≤ region.count '\'')
    {text : List Char}
    (settled : QuotesSettled text) :
    ¬region <:+: text := by
  intro within
  obtain ⟨inner, closing, rfl, inside, closes⟩ := isRegion
  have innerTwice : 2 ≤ inner.count '\'' := by
    rcases closes with rfl | rfl
    · simpa using twice
    · simpa using twice
  have chain : (quotesOf ('"' :: inner ++ closing)).IsChain ApartQuotes :=
    List.IsChain.infix settled (within.filter _)
  obtain ⟨more, lengthIs⟩ := Nat.exists_eq_add_of_le innerTwice
  have quotes : quotesOf ('"' :: inner ++ closing) =
      '"' :: '\'' :: '\'' :: (List.replicate more '\'' ++ quotesOf closing) := by
    rw [List.cons_append, ← List.singleton_append, quotesOf_append, quotesOf_append,
      quotesOf_of_not_mem inside, lengthIs, Nat.add_comm, List.replicate_succ,
      List.replicate_succ]
    rfl
  rw [quotes, List.isChain_cons_cons, List.isChain_cons_cons] at chain
  exact chain.2.1 ⟨rfl, rfl⟩

/-! ## The one spelling -/

/-- Which quoted text the one spelling of a text keeps. For every property but content and every
text, a double-quoted region of the text stands in its spelling, character by character, just if it
has at most one single quote; those that do stand there in order. So all regions are kept in order
just if none has two single quotes. -/
theorem double_quoted_regions_kept_iff
    {property : String}
    (other : property ≠ "content")
    (text : String) :
    let regions := doubleQuotedRegions text.toList
    let spelled := (canonical property text).toList
    (∀ region ∈ regions, region <:+: spelled ↔ region.count '\'' ≤ 1) ∧
      AppearInOrder (regions.filter fun region => region.count '\'' ≤ 1) spelled ∧
      (AppearInOrder regions spelled ↔ ∀ region ∈ regions, region.count '\'' ≤ 1) := by
  intro regions spelled
  have spelledIs : spelled = respellNumbers (spaced text.toList) := by
    rw [show spelled = (canonical property text).toList from rfl, canonical, String.toList_ofList,
      canonicalChars, if_neg other]
  have settled : QuotesSettled spelled := by
    rw [spelledIs]
    exact quotesSettled_respellNumbers_spaced text.toList
  have kept : AppearInOrder (regions.filter isKeptRegion) spelled := by
    have appear : AppearInOrder (doubleQuotedRegions spelled) spelled :=
      appearInOrder_doubleQuotedFrom spelled
    rw [spelledIs, doubleQuotedRegions_respellNumbers_spaced] at appear
    rw [spelledIs]
    exact appear.sublist (doubleQuotedRegions_doubleQuotes text.toList)
  have each (region : List Char) (member : region ∈ regions) :
      region <:+: spelled ↔ region.count '\'' ≤ 1 := by
    constructor
    · intro within
      by_contra twice
      have isRegion := Reading.isRegion_of_mem Reading.isProper_outside member
      exact isRegion.not_isInfix (by omega) settled within
    · intro once
      exact kept.isInfix (List.mem_filter.mpr ⟨member, by simpa [isKeptRegion] using once⟩)
  refine ⟨each, kept, ?_⟩
  constructor
  · intro appear region member
    exact (each region member).mp (appear.isInfix member)
  · intro all
    have unfiltered : regions.filter isKeptRegion = regions := by
      rw [List.filter_eq_self]
      intro region member
      simpa [isKeptRegion] using all region member
    rw [← unfiltered]
    exact kept

/-- Of two quoted font names, the one with a pair of single quotes falls apart. -/
theorem paired_quotes_fall_apart :
    let text := "\"Rock 'n' Roll\", \"it's  0.50PX\""
    let spelled := canonical "font-family" text
    "font-family" ≠ "content" ∧
      doubleQuotedRegions text.toList =
        ["\"Rock 'n' Roll\"".toList, "\"it's  0.50PX\"".toList] ∧
      spelled = "\"Rock \"n\" Roll\", \"it's  0.50PX\"" ∧
      ¬"\"Rock 'n' Roll\"".toList <:+: spelled.toList ∧
      "\"it's  0.50PX\"".toList <:+: spelled.toList := by
  intro text spelled
  have other : "font-family" ≠ "content" := by decide
  have regions :
      doubleQuotedRegions text.toList =
        ["\"Rock 'n' Roll\"".toList, "\"it's  0.50PX\"".toList] := by
    decide +kernel
  obtain ⟨each, -⟩ := double_quoted_regions_kept_iff other text
  rw [regions, List.forall_mem_cons, List.forall_mem_singleton] at each
  exact ⟨other, regions, by decide +kernel, each.1.not.mpr (by decide), each.2.mpr (by decide)⟩

end AtomicCss.Wording
