import AtomicCss.Proofs.Declaration.ChainParts
import AtomicCss.Proofs.Declaration.NestedFallbacks
import AtomicCss.Proofs.Declaration.Pieces
import AtomicCss.Proofs.Text.Calls

/-!
Contract: references with a fallback of their own, in a chain that is folded.

Owns:
- well-formed references, with a fallback or without;
- texts whose references have a name and at most one fallback;
- the exact condition for a folded chain to consist of such texts;
- what is left of a folded chain where no variable has a value.

Does not own: references that are not well formed.
-/

namespace AtomicCss.Chain

open AtomicCss.Text

/-- A well-formed reference: the name of a variable and, if any, a fallback without commas at its
top level. -/
structure Reference where
  name : String
  fallback : Option String
  custom : startsWith "--" name = true
  plainName : name.toList.any Wording.endsWord = false
  properFallback : ∀ text ∈ fallback,
    text ≠ "" ∧ isMatched text.toList = true ∧ topCommas text.toList = 0

namespace Reference

def body (reference : Reference) : String :=
  match reference.fallback with
  | none => reference.name
  | some text => reference.name ++ "," ++ text

def text (reference : Reference) : String :=
  "var(" ++ reference.body ++ ")"

end Reference

/-- Every reference in a text has at most one comma between its arguments: a name and a fallback. -/
def HasProperCalls (text : String) : Prop :=
  ∀ arguments ∈ varCalls text.toList, topCommas arguments ≤ 1

/-- An entry that is no reference, with matching quotes and parentheses and without commas. -/
structure IsPlainEntry (entry : String) : Prop where
  notVariable : isVariable entry = false
  matched : isMatched entry.toList = true
  commaFree : ',' ∉ entry.toList

/-- What stands before the first comma outside quotes and parentheses, and what stands after it. -/
def splitAtComma (scan : Scan) : List Char → List Char × Option (List Char)
  | [] => ([], none)
  | character :: rest =>
    if scan.separates && character = ',' then ([], some rest)
    else
      let others := splitAtComma (scan.next character) rest
      (character :: others.1, others.2)

private theorem length_of_splitAtComma
    {scan : Scan}
    {text rest : List Char}
    (split : (splitAtComma scan text).2 = some rest) :
    rest.length < text.length := by
  induction text generalizing scan with
  | nil => cases split
  | cons first others inductionHypothesis =>
      rw [splitAtComma] at split
      split at split
      · obtain rfl := Option.some.inj split
        exact Nat.lt_succ_self _
      · exact (inductionHypothesis split).trans (Nat.lt_succ_self _)

/-- What is left of a text where some of the variables have values. A text that is one reference
gives way to the value of its variable or else to its fallback, which is all that follows the first
comma; any other text is left as it is. -/
def resolve (assignment : String → Option String) (text : List Char) : Option String :=
  if isVariable (String.ofList text) && isMatched (text.drop 4).dropLast then
    let parts := splitAtComma Scan.start (text.drop 4).dropLast
    match _split : parts.2 with
    | none => assignment (String.ofList parts.1)
    | some fallback => (assignment (String.ofList parts.1)).or (resolve assignment fallback)
  else some (String.ofList text)
termination_by text.length
decreasing_by
  have shorter := length_of_splitAtComma _split
  simp only [List.length_drop, List.length_dropLast] at shorter
  omega

/-- A word has nothing to match. -/
theorem isMatched_of_plain
    {text : List Char}
    (plain : ∀ character ∈ text, Wording.endsWord character = false) :
    isMatched text = true := by
  induction text with
  | nil => rfl
  | cons first rest inductionHypothesis =>
      obtain ⟨firstPlain, restPlain⟩ := List.forall_mem_cons.mp plain
      have stays : Scan.start.closes first = false := by
        rw [Scan.closes, Bool.and_eq_false_iff, decide_eq_false_iff_not]
        right
        rintro rfl
        cases firstPlain
      rw [isMatched, isMatchedFrom_cons, Wording.next_of_endsWord_eq_false rfl firstPlain]
      exact ⟨stays, inductionHypothesis restPlain⟩

/-! ## Bodies of references -/

namespace Reference

variable (reference : Reference)

private theorem endsWord_of_mem_name :
    ∀ character ∈ reference.name.toList, Wording.endsWord character = false := by
  simpa using reference.plainName

theorem isMatched_name :
    isMatched reference.name.toList = true :=
  isMatched_of_plain reference.endsWord_of_mem_name

theorem toList_body_of_fallback
    {fallback : String}
    (own : reference.fallback = some fallback) :
    reference.body.toList = reference.name.toList ++ ',' :: fallback.toList := by
  simp [body, own, String.toList_append]

theorem isMatched_body :
    isMatched reference.body.toList = true := by
  cases own : reference.fallback with
  | none => simpa [body, own] using reference.isMatched_name
  | some fallback =>
      rw [reference.toList_body_of_fallback own, isMatched_append_comma reference.isMatched_name]
      exact (reference.properFallback fallback own).2.1

/-- A reference has a comma of its own just if it has a fallback of its own. -/
theorem topCommas_body :
    topCommas reference.body.toList = if reference.fallback.isSome then 1 else 0 := by
  have name : topCommas reference.name.toList = 0 := by
    apply topCommasFrom_of_not_mem
    intro comma
    cases reference.endsWord_of_mem_name ',' comma
  cases own : reference.fallback with
  | none => simpa [body, own] using name
  | some fallback =>
      have proper := (reference.properFallback fallback own).2.2
      rw [reference.toList_body_of_fallback own, topCommas_append_comma reference.isMatched_name,
        name, proper]
      rfl

private theorem startsWith_body :
    startsWith "--" reference.body = true := by
  have named := reference.custom
  cases own : reference.fallback with
  | none => simpa [body, own] using named
  | some fallback =>
      rw [startsWith, List.isPrefixOf_iff_prefix] at named ⊢
      rw [reference.toList_body_of_fallback own]
      exact named.trans (List.prefix_append _ _)

end Reference

/-! ## Nested references -/

theorem toList_withFallback
    (body fallback : String) :
    (withFallback body fallback).toList =
      "var(".toList ++ (body.toList ++ ',' :: fallback.toList ++ [')']) := by
  simp [withFallback, String.toList_append]

theorem hasProperCalls_withFallback_iff
    (reference : Reference)
    {inner : String}
    (matched : isMatched inner.toList = true)
    (commaFree : topCommas inner.toList = 0) :
    HasProperCalls (withFallback reference.body inner) ↔
      reference.fallback = none ∧ HasProperCalls reference.body ∧ HasProperCalls inner := by
  have bodyMatched := reference.isMatched_body
  have joined : isMatched (reference.body.toList ++ ',' :: inner.toList) = true := by
    rw [isMatched_append_comma bodyMatched]
    exact matched
  unfold HasProperCalls
  rw [toList_withFallback, varCalls_var_append joined, varCalls_append_comma bodyMatched,
    List.forall_mem_cons, List.forall_mem_append, topCommas_append_comma bodyMatched, commaFree,
    reference.topCommas_body]
  cases reference.fallback with
  | none => simp
  | some fallback => simp

/-- The innermost text of nested references, or none: it has no commas, and quotes and parentheses
that match. -/
def IsPlainInner (inner : Option String) : Prop :=
  ∀ entry ∈ inner, IsPlainEntry entry

section Nest

variable {references : List Reference} {inner : Option String}

theorem nest_cons
    (body : String)
    {bodies : List String}
    (something : bodies ≠ [] ∨ inner ≠ none) :
    nest (body :: bodies) inner = withFallback body (nest bodies inner) := by
  cases bodies with
  | cons next more => rfl
  | nil =>
      cases inner with
      | some value => rfl
      | none => simp at something

theorem nest_singleton
    (reference : Reference) :
    nest [reference.body] none = reference.text := by
  rw [nest, if_pos reference.startsWith_body]
  rfl

theorem Reference.toList_text
    (reference : Reference) :
    reference.text.toList = "var(".toList ++ (reference.body.toList ++ [')']) := by
  simp [text, String.toList_append]

/-- By itself, a reference has proper calls if its fallback has. -/
theorem Reference.hasProperCalls_text_iff
    (reference : Reference) :
    HasProperCalls reference.text ↔ HasProperCalls reference.body := by
  have atMostOne : topCommas reference.body.toList ≤ 1 := by
    rw [reference.topCommas_body]
    split
    · exact le_rfl
    · exact Nat.zero_le 1
  unfold HasProperCalls
  rw [reference.toList_text, varCalls_var_append reference.isMatched_body, List.forall_mem_cons,
    and_iff_right atMostOne]

/-- Nested references match, and have no comma outside their parentheses. -/
theorem isMatched_nest
    (something : references ≠ [] ∨ inner ≠ none)
    (plain : IsPlainInner inner) :
    isMatched (nest (references.map Reference.body) inner).toList = true ∧
      topCommas (nest (references.map Reference.body) inner).toList = 0 := by
  induction references with
  | nil =>
      cases inner with
      | none => simp at something
      | some value =>
          have isPlain := plain value rfl
          exact ⟨isPlain.matched, topCommasFrom_of_not_mem isPlain.commaFree _⟩
  | cons reference rest inductionHypothesis =>
      rw [List.map_cons]
      by_cases more : rest ≠ [] ∨ inner ≠ none
      · obtain ⟨matched, -⟩ := inductionHypothesis more
        have joined : isMatched (reference.body.toList ++
            ',' :: (nest (rest.map Reference.body) inner).toList) = true := by
          rw [isMatched_append_comma reference.isMatched_body]
          exact matched
        rw [nest_cons _ (by simpa using more), toList_withFallback]
        exact ⟨isMatched_var_append joined, topCommas_var_append joined⟩
      · obtain ⟨rfl, rfl⟩ : rest = [] ∧ inner = none := by simpa using more
        rw [List.map_nil, nest_singleton, reference.toList_text]
        exact ⟨isMatched_var_append reference.isMatched_body,
          topCommas_var_append reference.isMatched_body⟩

/-- Nested references have proper calls just if only the innermost one, with nothing inside it, has
a fallback of its own. -/
theorem hasProperCalls_nest_iff
    (something : references ≠ [] ∨ inner ≠ none)
    (plain : IsPlainInner inner)
    (properInner : ∀ entry ∈ inner, HasProperCalls entry)
    (proper : ∀ reference ∈ references, HasProperCalls reference.body) :
    HasProperCalls (nest (references.map Reference.body) inner) ↔
      ∀ outer reference rest, references = outer ++ reference :: rest →
        reference.fallback ≠ none → rest = [] ∧ inner = none := by
  induction references with
  | nil =>
      cases inner with
      | none => simp at something
      | some value =>
          constructor
          · intro _ outer reference rest impossible
            simp at impossible
          · intro _
            exact properInner value rfl
  | cons first others inductionHypothesis =>
      obtain ⟨firstProper, othersProper⟩ := List.forall_mem_cons.mp proper
      rw [List.map_cons]
      by_cases more : others ≠ [] ∨ inner ≠ none
      · obtain ⟨matched, commaFree⟩ := isMatched_nest more plain
        rw [nest_cons _ (by simpa using more),
          hasProperCalls_withFallback_iff first matched commaFree,
          inductionHypothesis more othersProper, and_iff_right firstProper]
        constructor
        · rintro ⟨noFallback, inside⟩ outer reference rest split own
          cases outer with
          | nil =>
              obtain ⟨rfl, -⟩ := List.cons.inj split
              exact absurd noFallback own
          | cons head tail => exact inside tail reference rest (List.cons.inj split).2 own
        · intro all
          constructor
          · by_contra own
            obtain ⟨rfl, rfl⟩ := all [] first others rfl own
            simp at more
          · intro outer reference rest split own
            exact all (first :: outer) reference rest (by rw [split, List.cons_append]) own
      · obtain ⟨rfl, rfl⟩ : others = [] ∧ inner = none := by simpa using more
        rw [List.map_nil, nest_singleton, first.hasProperCalls_text_iff]
        refine iff_of_true firstProper ?_
        intro outer reference rest split _
        cases outer with
        | nil => exact ⟨(List.cons.inj split).2.symm, rfl⟩
        | cons head tail => simp at split

end Nest

/-! ## What is left -/

private theorem splitAtComma_of_plain
    {name : List Char}
    (plain : ∀ character ∈ name, Wording.endsWord character = false)
    (rest : List Char) :
    splitAtComma Scan.start (name ++ ',' :: rest) = (name, some rest) := by
  induction name with
  | nil => rfl
  | cons first others inductionHypothesis =>
      obtain ⟨firstPlain, othersPlain⟩ := List.forall_mem_cons.mp plain
      have notComma : first ≠ ',' := by
        rintro rfl
        cases firstPlain
      rw [List.cons_append, splitAtComma, Wording.next_of_endsWord_eq_false rfl firstPlain,
        inductionHypothesis othersPlain]
      simp [notComma]

private theorem eq_call_of_isVariable
    {text : List Char}
    (isReference : isVariable (String.ofList text) = true) :
    text = "var(".toList ++ ((text.drop 4).dropLast ++ [')']) := by
  rw [isVariable, Bool.and_eq_true, List.isPrefixOf_iff_prefix, decide_eq_true_eq] at isReference
  obtain ⟨⟨rest, starts⟩, last⟩ := isReference
  simp only [String.toList_ofList] at starts last
  have dropped : text.drop 4 = rest := by
    rw [← starts]
    rfl
  rw [dropped]
  rw [← starts] at last ⊢
  rcases List.eq_nil_or_concat rest with rfl | ⟨others, final, rfl⟩
  · simp at last
  · have isFinal : final = ')' := by
      rw [List.concat_eq_append, ← List.append_assoc, List.getLast?_concat] at last
      exact Option.some.inj last
    simp [isFinal]

/-- A text with a comma outside quotes and parentheses is left as it is. -/
theorem resolve_of_topCommas
    (assignment : String → Option String)
    {text : List Char}
    (commas : topCommas text ≠ 0) :
    resolve assignment text = some (String.ofList text) := by
  rw [resolve, if_neg]
  intro isCall
  obtain ⟨isReference, matched⟩ := Bool.and_eq_true_iff.mp isCall
  apply commas
  rw [eq_call_of_isVariable isReference]
  exact topCommas_var_append matched

private theorem resolve_of_splitAtComma
    (assignment : String → Option String)
    {body name fallback : List Char}
    (matched : isMatched body = true)
    (split : splitAtComma Scan.start body = (name, some fallback)) :
    resolve assignment ("var(".toList ++ (body ++ [')'])) =
      (assignment (String.ofList name)).or (resolve assignment fallback) := by
  have spelled : String.ofList ("var(".toList ++ (body ++ [')'])) =
      "var(" ++ String.ofList body ++ ")" := by
    rw [String.ofList_append, String.ofList_append, String.ofList_toList, ← String.append_assoc]
  have isReference : isVariable (String.ofList ("var(".toList ++ (body ++ [')']))) = true := by
    rw [spelled]
    exact isVariable_call (String.ofList body)
  have bodyIs : (("var(".toList ++ (body ++ [')'])).drop 4).dropLast = body :=
    List.dropLast_concat
  rw [resolve, isReference, bodyIs, matched, Bool.and_self, if_pos rfl]
  dsimp only
  split
  · rename_i missing
    rw [split] at missing
    cases missing
  · rename_i found present
    rw [split] at present ⊢
    obtain rfl := Option.some.inj present
    rfl

/-- Without values, a reference with a fallback of its own and something folded behind it leaves
both. -/
theorem resolve_withFallback
    {reference : Reference}
    {fallback : String}
    (own : reference.fallback = some fallback)
    {inner : String}
    (matched : isMatched inner.toList = true) :
    resolve (fun _ => none) (withFallback reference.body inner).toList =
      some (fallback ++ "," ++ inner) := by
  obtain ⟨-, fallbackMatched, -⟩ := reference.properFallback fallback own
  have chars : reference.body.toList ++ ',' :: inner.toList =
      reference.name.toList ++ ',' :: (fallback.toList ++ ',' :: inner.toList) := by
    rw [reference.toList_body_of_fallback own]
    simp
  have joined : isMatched (reference.body.toList ++ ',' :: inner.toList) = true := by
    rw [isMatched_append_comma reference.isMatched_body]
    exact matched
  have left : resolve (fun _ => none) (fallback.toList ++ ',' :: inner.toList) =
      some (fallback ++ "," ++ inner) := by
    rw [resolve_of_topCommas]
    · congr 1
      apply String.toList_inj.mp
      simp [String.toList_append]
    · rw [topCommas_append_comma fallbackMatched]
      omega
  have split := splitAtComma_of_plain reference.endsWord_of_mem_name
    (fallback.toList ++ ',' :: inner.toList)
  rw [← chars] at split
  rw [toList_withFallback, resolve_of_splitAtComma _ joined split, left]
  rfl

/-! ## Folded chains -/

private theorem bodies_of_references
    (references : List Reference) :
    ((references.map Reference.text).map variableBody).reverse =
      references.reverse.map Reference.body := by
  rw [List.map_map, ← List.map_reverse]
  exact List.map_congr_left fun reference _ => variableBody_call reference.body

/-- The inner texts that references are folded around: each entry before them, or nothing. -/
def innerTexts (before : List String) : List (Option String) :=
  if before.isEmpty then [none] else before.map some

private theorem folded_eq_map_nest
    (before : List String)
    (references : List Reference) :
    folded before (references.map Reference.text) =
      (innerTexts before).map (nest (references.reverse.map Reference.body)) := by
  unfold folded innerTexts
  rw [bodies_of_references]
  split
  · rfl
  · rw [List.map_map]
    rfl

private theorem mem_innerTexts
    {before : List String}
    {inner : Option String}
    (member : inner ∈ innerTexts before) :
    (inner = none ↔ before = []) ∧ ∀ entry ∈ inner, entry ∈ before := by
  cases before with
  | nil =>
      obtain rfl := List.mem_singleton.mp member
      simp
  | cons first rest =>
      obtain ⟨entry, isEntry, rfl⟩ := List.mem_map.mp member
      simpa using isEntry

theorem innerTexts_ne_nil
    (before : List String) :
    innerTexts before ≠ [] := by
  cases before with
  | nil | cons => simp [innerTexts]

private theorem getLast?_innerTexts
    (before : List String) :
    (innerTexts before).getLast? = some before.getLast? := by
  rcases List.eq_nil_or_concat before with rfl | ⟨others, last, rfl⟩
  · rfl
  · simp [innerTexts]

/-- References are folded in reverse, so that what stood before one comes to stand inside it. -/
theorem forall_split_reverse_iff
    (references : List Reference)
    (condition : Reference → List Reference → Prop) :
    (∀ outer reference rest, references.reverse = outer ++ reference :: rest →
        condition reference rest) ↔
      ∀ earlier reference later, references = earlier ++ reference :: later →
        condition reference earlier.reverse := by
  constructor
  · intro all earlier reference later split
    apply all later.reverse
    rw [split]
    simp
  · intro all outer reference rest split
    have straight : references = rest.reverse ++ reference :: outer.reverse := by
      rw [← List.reverse_reverse references, split]
      simp
    simpa using all _ reference _ straight

section Fold

variable {before : List String} (plainBefore : ∀ entry ∈ before, IsPlainEntry entry)

include plainBefore

private theorem isPlainInner_of_mem
    {inner : Option String}
    (member : inner ∈ innerTexts before) :
    IsPlainInner inner :=
  fun entry isInner => plainBefore entry ((mem_innerTexts member).2 entry isInner)

/-- All entries that are folded are proper under one and the same condition. -/
theorem hasProperCalls_folded_iff
    {references : List Reference}
    (someReference : references ≠ [])
    (properBefore : ∀ entry ∈ before, HasProperCalls entry)
    (properReferences : ∀ reference ∈ references, HasProperCalls reference.text) :
    (∀ entry ∈ folded before (references.map Reference.text), HasProperCalls entry) ↔
      ∀ earlier reference later, references = earlier ++ reference :: later →
        reference.fallback ≠ none → before = [] ∧ earlier = [] := by
  have each (inner : Option String) (member : inner ∈ innerTexts before) :
      HasProperCalls (nest (references.reverse.map Reference.body) inner) ↔
        ∀ earlier reference later, references = earlier ++ reference :: later →
          reference.fallback ≠ none → before = [] ∧ earlier = [] := by
    rw [hasProperCalls_nest_iff (.inl (by simpa using someReference))
      (isPlainInner_of_mem plainBefore member)
      (fun entry isInner => properBefore entry ((mem_innerTexts member).2 entry isInner))
      (fun reference isReference => reference.hasProperCalls_text_iff.mp
        (properReferences reference (List.mem_reverse.mp isReference)))]
    have turned := forall_split_reverse_iff references
      fun reference rest => reference.fallback ≠ none → rest = [] ∧ inner = none
    simpa only [(mem_innerTexts member).1, List.reverse_eq_nil_iff, and_comm] using turned
  rw [folded_eq_map_nest, List.forall_mem_map]
  constructor
  · intro all
    obtain ⟨inner, member⟩ := List.exists_mem_of_ne_nil _ (innerTexts_ne_nil before)
    exact (each inner member).mp (all inner member)
  · intro condition inner member
    exact (each inner member).mpr condition

/-- Without values, a last reference with a fallback of its own leaves this fallback and all that
was folded behind it. -/
theorem resolve_folded
    {earlier : List Reference}
    {reference : Reference}
    {fallback : String}
    (own : reference.fallback = some fallback)
    (something : before ≠ [] ∨ earlier ≠ []) :
    (folded before ((earlier ++ [reference]).map Reference.text)).getLast?.bind
        (fun last => resolve (fun _ => none) last.toList) =
      some (fallback ++ "," ++ nest (earlier.reverse.map Reference.body) before.getLast?) := by
  let inner := nest (earlier.reverse.map Reference.body) before.getLast?
  have more : earlier.reverse ≠ [] ∨ before.getLast? ≠ none := by
    simpa [or_comm] using something
  have last : (folded before ((earlier ++ [reference]).map Reference.text)).getLast? =
      some (withFallback reference.body inner) := by
    rw [folded_eq_map_nest, List.getLast?_map, getLast?_innerTexts, List.reverse_append,
      List.reverse_singleton, List.singleton_append, List.map_cons, Option.map_some,
      nest_cons _ (by simpa using more)]
  have plainInner := isPlainInner_of_mem plainBefore
    (List.mem_of_getLast? (getLast?_innerTexts before))
  rw [last]
  exact resolve_withFallback own (isMatched_nest more plainInner).1

end Fold

/-- When folding respects the fallbacks that references have of their own. For every chain of
well-formed references with entries before and after them, all of whose references have a name and
at most one fallback, folding succeeds, and all references in the folded chain are so again just if
none but the first entry of the chain is a reference with a fallback of its own. Where the last
entry of a longer chain is one, and no variable has a value, its fallback is left together with all
that was folded behind it. -/
theorem own_fallbacks_respected_iff
    (property : String)
    {before after : List String}
    {references : List Reference}
    (plainBefore : ∀ entry ∈ before, IsPlainEntry entry)
    (plainAfter : ∀ entry ∈ after, isVariable entry = false)
    (someReference : references ≠ [])
    (proper : ∀ entry ∈ before ++ (references.map Reference.text ++ after), HasProperCalls entry) :
    ∃ result,
      compose property (before ++ (references.map Reference.text ++ after)) = .ok result ∧
      ((∀ entry ∈ result, HasProperCalls entry) ↔
        ∀ earlier reference later, references = earlier ++ reference :: later →
          reference.fallback ≠ none → before = [] ∧ earlier = []) ∧
      ∀ earlier reference fallback, references = earlier ++ [reference] →
        reference.fallback = some fallback → before ≠ [] ∨ earlier ≠ [] → after = [] →
        result.getLast?.bind (fun last => resolve (fun _ => none) last.toList) =
          some (fallback ++ "," ++ nest (earlier.reverse.map Reference.body) before.getLast?) := by
  rw [List.forall_mem_append, List.forall_mem_append, List.forall_mem_map] at proper
  obtain ⟨properBefore, properReferences, properAfter⟩ := proper
  have parts : HasParts (before ++ (references.map Reference.text ++ after)) before
      (references.map Reference.text) after := by
    refine ⟨rfl, fun entry member => (plainBefore entry member).notVariable, ?_, plainAfter⟩
    rw [List.forall_mem_map]
    exact fun reference _ => isVariable_call reference.body
  refine ⟨_, parts.compose_eq (by simpa using someReference) property, ?_, ?_⟩
  · rw [List.forall_mem_append, and_iff_left properAfter]
    exact hasProperCalls_folded_iff plainBefore someReference properBefore properReferences
  · rintro earlier reference fallback rfl own something rfl
    rw [List.append_nil]
    exact resolve_folded plainBefore own something

def bareMargin : Reference where
  name := "--margin"
  fallback := none
  custom := by decide
  plainName := by decide
  properFallback := by simp

/-- A reference with a fallback of its own, which has a comma inside parentheses. -/
def boundedWidth : Reference where
  name := "--width"
  fallback := some "min(2em,20px)"
  custom := by decide
  plainName := by decide
  properFallback := by
    intro text own
    obtain rfl := Option.some.inj own
    decide +kernel

/-- A width before both: two fallbacks stand side by side in one reference, and both are left. -/
theorem bounded_width_gets_second_fallback :
    let before := ["10px"]
    let references := [bareMargin, boundedWidth]
    let entries := ["10px", "var(--margin)", "var(--width,min(2em,20px))"]
    let folded := "var(--width,min(2em,20px),var(--margin,10px))"
    before ++ (references.map Reference.text ++ []) = entries ∧
      (∀ entry ∈ before, IsPlainEntry entry) ∧
      (∀ entry ∈ entries, HasProperCalls entry) ∧
      compose "width" entries = .ok [folded] ∧
      ¬HasProperCalls folded ∧
      resolve (fun _ => none) folded.toList = some "min(2em,20px),var(--margin,10px)" := by
  intro before references entries folded
  have written : before ++ (references.map Reference.text ++ []) = entries := by decide +kernel
  have plain : ∀ entry ∈ before, IsPlainEntry entry := by
    rw [List.forall_mem_singleton]
    exact ⟨by decide, by decide, by decide⟩
  have proper : ∀ entry ∈ entries, HasProperCalls entry := by
    unfold HasProperCalls
    decide +kernel
  have composed : compose "width" entries = .ok [folded] := by decide +kernel
  obtain ⟨result, accepted, properIff, left⟩ :=
    own_fallbacks_respected_iff "width" plain (by simp) (List.cons_ne_nil bareMargin [boundedWidth])
      (written ▸ proper)
  rw [show before ++ _ = entries from written, composed] at accepted
  obtain rfl := Except.ok.inj accepted
  refine ⟨written, plain, proper, composed, ?_, ?_⟩
  · intro isProper
    rw [List.forall_mem_singleton] at properIff
    have first := properIff.mp isProper [bareMargin] boundedWidth [] rfl (by simp [boundedWidth])
    exact absurd first.1 (List.cons_ne_nil _ _)
  · have both := left [bareMargin] boundedWidth "min(2em,20px)" rfl rfl (by simp) rfl
    exact both.trans (by decide +kernel)

end AtomicCss.Chain
