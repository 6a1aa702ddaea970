import AtomicCss.Proofs.Declaration.ChainParts
import Mathlib.Control.Monad.Basic

/-!
Contract: what a fallback chain comes to, before and after its references are folded.

Owns:
- the reading of a text as references that are each other's fallbacks;
- the value of such a text and of a chain, where some of the variables have values;
- that folding the references of a chain keeps its value.

Does not own: references with a fallback of their own.
-/

namespace AtomicCss.Chain

/-- References that are each other's fallbacks: their names, the outermost first, and the text that
is left where none of them has a value. -/
structure Nested where
  names : List String
  rest : Option String

/-- Reads a text as nested references. The name of a reference ends at its first comma, and what
follows the comma is its fallback. A text that is no reference is left as it is. -/
def Nested.read (text : List Char) : Nested :=
  if isVariable (String.ofList text) then
    let body := (text.drop 4).dropLast
    let name := String.ofList (body.takeWhile (· ≠ ','))
    if ',' ∈ body then
      let inner := Nested.read ((body.dropWhile (· ≠ ',')).drop 1)
      ⟨name :: inner.names, inner.rest⟩
    else ⟨[name], none⟩
  else ⟨[], some (String.ofList text)⟩
termination_by text.length
decreasing_by
  rename_i comma
  have filled : 0 < ((text.drop 4).dropLast).length := List.length_pos_of_mem comma
  have shorter :=
    List.Sublist.length_le (List.dropWhile_sublist (l := (text.drop 4).dropLast) (· ≠ ','))
  simp only [List.length_drop, List.length_dropLast] at *
  omega

/-- The value of the outermost reference that has one, or else the text that is left. -/
def Nested.value (assignment : String → Option String) (nested : Nested) : Option String :=
  (nested.names.findSome? assignment).or nested.rest

def textValue (assignment : String → Option String) (text : String) : Option String :=
  (Nested.read text.toList).value assignment

/-- The value of an entry: a reference has the value of its variable, if any, and any other entry is
left as it is. -/
def entryValue (assignment : String → Option String) (entry : String) : Option String :=
  if isVariable entry then assignment (variableBody entry) else some entry

/-- The value of a chain: that of the last entry that has one. -/
def chainValue (assignment : String → Option String) (entries : List String) : Option String :=
  entries.reverse.findSome? (entryValue assignment)

def IsBareReference (entry : String) : Prop :=
  ∃ name : String, entry = "var(--" ++ name ++ ")" ∧
    ∀ character ∈ name.toList, character ≠ ',' ∧ character ≠ '(' ∧ character ≠ ')'

/-! ## Reading -/

private theorem toList_call
    (body : String) :
    ("var(" ++ body ++ ")").toList = 'v' :: 'a' :: 'r' :: '(' :: (body.toList ++ [')']) := by
  simp [String.toList_append]

theorem isVariable_call
    (body : String) :
    isVariable ("var(" ++ body ++ ")") = true := by
  have last : ('v' :: 'a' :: 'r' :: '(' :: body.toList ++ [')']).getLast? = some ')' :=
    List.getLast?_concat
  rw [List.cons_append, List.cons_append, List.cons_append, List.cons_append] at last
  rw [isVariable, toList_call, last]
  simp [List.isPrefixOf]

theorem variableBody_call
    (body : String) :
    variableBody ("var(" ++ body ++ ")") = body := by
  rw [variableBody, toList_call]
  simp

private theorem read_of_plain
    {text : String}
    (plain : isVariable text = false) :
    Nested.read text.toList = ⟨[], some text⟩ := by
  rw [Nested.read, String.ofList_toList, plain]
  rfl

section Calls

variable {body : String} (single : ',' ∉ body.toList)
include single

private theorem takeWhile_eq_self :
    body.toList.takeWhile (· ≠ ',') = body.toList := by
  rw [List.takeWhile_eq_self_iff]
  intro character member
  have other : character ≠ ',' := fun same => single (same ▸ member)
  simpa using other

private theorem read_call :
    Nested.read ("var(" ++ body ++ ")").toList = ⟨[body], none⟩ := by
  rw [Nested.read, String.ofList_toList, isVariable_call, toList_call]
  simp only [if_true, List.drop_succ_cons, List.drop_zero, List.dropLast_concat, single, if_false,
    takeWhile_eq_self single, String.ofList_toList]

private theorem read_withFallback
    (fallback : String) :
    Nested.read (withFallback body fallback).toList =
      ⟨body :: (Nested.read fallback.toList).names, (Nested.read fallback.toList).rest⟩ := by
  have call : withFallback body fallback = "var(" ++ (body ++ "," ++ fallback) ++ ")" := by
    simp [withFallback, String.append_assoc]
  have chars : (body ++ "," ++ fallback).toList = body.toList ++ ',' :: fallback.toList := by
    simp [String.toList_append]
  have plain : ∀ character ∈ body.toList, decide (character ≠ ',') = true :=
    List.takeWhile_eq_self_iff.mp (takeWhile_eq_self single)
  have name : (body.toList ++ ',' :: fallback.toList).takeWhile (· ≠ ',') = body.toList := by
    rw [List.takeWhile_append_of_pos plain]
    simp
  have rest : (body.toList ++ ',' :: fallback.toList).dropWhile (· ≠ ',') =
      ',' :: fallback.toList := by
    rw [List.dropWhile_append_of_pos plain]
    simp
  rw [Nested.read, String.ofList_toList, call, isVariable_call, toList_call, chars]
  simp only [if_true, List.drop_succ_cons, List.drop_zero, List.dropLast_concat, name, rest,
    List.mem_append, List.mem_cons, true_or, or_true, String.ofList_toList]

end Calls

/-! ## Values -/

section Values

variable (assignment : String → Option String)

theorem textValue_of_plain
    {text : String}
    (plain : isVariable text = false) :
    textValue assignment text = some text := by
  rw [textValue, read_of_plain plain]
  rfl

private theorem textValue_call
    {body : String}
    (single : ',' ∉ body.toList) :
    textValue assignment ("var(" ++ body ++ ")") = assignment body := by
  rw [textValue, read_call single]
  simp [Nested.value]

theorem textValue_withFallback
    {body : String}
    (single : ',' ∉ body.toList)
    (fallback : String) :
    textValue assignment (withFallback body fallback) =
      (assignment body).or (textValue assignment fallback) := by
  rw [textValue, read_withFallback single, Nested.value, List.findSome?_cons]
  cases assignment body with
  | none => rfl
  | some value => rfl

/-- References around a text: the outermost one with a value, or else the text. -/
theorem textValue_nest_some
    {bodies : List String}
    (single : ∀ body ∈ bodies, ',' ∉ body.toList)
    {value : String}
    (plain : isVariable value = false) :
    textValue assignment (nest bodies (some value)) =
      (bodies.findSome? assignment).or (some value) := by
  induction bodies with
  | nil => exact textValue_of_plain assignment plain
  | cons body rest inductionHypothesis =>
      obtain ⟨first, others⟩ := List.forall_mem_cons.mp single
      have unfolded : nest (body :: rest) (some value) =
          withFallback body (nest rest (some value)) := by
        cases rest with
        | nil | cons => rfl
      rw [unfolded, textValue_withFallback assignment first, inductionHypothesis others,
        List.findSome?_cons]
      cases assignment body with
      | none | some => rfl

/-- References around nothing: the outermost one with a value. -/
theorem textValue_nest_none
    {bodies : List String}
    (someBody : bodies ≠ [])
    (bare : ∀ body ∈ bodies, Text.startsWith "--" body = true ∧ ',' ∉ body.toList) :
    textValue assignment (nest bodies none) = bodies.findSome? assignment := by
  induction bodies with
  | nil => exact absurd rfl someBody
  | cons body rest inductionHypothesis =>
      obtain ⟨⟨named, single⟩, others⟩ := List.forall_mem_cons.mp bare
      cases rest with
      | nil =>
          rw [nest, if_pos named, textValue_call assignment single, List.findSome?_singleton]
      | cons next more =>
          have others := inductionHypothesis (List.cons_ne_nil _ _) others
          rw [nest, textValue_withFallback assignment single, others]
          conv => rhs; rw [List.findSome?_cons]
          cases assignment body with
          | none => rfl
          | some => rfl
          · simp

theorem chainValue_append
    (first second : List String) :
    chainValue assignment (first ++ second) =
      (chainValue assignment second).or (chainValue assignment first) := by
  rw [chainValue, List.reverse_append, List.findSome?_append]
  rfl

/-- Without references, the last entry is what a chain comes to. -/
theorem chainValue_of_plain
    {entries : List String}
    (plain : ∀ entry ∈ entries, isVariable entry = false) :
    chainValue assignment entries = entries.getLast? := by
  rcases List.eq_nil_or_concat entries with rfl | ⟨others, last, rfl⟩
  · rfl
  · have isPlain := plain last (by simp)
    simp [chainValue, entryValue, isPlain]

private theorem chainValue_of_references
    {references : List String}
    (areReferences : ∀ entry ∈ references, isVariable entry = true) :
    chainValue assignment references =
      (references.map variableBody).reverse.findSome? assignment := by
  induction references with
  | nil => rfl
  | cons first rest inductionHypothesis =>
      obtain ⟨isFirst, others⟩ := List.forall_mem_cons.mp areReferences
      have alone : chainValue assignment [first] = assignment (variableBody first) := by
        rw [chainValue, List.reverse_singleton, List.findSome?_singleton, entryValue,
          if_pos isFirst]
      rw [← List.singleton_append, chainValue_append, inductionHypothesis others, alone,
        List.map_append, List.reverse_append, List.findSome?_append, List.map_singleton,
        List.reverse_singleton, List.findSome?_singleton]

end Values

/-! ## Folded chains -/

private theorem IsBareReference.body
    {entry : String}
    (bare : IsBareReference entry) :
    Text.startsWith "--" (variableBody entry) = true ∧ ',' ∉ (variableBody entry).toList := by
  obtain ⟨name, rfl, plain⟩ := bare
  have call : "var(--" ++ name ++ ")" = "var(" ++ ("--" ++ name) ++ ")" := by
    rw [← String.append_assoc]
    rfl
  have chars : ("--" ++ name).toList = '-' :: '-' :: name.toList := by
    rw [String.toList_append]
    rfl
  rw [call, variableBody_call, Text.startsWith, chars]
  refine ⟨by simp [List.isPrefixOf], ?_⟩
  intro comma
  exact (plain ',' (by simpa using comma)).1 rfl

section Folded

variable {entries before references after : List String}

/-- The last entry of a folded chain has the value of the chain. -/
theorem HasParts.value_folded
    (parts : HasParts entries before references after)
    (someReference : references ≠ [])
    (bare : ∀ entry ∈ references, IsBareReference entry)
    (assignment : String → Option String) :
    (folded before references ++ after).getLast?.bind (textValue assignment) =
      chainValue assignment entries := by
  let bodies := (references.map variableBody).reverse
  have someBody : bodies ≠ [] := by simpa [bodies] using someReference
  have bareBodies : ∀ body ∈ bodies, Text.startsWith "--" body = true ∧ ',' ∉ body.toList := by
    intro body member
    obtain ⟨entry, isEntry, rfl⟩ := List.mem_map.mp (List.mem_reverse.mp member)
    exact (bare entry isEntry).body
  rw [parts.joined, chainValue_append, chainValue_append, chainValue_of_plain _ parts.plainBefore,
    chainValue_of_references _ parts.areReferences, chainValue_of_plain _ parts.plainAfter,
    List.getLast?_append]
  cases last : after.getLast? with
  | some final =>
      have plain := parts.plainAfter final (List.mem_of_getLast? last)
      simp [textValue_of_plain assignment plain]
  | none =>
      rcases List.eq_nil_or_concat before with rfl | ⟨others, final, rfl⟩
      · have value := textValue_nest_none assignment someBody bareBodies
        simpa [folded] using value
      · have plain := parts.plainBefore final (by simp)
        have unbroken : ∀ body ∈ bodies, ',' ∉ body.toList :=
          fun body member => (bareBodies body member).2
        have value := textValue_nest_some assignment unbroken plain
        simpa [folded] using value

end Folded

/-- Folding a chain keeps what it comes to. A chain is refused just for another entry between two
references, and one without references stays as it is. Of any other chain, the entries before the
references are folded with them, one by one, and those after them stay as they are. Where the
references have no fallback of their own, and whatever values some of the variables have, the last
entry left has the value that the chain has, read from its last entry to its first. -/
theorem composed_chain_keeps_value
    (property : String)
    (entries : List String) :
    (∀ error, compose property entries = .error error ↔
      Scattered entries ∧ error = .scatteredVariables property) ∧
    ((∀ entry ∈ entries, isVariable entry = false) → compose property entries = .ok entries) ∧
    ∀ result, compose property entries = .ok result →
      ((∃ entry ∈ entries, isVariable entry = true) →
        ∃ before references after front, HasParts entries before references after ∧
          references ≠ [] ∧ result = front ++ after ∧ front.length = max 1 before.length) ∧
      ((∀ entry ∈ entries, isVariable entry = true → IsBareReference entry) →
        ∀ assignment, result.getLast?.bind (textValue assignment) =
          chainValue assignment entries) := by
  refine ⟨compose_eq_error_iff property entries, compose_of_no_variables, ?_⟩
  intro result composed
  obtain ⟨before, references, after, parts⟩ := exists_hasParts_of_compose composed
  by_cases someReference : references = []
  · subst someReference
    have plain : ∀ entry ∈ entries, isVariable entry = false := by
      rw [parts.joined, List.nil_append, List.forall_mem_append]
      exact ⟨parts.plainBefore, parts.plainAfter⟩
    rw [compose_of_no_variables plain] at composed
    obtain rfl := Except.ok.inj composed
    constructor
    · rintro ⟨entry, member, isReference⟩
      rw [plain entry member] at isReference
      cases isReference
    · intro _ assignment
      rw [chainValue_of_plain assignment plain]
      cases last : entries.getLast? with
      | none => rfl
      | some final =>
          exact textValue_of_plain assignment (plain final (List.mem_of_getLast? last))
  · rw [parts.compose_eq someReference] at composed
    obtain rfl := Except.ok.inj composed
    constructor
    · intro _
      exact ⟨before, references, after, _, parts, someReference, rfl, length_folded _ _⟩
    · intro bare assignment
      apply parts.value_folded someReference
      intro entry member
      apply bare entry _ (parts.areReferences entry member)
      rw [parts.joined]
      simp [member]

/-- Two widths before two variables, of which the earlier one has a value or none has. -/
theorem two_widths_behind_two_variables :
    let entries := ["500px", "1em", "var(--x)", "var(--y)"]
    let result := ["var(--y,var(--x,500px))", "var(--y,var(--x,1em))"]
    let assignment : String → Option String := fun name => if name = "--x" then some "7px" else none
    compose "width" entries = .ok result ∧
      (∃ entry ∈ entries, isVariable entry = true) ∧
      (∀ entry ∈ entries, isVariable entry = true → IsBareReference entry) ∧
      (∃ before references after front, HasParts entries before references after ∧
        references ≠ [] ∧ result = front ++ after ∧ front.length = max 1 before.length) ∧
      textValue assignment "var(--y,var(--x,1em))" = some "7px" ∧
      textValue (fun _ => none) "var(--y,var(--x,1em))" = some "1em" := by
  intro entries result assignment
  have composed : compose "width" entries = .ok result := by decide +kernel
  have someReference : ∃ entry ∈ entries, isVariable entry = true :=
    ⟨"var(--x)", by decide, by decide⟩
  have bare : ∀ entry ∈ entries, isVariable entry = true → IsBareReference entry := by
    simp only [entries, List.forall_mem_cons]
    refine ⟨fun isReference => ?_, fun isReference => ?_, fun _ => ⟨"x", rfl, by simp⟩,
      fun _ => ⟨"y", rfl, by simp⟩, by simp⟩
    · exact absurd isReference (by decide)
    · exact absurd isReference (by decide)
  obtain ⟨-, -, accepted⟩ := composed_chain_keeps_value "width" entries
  obtain ⟨shape, value⟩ := accepted result composed
  refine ⟨composed, someReference, bare, shape someReference, ?_, ?_⟩
  · exact (value bare assignment).trans (by decide +kernel)
  · exact (value bare fun _ => none).trans (by decide +kernel)

end AtomicCss.Chain
