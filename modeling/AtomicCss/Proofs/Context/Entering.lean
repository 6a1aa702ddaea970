import AtomicCss.Proofs.Style.Walking

/-!
Contract: the contexts that keys open.

Owns:
- how keys start, also after trimming, and the segments that are read from them;
- the exact condition for entering one more level;
- contexts all of whose levels were read, such as those of leaves.

Does not own: the texts made of a context.
-/

namespace AtomicCss

namespace Text

theorem head?_of_startsWith_colon
    {text : String}
    (start : startsWith ":" text = true) :
    text.toList.head? = some ':' := by
  obtain ⟨rest, chars⟩ := List.isPrefixOf_iff_prefix.mp start
  rw [← chars]
  rfl

theorem head?_of_startsWith_at
    {text : String}
    (start : startsWith "@" text = true) :
    text.toList.head? = some '@' := by
  obtain ⟨rest, chars⟩ := List.isPrefixOf_iff_prefix.mp start
  rw [← chars]
  rfl

/-- Trimming leaves a first character that is not white space. -/
theorem head?_trim
    {text : String}
    {first : Char}
    (start : text.toList.head? = some first)
    (solid : isBlank first = false) :
    (trim text).toList.head? = some first := by
  obtain ⟨rest, chars⟩ := List.head?_eq_some_iff.mp start
  rw [trim, String.toList_ofList, chars, trimChars, List.dropWhile_cons_of_neg (by simp [solid]),
    List.head?_reverse, List.reverse_cons, List.dropWhile_append]
  split
  · rw [List.dropWhile_cons_of_neg (by simp [solid])]
    rfl
  · rw [List.getLast?_concat]

end Text

namespace KeyKind

theorem startsWith_of_ofKey_eq_pseudo
    {key : String}
    (kind : ofKey key = .pseudo) :
    Text.startsWith ":" key := by
  unfold ofKey at kind
  by_cases colon : Text.startsWith ":" key
  · exact colon
  · rw [if_neg colon] at kind
    split at kind
    · cases kind
    · split at kind <;> cases kind

theorem startsWith_of_ofKey_eq_atRule
    {key : String}
    (kind : ofKey key = .atRule) :
    Text.startsWith "@" key := by
  unfold ofKey at kind
  by_cases sign : Text.startsWith "@" key
  · exact sign
  · rw [if_neg sign] at kind
    split at kind
    · cases kind
    · split at kind <;> cases kind

end KeyKind

namespace Segment

/-- What is read is the trimmed key, as a pseudo selector or as an at-rule by how it starts. -/
theorem read_eq_ok_cases
    {key : String}
    {segment : Segment}
    (success : read key = .ok segment) :
    (segment = .pseudo (Text.trim key) ∧ Text.startsWith ":" (Text.trim key)) ∨
      (segment = .atRule (Text.trim key) ∧ Text.startsWith "@" (Text.trim key)) := by
  unfold read at success
  cases kind : KeyKind.ofKey (Text.trim key) with
  | pseudo =>
      simp only [kind] at success
      by_cases unnamed : (Text.trim key).toList.all (· = ':')
      · simp [unnamed] at success
      · rw [if_neg unnamed] at success
        exact .inl ⟨(Except.ok.inj success).symm, KeyKind.startsWith_of_ofKey_eq_pseudo kind⟩
  | atRule =>
      simp only [kind] at success
      by_cases supported : isSupported (Text.trim key)
      · rw [if_pos supported] at success
        exact .inr ⟨(Except.ok.inj success).symm, KeyKind.startsWith_of_ofKey_eq_atRule kind⟩
      · simp [supported] at success
  | property => simp [kind] at success
  | default => simp [kind] at success

def IsRead (segment : Segment) : Prop :=
  ∃ key, read key = .ok segment

theorem IsRead.head_pseudo
    {written : String}
    (isRead : (Segment.pseudo written).IsRead) :
    written.toList.head? = some ':' := by
  obtain ⟨key, success⟩ := isRead
  rcases read_eq_ok_cases success with ⟨same, start⟩ | ⟨same, start⟩
  · obtain rfl := Segment.pseudo.inj same
    exact Text.head?_of_startsWith_colon start
  · cases same

theorem IsRead.head_atRule
    {written : String}
    (isRead : (Segment.atRule written).IsRead) :
    written.toList.head? = some '@' := by
  obtain ⟨key, success⟩ := isRead
  rcases read_eq_ok_cases success with ⟨same, start⟩ | ⟨same, start⟩
  · cases same
  · obtain rfl := Segment.atRule.inj same
    exact Text.head?_of_startsWith_at start

end Segment

namespace Context

/-- A level is entered exactly where its key is read as a segment that does not repeat, that is not
a second pseudo-element, and that does not go too deep. -/
theorem enter_eq_ok_iff
    (context : Context)
    (key : String)
    (inner : Context) :
    context.enter key = .ok inner ↔
      ∃ segment, Segment.read key = .ok segment ∧
        segment ∉ context.segments ∧
        ¬(segment.isElement = true ∧ context.hasElement = true) ∧
        context.depth < depthLimit ∧
        inner = context.push segment := by
  rw [enter, Success.bind_eq_ok_iff]
  apply exists_congr
  intro segment
  apply and_congr_right
  intro readSegment
  by_cases repeated : segment ∈ context.segments
  · simp [contains, repeated]
  · by_cases elements : segment.isElement = true ∧ context.hasElement = true
    · simp [contains, repeated, elements]
    · have elementsFree : (segment.isElement && context.hasElement) = false := by
        simpa using elements
      by_cases deep : depthLimit ≤ context.depth
      · simp [contains, repeated, elementsFree, deep, Nat.not_lt.mpr deep]
      · have shallow : context.depth < depthLimit := Nat.lt_of_not_le deep
        simp only [contains, List.contains_iff_mem, repeated, elementsFree, deep, if_false,
          Bool.false_eq_true, Except.ok.injEq, elements, not_false_eq_true, shallow, true_and]
        exact eq_comm

def IsRead (context : Context) : Prop :=
  ∀ segment ∈ context.segments, segment.IsRead

private theorem isRead_empty : empty.IsRead := by
  intro segment member
  exact absurd member List.not_mem_nil

private theorem keptByEntering_isRead : KeptByEntering IsRead := by
  intro context key inner outer entered
  obtain ⟨segment, readSegment, -, -, -, rfl⟩ := (enter_eq_ok_iff context key inner).mp entered
  intro other member
  rcases List.mem_append.mp member with outerMember | innerMember
  · exact outer other outerMember
  · rw [List.mem_singleton] at innerMember
    exact ⟨key, innerMember ▸ readSegment⟩

theorem isRead_of_mem_flatten
    {scope : String}
    {styles : StyleMap}
    {leaves : List Leaf}
    (flattened : flatten scope styles = .ok leaves)
    {leaf : Leaf}
    (member : leaf ∈ leaves) :
    leaf.context.IsRead := by
  rw [flatten_eq_leaves] at flattened
  exact Level.kept_of_mem_leaves keptByEntering_isRead styles (.styles empty) isRead_empty
    flattened leaf member

end Context

end AtomicCss
