import AtomicCss.Proofs.Property.Sides
import AtomicCss.Proofs.Text.Ascii

/-!
Contract: the spellings of one property.

Owns:
- names without capitals, which are their own dashed spelling;
- dashed spelling and older names, each of which is gone after one pass, and the names that are
  left;
- camel case, from which the dashed spelling is read back;
- the keys that spell a property: dashed, in camel case, with a vendor in front, and older names.

Does not own: what the keys of a property compile to.
-/

namespace AtomicCss.Property

/-! ## Dashed spelling -/

def IsSmall (text : List Char) : Prop :=
  ∀ character ∈ text, character.isUpper = false

private theorem isSmall_dashChar
    (character : Char) :
    IsSmall (dashChar character) := by
  unfold dashChar
  split
  · exact List.forall_mem_cons.mpr
      ⟨rfl, List.forall_mem_singleton.mpr Text.isUpper_toLower⟩
  · rename_i notUpper
    exact List.forall_mem_singleton.mpr (by simpa using notUpper)

/-- Dashed spelling leaves no capitals. -/
theorem isSmall_dashChars
    (key : List Char) :
    IsSmall (dashChars key) := by
  cases key with
  | nil => exact List.forall_mem_nil _
  | cons first rest =>
      unfold dashChars IsSmall
      simp only
      rw [List.forall_mem_append, List.forall_mem_cons, List.forall_mem_flatMap]
      refine ⟨?_, Text.isUpper_toLower,
        fun character _ => isSmall_dashChar character⟩
      split
      · exact List.forall_mem_singleton.mpr rfl
      · exact List.forall_mem_nil _

private theorem flatMap_dashChar_of_isSmall
    {text : List Char}
    (small : IsSmall text) :
    text.flatMap dashChar = text := by
  have each : ∀ character ∈ text, dashChar character = [character] := by
    intro character member
    rw [dashChar, small character member]
    rfl
  rw [List.flatMap_congr each, List.flatMap_singleton']

private theorem isVendorKey_of_isSmall
    {key : List Char}
    (small : IsSmall key) :
    isVendorKey key = false := by
  unfold isVendorKey
  split
  · exact small _ (by simp)
  · exact small _ List.mem_cons_self
  · rfl

/-- A key without capitals is spelled with dashes already. -/
theorem dashChars_of_isSmall
    {key : List Char}
    (small : IsSmall key) :
    dashChars key = key := by
  cases key with
  | nil => rfl
  | cons first rest =>
      obtain ⟨firstSmall, restSmall⟩ := List.forall_mem_cons.mp small
      have lowered : first.toLower = first :=
        Text.toLower_of_not_isUpper firstSmall
      rw [dashChars, isVendorKey_of_isSmall small, lowered, flatMap_dashChar_of_isSmall restSmall]
      rfl

theorem dashed_of_isSmall
    {name : String}
    (small : IsSmall name.toList) :
    dashed name = name := by
  unfold dashed
  split
  · rfl
  · rw [dashChars_of_isSmall small, String.ofList_toList]

/-! ## Older names -/

/-- The table of older names: none has capitals, and present names are no older ones. -/
theorem alias_facts
    {older present : String}
    (found : alias? older = some present) :
    IsSmall older.toList ∧ IsSmall present.toList ∧ alias? present = none := by
  have tested :
      aliases.all fun entry =>
        (entry.1.toList.all fun character => !character.isUpper) &&
          (entry.2.toList.all fun character => !character.isUpper) && (alias? entry.2).isNone := by
    decide +kernel
  have passed := List.all_eq_true.mp tested _ (mem_of_table_lookup found)
  simpa [IsSmall, and_assoc] using passed

/-- A name that stands for itself: a custom property or a name without capitals, and no older
name. -/
structure IsPresentName (name : String) : Prop where
  spelled : Text.startsWith "--" name = true ∨ IsSmall name.toList
  present : alias? name = none

theorem isPresentName_canonicalName
    (key : String) :
    IsPresentName (canonicalName key) := by
  cases found : alias? (dashed key) with
  | some present =>
      obtain ⟨-, small, closed⟩ := alias_facts found
      rw [canonicalName, found, Option.getD_some]
      exact ⟨.inr small, closed⟩
  | none =>
      rw [canonicalName, found, Option.getD_none]
      refine ⟨?_, found⟩
      unfold dashed
      split
      · rename_i custom
        exact .inl custom
      · rw [String.toList_ofList]
        exact .inr (isSmall_dashChars key.toList)

/-- The names that stand for themselves are the names of properties. -/
theorem canonicalName_eq_self_iff
    {name : String} :
    canonicalName name = name ↔ IsPresentName name := by
  constructor
  · intro same
    exact same ▸ isPresentName_canonicalName name
  · rintro ⟨spelled, present⟩
    have kept : dashed name = name := by
      rcases spelled with custom | small
      · exact if_pos custom
      · exact dashed_of_isSmall small
    rw [canonicalName, kept, present, Option.getD_none]

/-- The name of a property is the property that it names. -/
theorem canonicalName_canonicalName
    (key : String) :
    canonicalName (canonicalName key) = canonicalName key :=
  canonicalName_eq_self_iff.mpr (isPresentName_canonicalName key)

private theorem canonicalName_of_alias
    {older present : String}
    (found : alias? older = some present) :
    canonicalName older = present ∧ canonicalName present = present := by
  obtain ⟨olderSmall, presentSmall, closed⟩ := alias_facts found
  refine ⟨?_, canonicalName_eq_self_iff.mpr ⟨.inr presentSmall, closed⟩⟩
  rw [canonicalName, dashed_of_isSmall olderSmall, found, Option.getD_some]

/-! ## Camel case -/

/-- The characters of a name in camel case: each dash before a small letter is gone, and the letter
is a capital. -/
def camelChars : List Char → List Char
  | [] => []
  | [last] => [last]
  | first :: second :: rest =>
    if first = '-' ∧ second.isLower = true then second.toUpper :: camelChars rest
    else first :: camelChars (second :: rest)

/-- A name in camel case: `margin-left` as `marginLeft`, `-webkit-mask` as `WebkitMask`. -/
def camelCase (name : String) : String :=
  String.ofList (camelChars name.toList)

private theorem dashChar_toUpper
    {letter : Char}
    (lower : letter.isLower = true) :
    letter.toUpper.isUpper = true ∧ letter.toUpper.toLower = letter ∧
      dashChar letter.toUpper = ['-', letter] := by
  obtain ⟨upper, lowered⟩ := Text.capital_of_isLower lower
  refine ⟨upper, lowered, ?_⟩
  rw [dashChar, if_pos upper, lowered]

/-- Inside a key, the dashes come back. -/
theorem flatMap_dashChar_camelChars
    {text : List Char}
    (small : IsSmall text) :
    (camelChars text).flatMap dashChar = text := by
  induction text using camelChars.induct with
  | case1 => rfl
  | case2 last => exact flatMap_dashChar_of_isSmall small
  | case3 first second rest joins inductionHypothesis =>
      obtain ⟨rfl, lower⟩ := joins
      have restSmall : IsSmall rest := fun character member => small character (by simp [member])
      rw [camelChars, if_pos ⟨rfl, lower⟩, List.flatMap_cons, (dashChar_toUpper lower).2.2,
        inductionHypothesis restSmall]
      rfl
  | case4 first second rest apart inductionHypothesis =>
      obtain ⟨firstSmall, restSmall⟩ := List.forall_mem_cons.mp small
      rw [camelChars, if_neg apart, List.flatMap_cons, inductionHypothesis restSmall, dashChar,
        firstSmall]
      rfl

/-- How a name in camel case starts: with a capital where the name has a dash and a small letter,
and else as the name does. -/
theorem head?_camelChars
    (text : List Char) :
    (∃ letter rest, text = '-' :: letter :: rest ∧ letter.isLower = true ∧
        (camelChars text).head? = some letter.toUpper) ∨
      (camelChars text).head? = text.head? := by
  fun_cases camelChars text with
  | case1 => exact .inr rfl
  | case2 last => exact .inr rfl
  | case3 first second rest joins =>
      obtain ⟨rfl, lower⟩ := joins
      exact .inl ⟨second, rest, rfl, lower, rfl⟩
  | case4 first second rest apart => exact .inr rfl

private theorem isVendorKey_of_isUpper
    {first : Char}
    (upper : first.isUpper = true)
    (rest : List Char) :
    isVendorKey (first :: rest) = true := by
  unfold isVendorKey
  split
  · rename_i equal
    obtain ⟨rfl, -⟩ := List.cons.inj equal
    cases upper
  · rename_i equal
    obtain ⟨rfl, -⟩ := List.cons.inj equal
    exact upper
  · rename_i equal
    cases equal

/-- A name that starts with `ms` and a word after it, which in camel case is that of a vendor. -/
def startsWithMsWord : List Char → Bool
  | 'm' :: 's' :: '-' :: letter :: _ => letter.isLower
  | _ => false

/-- In camel case, other names do not start with a vendor unless they start with a dash. -/
theorem isVendorKey_camelChars
    {first : Char}
    {rest : List Char}
    (small : IsSmall (first :: rest))
    (notMs : startsWithMsWord (first :: rest) = false) :
    isVendorKey (first :: camelChars rest) = false := by
  obtain ⟨firstSmall, restSmall⟩ := List.forall_mem_cons.mp small
  unfold isVendorKey
  split
  · rename_i third others equal
    obtain ⟨rfl, tail⟩ := List.cons.inj equal
    -- The third character would be a capital only for a dash and a small letter after `ms`.
    match rest with
    | [] => cases tail
    | [_] => cases tail
    | second :: next :: more =>
        have apart : ¬(second = '-' ∧ next.isLower = true) := by
          intro joins
          rw [camelChars, if_pos joins] at tail
          have upper := (dashChar_toUpper joins.2).1
          rw [(List.cons.inj tail).1] at upper
          cases upper
        rw [camelChars, if_neg apart] at tail
        obtain ⟨rfl, following⟩ := List.cons.inj tail
        rcases head?_camelChars (next :: more) with ⟨letter, _, dash, lower, -⟩ | same
        · obtain ⟨rfl, rfl⟩ := List.cons.inj dash
          rw [startsWithMsWord, lower] at notMs
          cases notMs
        · rw [following] at same
          obtain rfl := Option.some.inj same
          exact small _ (by simp)
  · rename_i equal
    rw [← (List.cons.inj equal).1]
    exact firstSmall
  · rfl

/-- The dashed spelling of a name in camel case is the name. -/
theorem dashChars_camelChars
    {name : List Char}
    (small : IsSmall name)
    (notMs : startsWithMsWord name = false) :
    dashChars (camelChars name) = name := by
  fun_cases camelChars name with
  | case1 => rfl
  | case2 last => exact dashChars_of_isSmall small
  | case3 first second rest joins =>
      obtain ⟨rfl, lower⟩ := joins
      obtain ⟨upper, lowered, -⟩ := dashChar_toUpper lower
      have restSmall : IsSmall rest := fun character member => small character (by simp [member])
      rw [dashChars, isVendorKey_of_isUpper upper, lowered, flatMap_dashChar_camelChars restSmall]
      rfl
  | case4 first second rest apart =>
      obtain ⟨firstSmall, restSmall⟩ := List.forall_mem_cons.mp small
      have lowered : first.toLower = first :=
        Text.toLower_of_not_isUpper firstSmall
      rw [dashChars, isVendorKey_camelChars small notMs, lowered,
        flatMap_dashChar_camelChars restSmall]
      rfl

/-- In camel case, a name starts with two dashes only if it does anyway. -/
theorem exists_dashes_of_camelChars
    {text rest : List Char}
    (starts : camelChars text = '-' :: '-' :: rest) :
    ∃ more, text = '-' :: '-' :: more := by
  have unlikeDash {letter : Char} (lower : letter.isLower = true) : letter.toUpper ≠ '-' := by
    intro equal
    have upper := (dashChar_toUpper lower).1
    rw [equal] at upper
    cases upper
  revert starts
  fun_cases camelChars text with
  | case1 | case2 last => nofun
  | case3 first second more joins =>
      intro starts
      exact absurd (List.cons.inj starts).1 (unlikeDash joins.2)
  | case4 first second more apart =>
      intro starts
      obtain ⟨rfl, following⟩ := List.cons.inj starts
      rcases head?_camelChars (second :: more) with ⟨letter, _, _, lower, upper⟩ | same
      · rw [following] at upper
        exact absurd (Option.some.inj upper).symm (unlikeDash lower)
      · rw [following] at same
        obtain rfl := Option.some.inj same
        exact ⟨more, rfl⟩

private theorem not_startsWith_camelCase
    {name : String}
    (notCustom : Text.startsWith "--" name = false) :
    Text.startsWith "--" (camelCase name) = false := by
  have dashes (text : String) :
      Text.startsWith "--" text = true ↔ ∃ rest, '-' :: '-' :: rest = text.toList :=
    List.isPrefixOf_iff_prefix
  rw [Bool.eq_false_iff, Ne, dashes] at notCustom ⊢
  rintro ⟨rest, starts⟩
  rw [camelCase, String.toList_ofList] at starts
  obtain ⟨more, chars⟩ := exists_dashes_of_camelChars starts.symm
  exact notCustom ⟨more, chars.symm⟩

private theorem dashed_camelCase
    {name : String}
    (small : IsSmall name.toList)
    (notCustom : Text.startsWith "--" name = false)
    (notMs : startsWithMsWord name.toList = false) :
    dashed (camelCase name) = name := by
  rw [dashed, if_neg (by simp [not_startsWith_camelCase notCustom]), camelCase,
    String.toList_ofList, dashChars_camelChars small notMs, String.ofList_toList]

/-- After `ms`, words in camel case are those of a vendor. -/
theorem dashed_ms_camelCase
    {rest : String}
    (small : IsSmall rest.toList)
    (word : ∃ letter more, rest.toList = '-' :: letter :: more ∧ letter.isLower = true) :
    dashed ("ms" ++ camelCase rest) = "-ms" ++ rest := by
  obtain ⟨letter, more, chars, lower⟩ := word
  have key : ("ms" ++ camelCase rest).toList = 'm' :: 's' :: camelChars rest.toList := by
    have inner : (camelCase rest).toList = camelChars rest.toList := String.toList_ofList
    rw [String.toList_append, inner]
    rfl
  have vendor : isVendorKey ('m' :: 's' :: camelChars rest.toList) = true := by
    rw [chars, camelChars, if_pos ⟨rfl, lower⟩]
    exact (dashChar_toUpper lower).1
  have notCustom : Text.startsWith "--" ("ms" ++ camelCase rest) = false := by
    rw [Text.startsWith, key]
    rfl
  rw [dashed, if_neg (by simp [notCustom]), key, dashChars, vendor, List.flatMap_cons,
    flatMap_dashChar_camelChars small]
  apply String.toList_inj.mp
  rw [String.toList_ofList, String.toList_append]
  rfl

/-! ## Spellings of one property -/

/-- The keys that authors write for a property: its name, the name in camel case, `ms` for the
vendor of that name, and what they write for an older name of the property. -/
inductive Spells : (name key : String) → Prop where
  | itself (name : String) : Spells name name
  | camel {name : String} (small : IsSmall name.toList)
      (notCustom : Text.startsWith "--" name = false)
      (notMs : startsWithMsWord name.toList = false) : Spells name (camelCase name)
  | ms {rest : String} (small : IsSmall rest.toList)
      (word : ∃ letter more, rest.toList = '-' :: letter :: more ∧ letter.isLower = true) :
      Spells ("-ms" ++ rest) ("ms" ++ camelCase rest)
  | older {name older key : String} (found : alias? older = some name)
      (spells : Spells older key) : Spells name key

/-- All keys of a property name it. -/
theorem Spells.canonicalName_eq
    {name key : String}
    (spells : Spells name key) :
    canonicalName key = canonicalName name := by
  induction spells with
  | itself name => rfl
  | camel small notCustom notMs =>
      rw [canonicalName, canonicalName, dashed_camelCase small notCustom notMs,
        dashed_of_isSmall small]
  | @ms rest small word =>
      have vendorSmall : IsSmall ("-ms" ++ rest).toList := by
        rw [IsSmall, String.toList_append, List.forall_mem_append]
        exact ⟨by simp, small⟩
      rw [canonicalName, canonicalName, dashed_ms_camelCase small word,
        dashed_of_isSmall vendorSmall]
  | older found _ inductionHypothesis =>
      obtain ⟨older, present⟩ := canonicalName_of_alias found
      rw [inductionHypothesis, older, present]

end AtomicCss.Property
