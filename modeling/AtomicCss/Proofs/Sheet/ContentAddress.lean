import AtomicCss.Compile.Compiler
import AtomicCss.Proofs.Context.Entering
import AtomicCss.Proofs.Declaration.Normalization
import AtomicCss.Proofs.Text.Separated
import Mathlib.Control.Monad.Basic

/-!
Contract: which declarations and contexts share a rule, given that they share a class.

Owns:
- what a rule text tells about the at-rules, the selector and the declaration in it;
- contexts that are written alike;
- the exact condition for two declarations with one hash input to have one rule.

Does not own: the hash, which is taken as it is. A hash input does not mark where its parts end, so
that the condition is not met by every pair with one hash input.
-/

namespace AtomicCss

/-! ## Declarations in rule texts -/

namespace Declaration

/-- The text of a declaration is its property and its values, with the property again between
them. -/
theorem css_eq
    {declaration : Declaration}
    (nonempty : declaration.values ≠ []) :
    declaration.css =
      declaration.property ++ ":" ++
        Text.join (";" ++ declaration.property ++ ":") declaration.values := by
  obtain ⟨property, values, directional⟩ := declaration
  simp only [css]
  induction values with
  | nil => exact absurd rfl nonempty
  | cons value rest inductionHypothesis =>
      cases rest with
      | nil => simp [Text.join]
      | cons next others =>
          have restText := inductionHypothesis (List.cons_ne_nil next others)
          simp only [List.map_cons] at restText
          simp only [List.map_cons, Text.join]
          rw [restText]
          simp only [String.append_assoc]

/-- A property without a colon is read back from the text of its declaration. -/
theorem property_eq_of_css_eq
    {first second : Declaration}
    (firstNonempty : first.values ≠ [])
    (secondNonempty : second.values ≠ [])
    (firstFree : ':' ∉ first.property.toList)
    (secondFree : ':' ∉ second.property.toList)
    (sameCss : first.css = second.css) :
    first.property = second.property := by
  rw [css_eq firstNonempty, css_eq secondNonempty] at sameCss
  exact (Text.append_mark_inj (by rfl) firstFree secondFree sameCss).1

/-- The values of a declaration are read back from its text and the text that is hashed. A comma
ends a value in the one, a semicolon in the other. -/
theorem values_eq_of_css_eq
    {first second : Declaration}
    (firstNonempty : first.values ≠ [])
    (secondNonempty : second.values ≠ [])
    (sameProperty : first.property = second.property)
    (sameCss : first.css = second.css)
    (sameValueText : first.valueText = second.valueText) :
    first.values = second.values := by
  rw [css_eq firstNonempty, css_eq secondNonempty, sameProperty,
    String.append_right_inj] at sameCss
  have commaChars : (", " : String).toList = ',' :: [' '] := by rfl
  have semicolonChars :
      (";" ++ second.property ++ ":").toList = ';' :: (second.property.toList ++ [':']) := by
    rw [String.toList_append, String.toList_append]
    rfl
  exact Text.eq_of_join_eq_join commaChars semicolonChars (by decide)
    firstNonempty secondNonempty sameValueText sameCss

end Declaration

/-! ## Contexts in rule texts -/

namespace Context

/-- Two contexts are written alike: the same at-rules around the same selector, at the same
priority. -/
structure WrittenAlike (first second : Context) : Prop where
  atRules : Text.sortStrings first.atRules = Text.sortStrings second.atRules
  pseudos : Text.concat first.selectorPseudos = Text.concat second.selectorPseudos
  priority : first.priority = second.priority

def IsBraceFree (context : Context) : Prop :=
  ∀ segment ∈ context.segments, '\x7b' ∉ segment.text.toList

theorem mem_atRules_iff
    (context : Context)
    (written : String) :
    written ∈ context.atRules ↔ .atRule written ∈ context.segments := by
  simp only [atRules, List.mem_filterMap]
  constructor
  · rintro ⟨segment, member, chosen⟩
    cases segment with
    | pseudo other => cases chosen
    | atRule other => exact Option.some.inj chosen ▸ member
  · intro member
    exact ⟨_, member, rfl⟩

theorem mem_pseudos_iff
    (context : Context)
    (written : String) :
    written ∈ context.pseudos ↔ .pseudo written ∈ context.segments := by
  simp only [pseudos, List.mem_filterMap]
  constructor
  · rintro ⟨segment, member, chosen⟩
    cases segment with
    | pseudo other => exact Option.some.inj chosen ▸ member
    | atRule other => cases chosen
  · intro member
    exact ⟨_, member, rfl⟩

/-- A selector has the pseudo selectors of its context in another order. -/
theorem perm_selectorPseudos
    (context : Context) :
    context.selectorPseudos.Perm context.pseudos := by
  have sorted :=
    (Text.perm_sortStrings
      (context.pseudos.filter fun written => !Segment.isElementText written)).append
      (Text.perm_sortStrings (context.pseudos.filter Segment.isElementText))
  have swapped :=
    List.perm_append_comm.trans (List.filter_append_perm Segment.isElementText context.pseudos)
  exact sorted.trans swapped

theorem segments_eq_nil_iff
    (context : Context) :
    context.segments = [] ↔ context.pseudos = [] ∧ context.atRules = [] := by
  obtain ⟨segments⟩ := context
  cases segments with
  | nil => simp [pseudos, atRules]
  | cons segment rest =>
      cases segment with
      | pseudo written => simp [pseudos]
      | atRule written => simp [atRules]

private theorem IsRead.pseudo_ne_empty
    {context : Context}
    (isRead : context.IsRead)
    {written : String}
    (member : written ∈ context.pseudos) :
    written ≠ "" := by
  rintro rfl
  have head := (isRead _ ((context.mem_pseudos_iff "").mp member)).head_pseudo
  cases head

/-- How an at-rule looks from inside the text of a rule: it starts with its sign, and the first
brace after it opens its block. -/
def IsBlockHead (atRule : String) : Prop :=
  atRule.toList.head? = some '@' ∧ '\x7b' ∉ atRule.toList

/-- At-rules and what they enclose are read back from the text of the blocks. -/
theorem foldr_block_inj
    {first second : List String}
    (firstHeads : ∀ atRule ∈ first, IsBlockHead atRule)
    (secondHeads : ∀ atRule ∈ second, IsBlockHead atRule)
    {firstRule secondRule : String}
    (firstDotted : firstRule.toList.head? = some '.')
    (secondDotted : secondRule.toList.head? = some '.')
    (equal :
      first.foldr (fun atRule inner => atRule ++ "\x7b" ++ inner ++ "\x7d") firstRule =
        second.foldr (fun atRule inner => atRule ++ "\x7b" ++ inner ++ "\x7d") secondRule) :
    first = second ∧ firstRule = secondRule := by
  induction first generalizing second with
  | nil =>
      cases second with
      | nil => exact ⟨rfl, equal⟩
      | cons atRule rest =>
          have sameHead := congrArg (fun text : String => text.toList.head?) equal
          obtain ⟨signed, -⟩ := secondHeads atRule List.mem_cons_self
          simp [firstDotted, signed] at sameHead
  | cons atRule rest inductionHypothesis =>
      obtain ⟨⟨signed, free⟩, restHeads⟩ := List.forall_mem_cons.mp firstHeads
      cases second with
      | nil =>
          have sameHead := congrArg (fun text : String => text.toList.head?) equal
          simp [secondDotted, signed] at sameHead
      | cons otherRule otherRest =>
          obtain ⟨⟨-, otherFree⟩, otherHeads⟩ := List.forall_mem_cons.mp secondHeads
          simp only [List.foldr_cons] at equal
          rw [String.append_left_inj] at equal
          obtain ⟨sameRule, sameInner⟩ := Text.append_mark_inj (by rfl) free otherFree equal
          obtain ⟨sameRest, sameText⟩ := inductionHypothesis restHeads otherHeads sameInner
          exact ⟨by rw [sameRule, sameRest], sameText⟩

private theorem isBlockHead_of_mem_sorted
    {context : Context}
    (isRead : context.IsRead)
    (braceFree : context.IsBraceFree) :
    ∀ atRule ∈ Text.sortStrings context.atRules, IsBlockHead atRule := by
  intro atRule member
  have unsorted := (Text.perm_sortStrings context.atRules).mem_iff.mp member
  have level := (context.mem_atRules_iff atRule).mp unsorted
  exact ⟨(isRead _ level).head_atRule, braceFree _ level⟩

private theorem IsBraceFree.pseudos
    {context : Context}
    (braceFree : context.IsBraceFree) :
    '\x7b' ∉ (Text.concat context.selectorPseudos).toList := by
  intro brace
  obtain ⟨written, member, inside⟩ := (Text.mem_concat_iff _ _).mp brace
  have unsorted := context.perm_selectorPseudos.mem_iff.mp member
  exact braceFree _ ((context.mem_pseudos_iff written).mp unsorted) inside

private theorem head_selector
    (context : Context)
    (name css : String) :
    (context.selector name ++ "\x7b" ++ css ++ "\x7d").toList.head? = some '.' := by
  rw [selector, Nat.add_comm, List.replicate_succ, Text.concat_cons]
  simp only [String.append_assoc]
  rw [String.toList_append]
  rfl

/-- The at-rules, the pseudo selectors and the declaration of a rule are read back from its
text. -/
theorem parts_of_wrap_eq
    {first second : Context}
    (firstRead : first.IsRead)
    (secondRead : second.IsRead)
    (firstFree : first.IsBraceFree)
    (secondFree : second.IsBraceFree)
    {name firstCss secondCss : String}
    (equal :
      first.wrap (first.selector name ++ "\x7b" ++ firstCss ++ "\x7d") =
        second.wrap (second.selector name ++ "\x7b" ++ secondCss ++ "\x7d")) :
    Text.sortStrings first.atRules = Text.sortStrings second.atRules ∧
      Text.concat first.selectorPseudos = Text.concat second.selectorPseudos ∧
      firstCss = secondCss := by
  obtain ⟨sameAtRules, sameRule⟩ :=
    foldr_block_inj (isBlockHead_of_mem_sorted firstRead firstFree)
      (isBlockHead_of_mem_sorted secondRead secondFree)
      (first.head_selector name _) (second.head_selector name _) equal
  have sameCount := Text.length_eq_of_sortStrings_eq sameAtRules
  -- The class is repeated equally often, so that the rest of the selectors can be compared.
  simp only [selector, sameCount, String.append_assoc, String.append_right_inj] at sameRule
  simp only [← String.append_assoc, String.append_left_inj] at sameRule
  obtain ⟨samePseudos, sameCss⟩ :=
    Text.append_mark_inj (by rfl) firstFree.pseudos secondFree.pseudos sameRule
  exact ⟨sameAtRules, samePseudos, sameCss⟩

/-- The writing of a context shows whether it has any level. -/
theorem IsRead.segments_eq_nil_iff_written
    {context : Context}
    (isRead : context.IsRead) :
    context.segments = [] ↔
      Text.concat context.selectorPseudos = "" ∧ Text.sortStrings context.atRules = [] := by
  have nonempty : ∀ written ∈ context.selectorPseudos, written ≠ "" := by
    intro written member
    exact isRead.pseudo_ne_empty (context.perm_selectorPseudos.mem_iff.mp member)
  rw [segments_eq_nil_iff, Text.concat_eq_empty_iff nonempty]
  have samePseudos := context.perm_selectorPseudos.length_eq
  have sameAtRules := (Text.perm_sortStrings context.atRules).length_eq
  rw [← List.length_eq_zero_iff, ← List.length_eq_zero_iff, ← List.length_eq_zero_iff,
    ← List.length_eq_zero_iff, samePseudos, sameAtRules]

/-- Contexts that are written alike contribute equally much to hash inputs. -/
theorem WrittenAlike.length_modifiers
    {first second : Context}
    (alike : first.WrittenAlike second)
    (firstRead : first.IsRead)
    (secondRead : second.IsRead) :
    first.modifiers.length = second.modifiers.length := by
  have pseudosLength :
      (Text.concat (Text.sortStrings first.pseudos)).length =
        (Text.concat (Text.sortStrings second.pseudos)).length := by
    rw [Text.length_concat_of_perm (Text.perm_sortStrings first.pseudos),
      Text.length_concat_of_perm (Text.perm_sortStrings second.pseudos),
      ← Text.length_concat_of_perm first.perm_selectorPseudos,
      ← Text.length_concat_of_perm second.perm_selectorPseudos, alike.pseudos]
  have emptyTogether : first.segments = [] ↔ second.segments = [] := by
    rw [firstRead.segments_eq_nil_iff_written, secondRead.segments_eq_nil_iff_written,
      alike.pseudos, alike.atRules]
  simp only [modifiers, List.isEmpty_iff, emptyTogether]
  by_cases outside : second.segments = []
  · rw [if_pos outside, if_pos outside]
  · rw [if_neg outside, if_neg outside, String.length_append, String.length_append,
      pseudosLength, alike.atRules]

end Context

/-! ## Rules that share a hash input -/

namespace Declaration

def hashInput (declaration : Declaration) (context : Context) : String :=
  classHashInput declaration.property declaration.valueText context declaration.directional

/-- The property holds no colon, and the context no opening brace: neither can be mistaken for the
mark that ends it in a rule text. -/
structure IsPlain (declaration : Declaration) (context : Context) : Prop where
  property : ':' ∉ declaration.property.toList
  context : context.IsBraceFree

theorem rule_eq_of_writtenAlike
    (declaration : Declaration)
    {first second : Context}
    (alike : first.WrittenAlike second)
    (sameInput : declaration.hashInput first = declaration.hashInput second)
    (start : String) :
    declaration.rule start first = declaration.rule start second := by
  have sameName :
      className start declaration.property declaration.valueText first declaration.directional =
        className start declaration.property declaration.valueText second
          declaration.directional :=
    congrArg (fun input => start ++ Hash.text36 input) sameInput
  have sameCount := Text.length_eq_of_sortStrings_eq alike.atRules
  have sameText (shown : Declaration) (name : String) :
      shown.ruleText name first = shown.ruleText name second := by
    simp only [ruleText, Context.wrap, Context.selector, alike.atRules, alike.pseudos, sameCount]
  simp only [rule, ruleCss, sameName, sameText, rulePriority, alike.priority]

theorem isSome_mirrored?
    (declaration : Declaration) :
    declaration.mirrored?.isSome = declaration.directional := by
  cases directional : declaration.directional with
  | false => simp [mirrored?, directional]
  | true => simp [mirrored?, directional]

private theorem directional_eq_of_rule_eq
    {first second : Declaration}
    {firstContext secondContext : Context}
    {start : String}
    (sameRule : first.rule start firstContext = second.rule start secondContext) :
    first.directional = second.directional := by
  have samePresence := congrArg (fun rule : AtomicRule => rule.css.rtl.isSome) sameRule
  simpa only [rule, ruleCss, Option.isSome_map, isSome_mirrored?] using samePresence

/-- Plain declarations with one hash input have one rule only where they are the same, in contexts
that are written alike. -/
theorem eq_and_writtenAlike_of_rule_eq
    {first second : Declaration}
    {firstContext secondContext : Context}
    (firstNonempty : first.values ≠ [])
    (secondNonempty : second.values ≠ [])
    (firstRead : firstContext.IsRead)
    (secondRead : secondContext.IsRead)
    (firstPlain : first.IsPlain firstContext)
    (secondPlain : second.IsPlain secondContext)
    (sameInput : first.hashInput firstContext = second.hashInput secondContext)
    {start : String}
    (sameRule : first.rule start firstContext = second.rule start secondContext) :
    first = second ∧ firstContext.WrittenAlike secondContext := by
  have sameDirection := directional_eq_of_rule_eq sameRule
  obtain ⟨sameName, sameCss, samePriority⟩ := AtomicRule.mk.inj sameRule
  have sameText := congrArg CssPair.ltr sameCss
  simp only [ruleCss, sameName, ruleText] at sameText
  obtain ⟨sameAtRules, samePseudos, sameDeclaration⟩ :=
    Context.parts_of_wrap_eq firstRead secondRead firstPlain.context secondPlain.context sameText
  have sameProperty :=
    property_eq_of_css_eq firstNonempty secondNonempty firstPlain.property secondPlain.property
      sameDeclaration
  have alike : firstContext.WrittenAlike secondContext := by
    rw [sameProperty, rulePriority, rulePriority, Nat.add_left_cancel_iff] at samePriority
    exact ⟨sameAtRules, samePseudos, samePriority⟩
  -- Nothing marks the end of the value text in a hash input, but what follows it is equally long.
  have sameValueText : first.valueText = second.valueText := by
    unfold hashInput classHashInput at sameInput
    rw [sameDirection, String.append_left_inj, sameProperty] at sameInput
    simp only [String.append_assoc, String.append_right_inj] at sameInput
    exact Text.append_inj_of_length sameInput (alike.length_modifiers firstRead secondRead)
  have sameValues :=
    values_eq_of_css_eq firstNonempty secondNonempty sameProperty sameDeclaration sameValueText
  obtain ⟨property, values, directional⟩ := first
  obtain rfl : property = second.property := sameProperty
  obtain rfl : values = second.values := sameValues
  obtain rfl : directional = second.directional := sameDirection
  exact ⟨rfl, alike⟩

end Declaration

/-! ## Rules of one compiler -/

/-- Settings under which a leaf of some style map has a declaration. -/
structure Derives (options : Options) (leaf : Leaf) (declaration : Declaration) : Prop where
  flattened : ∃ scope styles leaves, flatten scope styles = .ok leaves ∧ leaf ∈ leaves
  normalized : ∃ normalized, options.normalize leaf.property leaf.value = .ok normalized ∧
    declaration ∈ normalized.declarations

namespace Derives

variable {options : Options} {leaf : Leaf} {declaration : Declaration}

private theorem isRead_context
    (derives : Derives options leaf declaration) :
    leaf.context.IsRead := by
  obtain ⟨scope, styles, leaves, flattened, member⟩ := derives.flattened
  exact Context.isRead_of_mem_flatten flattened member

theorem values_ne_nil
    (derives : Derives options leaf declaration) :
    declaration.values ≠ [] := by
  obtain ⟨normalized, success, member⟩ := derives.normalized
  exact Options.values_ne_nil_of_mem_normalize success member

end Derives

/-- Two declarations of one compiler that share a hash input, and so a class, share their rule if
they are the same declaration in contexts that are written alike. For plain ones this is the only
way to share it: any other pair has one class for two rules. -/
theorem shared_class_shares_rule_iff
    (compiler : Compiler)
    {firstLeaf secondLeaf : Leaf}
    {first second : Declaration}
    (firstDerives : Derives compiler.options firstLeaf first)
    (secondDerives : Derives compiler.options secondLeaf second)
    (sameInput : first.hashInput firstLeaf.context = second.hashInput secondLeaf.context) :
    (first = second → firstLeaf.context.WrittenAlike secondLeaf.context →
      first.rule compiler.options.classPrefix firstLeaf.context =
        second.rule compiler.options.classPrefix secondLeaf.context) ∧
    (first.IsPlain firstLeaf.context → second.IsPlain secondLeaf.context →
      (first.rule compiler.options.classPrefix firstLeaf.context =
          second.rule compiler.options.classPrefix secondLeaf.context ↔
        first = second ∧ firstLeaf.context.WrittenAlike secondLeaf.context)) := by
  have shared (same : first = second)
      (alike : firstLeaf.context.WrittenAlike secondLeaf.context) :
      first.rule compiler.options.classPrefix firstLeaf.context =
        second.rule compiler.options.classPrefix secondLeaf.context := by
    subst same
    exact first.rule_eq_of_writtenAlike alike sameInput _
  refine ⟨shared, ?_⟩
  intro firstPlain secondPlain
  constructor
  · intro sameRule
    exact Declaration.eq_and_writtenAlike_of_rule_eq firstDerives.values_ne_nil
      secondDerives.values_ne_nil firstDerives.isRead_context secondDerives.isRead_context
      firstPlain secondPlain sameInput sameRule
  · rintro ⟨same, alike⟩
    exact shared same alike

/-- A chain of two fonts and a text that lists them share a class, but not a rule. -/
theorem chain_and_text_share_class :
    let compiler : Compiler := ⟨Options.default, by decide⟩
    let chainLeaf : Leaf :=
      ⟨"fontFamily", "fontFamily", Context.empty, .chain [.text "Arial", .text "serif"]⟩
    let textLeaf : Leaf := ⟨"fontFamily", "fontFamily", Context.empty, .text "Arial, serif"⟩
    let chain : Declaration := ⟨"font-family", ["Arial", "serif"], false⟩
    let text : Declaration := ⟨"font-family", ["Arial, serif"], false⟩
    Derives compiler.options chainLeaf chain ∧ Derives compiler.options textLeaf text ∧
      chain.hashInput Context.empty = text.hashInput Context.empty ∧
      chain.rule compiler.options.classPrefix Context.empty ≠
        text.rule compiler.options.classPrefix Context.empty := by
  intro compiler chainLeaf textLeaf chain text
  have chainDerives : Derives compiler.options chainLeaf chain :=
    ⟨⟨"a", [("fontFamily", chainLeaf.value)], [chainLeaf], by rfl, by simp⟩,
      ⟨⟨[chain], []⟩, by decide +kernel, by simp⟩⟩
  have textDerives : Derives compiler.options textLeaf text :=
    ⟨⟨"b", [("fontFamily", textLeaf.value)], [textLeaf], by rfl, by simp⟩,
      ⟨⟨[text], []⟩, by decide +kernel, by simp⟩⟩
  have sameInput : chain.hashInput Context.empty = text.hashInput Context.empty := by decide
  refine ⟨chainDerives, textDerives, sameInput, ?_⟩
  intro sameRule
  have plain (shown : Declaration) (colonFree : ':' ∉ shown.property.toList) :
      shown.IsPlain Context.empty :=
    ⟨colonFree, fun _ member => absurd member List.not_mem_nil⟩
  have same :=
    ((shared_class_shares_rule_iff compiler chainDerives textDerives sameInput).2
      (plain chain (by decide)) (plain text (by decide))).mp sameRule
  exact absurd same.1 (by decide)

end AtomicCss
