import AtomicCss.Compile.Compiler
import AtomicCss.Proofs.Property.Spelling

/-!
Contract: the spelling of a key does not matter.

Owns:
- what keys of one property have in common: their normal forms, what they are resolved to, and what
  they compile to.

Does not own: the key that classes are listed under, which is the one that was written.
-/

namespace AtomicCss

/-! ## Keys of one property -/

section SameProperty

variable {first second : String}
variable (same : Property.canonicalName first = Property.canonicalName second)
include same

theorem Options.normalize_congr
    (options : Options)
    (value : Value) :
    options.normalize first value = options.normalize second value := by
  unfold normalize
  rw [same]

theorem Options.resolveProperty_congr
    (options : Options) :
    options.resolveProperty first = options.resolveProperty second := by
  unfold resolveProperty
  rw [same]

/-- A leaf depends on its property only through the name of the property. -/
theorem Leaf.compile_congr
    (options : Options)
    (scope : String)
    (parameters : List String)
    (key : String)
    (context : Context)
    (value : Value) :
    (Leaf.mk key first context value).compile options scope parameters =
      (Leaf.mk key second context value).compile options scope parameters := by
  have normal := options.normalize_congr same
  have resolved := options.resolveProperty_congr same
  cases value with
  | null | object _ => rfl
  | number _ | text _ | chain _ | keyframes _ => simp only [compile, normal, rules]
  | dynamic reference => simp only [compile, rules, dynamicDeclaration, binding, resolved]

end SameProperty

/-- The spelling of a key does not matter. Whatever the settings are, a key and the name of its
property have the same normal form, warnings or error with every value, and stand for the same
property. The name is a custom property or has no capitals, and is no older one; the keys that spell
such a name have it for the name of their property. So all keys that spell one property, with
dashes, in camel case, with a vendor in front or by an older name, have the same normal forms, stand
for the same property, and compile to the same rules in every context. -/
theorem key_spelling_does_not_matter
    (options : Options) :
    (∀ key value,
      options.normalize (Property.canonicalName key) value = options.normalize key value) ∧
    (∀ key, options.resolveProperty (Property.canonicalName key) = options.resolveProperty key) ∧
    (∀ key, Property.IsPresentName (Property.canonicalName key)) ∧
    (∀ name key, Property.IsPresentName name → Property.Spells name key →
      Property.canonicalName key = name) ∧
    ∀ name first second, Property.Spells name first → Property.Spells name second →
      (∀ value, options.normalize first value = options.normalize second value) ∧
      options.resolveProperty first = options.resolveProperty second ∧
      ∀ scope parameters key context value,
        (Leaf.mk key first context value).compile options scope parameters =
          (Leaf.mk key second context value).compile options scope parameters := by
  refine ⟨?_, ?_, Property.isPresentName_canonicalName, ?_, ?_⟩
  · intro key value
    exact options.normalize_congr (Property.canonicalName_canonicalName key) value
  · intro key
    exact options.resolveProperty_congr (Property.canonicalName_canonicalName key)
  · intro name key present spells
    exact spells.canonicalName_eq.trans (Property.canonicalName_eq_self_iff.mpr present)
  · intro name first second spellsFirst spellsSecond
    have same := spellsFirst.canonicalName_eq.trans spellsSecond.canonicalName_eq.symm
    exact ⟨options.normalize_congr same, options.resolveProperty_congr same,
      Leaf.compile_congr same options⟩

/-- The start margin by its older name, and a vendor's property by both spellings of the vendor. -/
theorem start_margin_and_vendor_spellings :
    (Property.Spells "margin-inline-start" "marginStart" ∧
      Property.Spells "margin-inline-start" "marginInlineStart" ∧
      Property.canonicalName "marginStart" = "margin-inline-start" ∧
      ∀ value, Options.default.normalize "marginStart" value =
        Options.default.normalize "marginInlineStart" value) ∧
    (Property.Spells "-ms-flex" "msFlex" ∧ Property.Spells "-ms-flex" "MsFlex" ∧
      ∀ value,
        Options.default.normalize "msFlex" value = Options.default.normalize "MsFlex" value) := by
  have older : Property.Spells "margin-start" "marginStart" :=
    .camel (by simp [Property.IsSmall]) (by decide) (by decide)
  have margin : Property.Spells "margin-inline-start" "marginStart" := .older (by decide) older
  have inline : Property.Spells "margin-inline-start" "marginInlineStart" :=
    .camel (by simp [Property.IsSmall]) (by decide) (by decide)
  have small : Property.Spells "-ms-flex" "msFlex" :=
    @Property.Spells.ms "-flex" (by simp [Property.IsSmall]) ⟨'f', "lex".toList, rfl, by decide⟩
  have capital : Property.Spells "-ms-flex" "MsFlex" :=
    .camel (by simp [Property.IsSmall]) (by decide) (by decide)
  have present : Property.IsPresentName "margin-inline-start" :=
    ⟨.inr (by simp [Property.IsSmall]), by decide⟩
  obtain ⟨-, -, -, named, alike⟩ := key_spelling_does_not_matter Options.default
  exact ⟨⟨margin, inline, named _ _ present margin, (alike _ _ _ margin inline).1⟩, small, capital,
    (alike _ _ _ small capital).1⟩

end AtomicCss
