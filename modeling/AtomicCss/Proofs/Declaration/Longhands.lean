import AtomicCss.Proofs.Declaration.OwnNames
import AtomicCss.Proofs.Sheet.TurnedText

/-!
Contract: the declarations that one key with one literal is split into.

Owns:
- the properties of these declarations, no two of which are the same;
- their rules in a context, no two of which are the same either.

Does not own: the names of the rules, which may still collide.
-/

namespace AtomicCss

namespace Options

variable (options : Options)

/-- The property that is declared for a name: its logical counterpart, if that is wanted. -/
def declaredName (name : String) : String :=
  (options.logical? name).getD name

theorem property_directed
    (name : String)
    (values : List String) :
    (options.directed name values).property = options.declaredName name := by
  unfold directed declaredName
  cases options.logical? name with
  | none => rfl
  | some logical => rfl

/-- The longhands of a shorthand stay apart along the writing direction. -/
theorem nodup_declaredName_longhands
    {name : String}
    {shorthand : Shorthand}
    (found : Shorthand.ofName? name = some shorthand) :
    (shorthand.longhands.map options.declaredName).Nodup ∧
      ∀ declared ∈ shorthand.longhands.map options.declaredName, ':' ∉ declared.toList := by
  let declare (wanted : Bool) (longhand : String) : String :=
    (if wanted then Property.logical? longhand else none).getD longhand
  have tested :
      Shorthand.table.all fun entry => [true, false].all fun wanted =>
        decide (entry.2.longhands.map (declare wanted)).Nodup &&
          (entry.2.longhands.map (declare wanted)).all fun declared =>
            !declared.toList.contains ':' := by
    decide +kernel
  have entryTested := List.all_eq_true.mp tested _ (mem_of_table_lookup found)
  have listed : options.logicalProperties ∈ [true, false] := by
    cases options.logicalProperties <;> decide
  have passed := List.all_eq_true.mp entryTested _ listed
  rw [Bool.and_eq_true, decide_eq_true_eq, List.all_eq_true] at passed
  refine ⟨passed.1, ?_⟩
  intro declared member
  simpa using passed.2 declared member

theorem map_fst_expand
    (name : String)
    (literal : Literal) :
    (options.expand name literal).1.map Prod.fst = [name] ∨
      ∃ shorthand, Shorthand.ofName? name = some shorthand ∧
        (options.expand name literal).1.map Prod.fst = shorthand.longhands := by
  unfold expand
  split
  · exact .inl rfl
  · rename_i shorthand found
    have listed : Shorthand.ofName? name = some shorthand := by
      split at found
      · exact found
      · cases found
    cases literal with
    | number magnitude =>
        refine .inr ⟨shorthand, listed, ?_⟩
        rw [List.map_map]
        exact List.map_id _
    | text written =>
        unfold expandText
        simp only
        split
        · exact .inl rfl
        · split
          · rename_i pairs distributed
            refine .inr ⟨shorthand, listed, ?_⟩
            rw [List.map_map]
            exact map_fst_distribute distributed
          · exact .inl rfl

private theorem map_property_normalizeLiteral
    (name : String)
    (literal : Literal) :
    (options.normalizeLiteral name literal).declarations.map Declaration.property =
      ((options.expand name literal).1.map Prod.fst).map options.declaredName := by
  simp [normalizeLiteral, property_directed, Function.comp_def]

/-- A literal has one declaration, or several of different properties without a colon. -/
theorem normalizeLiteral_single_or_apart
    (name : String)
    (literal : Literal) :
    (∃ declaration, (options.normalizeLiteral name literal).declarations = [declaration]) ∨
      ((options.normalizeLiteral name literal).declarations.map Declaration.property).Nodup ∧
        ∀ declaration ∈ (options.normalizeLiteral name literal).declarations,
          ':' ∉ declaration.property.toList := by
  have properties := options.map_property_normalizeLiteral name literal
  rcases options.map_fst_expand name literal with whole | ⟨shorthand, found, split⟩
  · left
    rw [whole] at properties
    apply List.length_eq_one_iff.mp
    simpa using congrArg List.length properties
  · right
    obtain ⟨nodup, free⟩ := options.nodup_declaredName_longhands found
    rw [split] at properties
    rw [← properties] at nodup free
    refine ⟨nodup, ?_⟩
    intro declaration member
    exact free declaration.property (List.mem_map_of_mem member)

end Options

/-- A key with a literal always has declarations. -/
theorem Options.exists_normalize_of_literal
    (options : Options)
    (key : String)
    {value : Value}
    {literal : Literal}
    (isLiteral : value.literal? = some literal) :
    ∃ normalized, options.normalize key value = .ok normalized ∧
      normalized.declarations =
        (options.normalizeLiteral (Property.canonicalName key) literal).declarations := by
  cases value with
  | number _ | text _ =>
      obtain rfl := Option.some.inj isLiteral
      exact ⟨_, rfl, rfl⟩
  | null | chain _ | dynamic _ | keyframes _ | object _ => cases isLiteral

private theorem Declaration.css_eq_of_rule_eq
    {first second : Declaration}
    {start : String}
    {context : Context}
    (same : first.rule start context = second.rule start context) :
    first.css = second.css := by
  have sameText :
      first.ruleText (first.rule start context).className context =
        second.ruleText (second.rule start context).className context :=
    congrArg (fun rule => rule.css.ltr) same
  rw [same] at sameText
  exact css_eq_of_ruleText_eq sameText

/-- No two rules of a literal are the same. -/
theorem nodup_rules_normalizeLiteral
    (options : Options)
    (name : String)
    (literal : Literal)
    (start : String)
    (context : Context) :
    ((options.normalizeLiteral name literal).declarations.map
      fun declaration => declaration.rule start context).Nodup := by
  rcases options.normalizeLiteral_single_or_apart name literal with
    ⟨only, single⟩ | ⟨nodup, free⟩
  · rw [single]
    exact List.nodup_singleton _
  · have filled (declaration : Declaration)
        (member : declaration ∈ (options.normalizeLiteral name literal).declarations) :
        declaration.values ≠ [] := by
      obtain ⟨pair, -, rfl⟩ := List.mem_map.mp member
      exact options.values_directed_ne_nil pair.1 (List.cons_ne_nil _ _)
    apply List.Nodup.map_on _ (List.Nodup.of_map Declaration.property nodup)
    -- Equal rules have equal texts, from which the property is read back.
    intro first firstMember second secondMember same
    have sameProperty : first.property = second.property :=
      Declaration.property_eq_of_css_eq (filled first firstMember) (filled second secondMember)
        (free first firstMember) (free second secondMember) (Declaration.css_eq_of_rule_eq same)
    exact List.inj_on_of_nodup_map nodup firstMember secondMember sameProperty

end AtomicCss
