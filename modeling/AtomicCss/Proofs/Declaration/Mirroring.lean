import AtomicCss.Declaration.Basic
import AtomicCss.Sheet.Artifact
import Mathlib.Tactic.SplitIfs

/-!
Contract: declarations in the opposite writing direction.

Owns:
- the declaration that pages of a writing direction get;
- the characters that mirroring brings into the name of a property.

Does not own: what a declaration means on a page.
-/

namespace AtomicCss

namespace Property

def isSideCharacter (character : Char) : Bool :=
  character.isAlpha || character = '-'

private theorem mem_replaceFirst?
    {character : Char}
    {target replacement text replaced : List Char}
    (found : replaceFirst? target replacement text = some replaced)
    (member : character ∈ replaced) :
    character ∈ replacement ∨ character ∈ text := by
  induction text generalizing replaced with
  | nil =>
      unfold replaceFirst? at found
      split at found
      · rw [← Option.some.inj found] at member
        exact Or.inl member
      · cases found
  | cons head tail inductionHypothesis =>
      unfold replaceFirst? at found
      split at found
      · rw [← Option.some.inj found] at member
        rcases List.mem_append.mp member with inserted | kept
        · exact Or.inl inserted
        · exact Or.inr (List.mem_of_mem_drop kept)
      · obtain ⟨rest, foundRest, rfl⟩ := Option.map_eq_some_iff.mp found
        rcases List.mem_cons.mp member with rfl | inRest
        · exact Or.inr List.mem_cons_self
        · rcases inductionHypothesis foundRest inRest with inserted | kept
          · exact Or.inl inserted
          · exact Or.inr (List.mem_cons_of_mem head kept)

private theorem mem_mirrorInline
    {character : Char}
    {name : String}
    (member : character ∈ (mirrorInline name).toList) :
    character ∈ name.toList ∨ isSideCharacter character = true := by
  have startPlain : "inline-start".toList.all isSideCharacter = true := by decide
  have finishPlain : "inline-end".toList.all isSideCharacter = true := by decide
  unfold mirrorInline at member
  dsimp only at member
  split at member
  · rename_i mirrored found
    rw [String.toList_ofList] at member
    rcases mem_replaceFirst? found member with inserted | kept
    · exact Or.inr (List.all_eq_true.mp finishPlain character inserted)
    · exact Or.inl kept
  · rw [String.toList_ofList] at member
    cases found : replaceFirst? "inline-end".toList "inline-start".toList name.toList with
    | none =>
        rw [found] at member
        exact Or.inl member
    | some mirrored =>
        rw [found] at member
        rcases mem_replaceFirst? found member with inserted | kept
        · exact Or.inr (List.all_eq_true.mp startPlain character inserted)
        · exact Or.inl kept

private theorem mem_of_cornerSides?
    {name : String}
    {block side : List Char}
    (corner : cornerSides? name = some (block, side))
    {character : Char}
    (member : character ∈ block) :
    character ∈ name.toList := by
  obtain ⟨sides, inside, cut⟩ := Option.bind_eq_some_iff.mp corner
  have inSides : character ∈ sides := by
    unfold splitAtDash? at cut
    split at cut
    · cases cut
    · obtain ⟨rfl, -⟩ := Prod.mk.inj (Option.some.inj cut)
      exact (List.takeWhile_sublist _).subset member
  unfold between? at inside
  dsimp only at inside
  split at inside
  · split at inside
    · rw [← Option.some.inj inside] at inSides
      exact List.mem_of_mem_drop (List.mem_of_mem_take inSides)
    · cases inside
  · cases inside

/-- The mirrored name brings in no characters but those of sides. -/
theorem mem_mirror
    {character : Char}
    {name : String}
    (member : character ∈ (mirror name).toList) :
    character ∈ name.toList ∨ isSideCharacter character = true := by
  have wordPlain (word : String) (listed : word ∈ ["border-", "-", "start", "end", "-radius"])
      (letter : Char) (inside : letter ∈ word.toList) : isSideCharacter letter = true := by
    have words :
        (["border-", "-", "start", "end", "-radius"].all
          fun shown => shown.toList.all isSideCharacter) = true := by
      decide
    exact List.all_eq_true.mp (List.all_eq_true.mp words word listed) letter inside
  unfold mirror at member
  split at member
  · rename_i block side corner
    split at member
    · rename_i opposite turned
      have oppositePlain : ∀ letter ∈ opposite.toList, isSideCharacter letter = true := by
        unfold oppositeEnd? at turned
        split_ifs at turned
        · exact Option.some.inj turned ▸ wordPlain "end" (by decide)
        · exact Option.some.inj turned ▸ wordPlain "start" (by decide)
      simp only [String.toList_append, List.mem_append, String.toList_ofList] at member
      rcases member with (((start | inBlock) | dash) | inOpposite) | finish
      · exact Or.inr (wordPlain "border-" (by decide) character start)
      · exact Or.inl (mem_of_cornerSides? corner inBlock)
      · exact Or.inr (wordPlain "-" (by decide) character dash)
      · exact Or.inr (oppositePlain character inOpposite)
      · exact Or.inr (wordPlain "-radius" (by decide) character finish)
    · exact Or.inl member
  · exact mem_mirrorInline member

end Property

namespace Declaration

def toward (declaration : Declaration) : Direction → Declaration
  | .ltr => declaration
  | .rtl => declaration.mirrored?.getD declaration

end Declaration

end AtomicCss
