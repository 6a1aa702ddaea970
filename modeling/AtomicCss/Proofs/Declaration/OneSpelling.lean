import AtomicCss.Proofs.Declaration.Quotes

/-!
Contract: the one spelling of a text is spelled so already.

Owns:
- that each pass over a text leaves alone what all of them together have made;
- the spelling of a text that is in its one spelling.

Does not own: the content property, which puts quotes around a text.
-/

namespace AtomicCss.Wording

/-- The spelling that all passes together give to a text is left alone by each of them. -/
theorem passes_respellNumbers_spaced
    (text : List Char) :
    doubleQuotes (respellNumbers (spaced text)) = respellNumbers (spaced text) ∧
      collapseBlanks (respellNumbers (spaced text)) = respellNumbers (spaced text) ∧
      respellNumbers (respellNumbers (spaced text)) = respellNumbers (spaced text) :=
  ⟨doubleQuotes_of_settled (quotesSettled_respellNumbers_spaced text),
    collapseBlanks_respellNumbers (doubleQuotes text),
    respellNumbers_respellNumbers (spaced text)⟩

/-- Spelling a text twice is spelling it once. For every property but content and every text, with
quotes, parentheses and numbers of any kind, the one spelling of the text is its own one
spelling. -/
theorem canonical_canonical
    {property : String}
    (other : property ≠ "content")
    (text : String) :
    canonical property (canonical property text) = canonical property text := by
  obtain ⟨quotes, blanks, numbers⟩ := passes_respellNumbers_spaced text.toList
  have spelled (chars : List Char) :
      canonicalChars property chars = respellNumbers (spaced chars) := by
    rw [canonicalChars, if_neg other]
  have again :
      respellNumbers (spaced (respellNumbers (spaced text.toList))) =
        respellNumbers (spaced text.toList) := by
    rw [spaced, quotes, blanks, numbers]
  rw [canonical, canonical, String.toList_ofList, spelled, spelled, again]

/-- A length and a time with needless characters, next to quoted text, in their one spelling. -/
theorem spelled_length_and_time_stay :
    let spelled := canonical "transition" " +0.50PX  -1500ms 'a  b' ( 0EM , x )"
    "transition" ≠ "content" ∧ spelled = ".50px -1.5s \"a  b\" (0em,x)" ∧
      canonical "transition" spelled = spelled := by
  intro spelled
  have other : "transition" ≠ "content" := by decide
  exact ⟨other, by decide +kernel, canonical_canonical other _⟩

end AtomicCss.Wording
