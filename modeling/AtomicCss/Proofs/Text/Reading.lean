import AtomicCss.Text.Scan

/-!
Contract: a reading of style text, from one character to the next.

Owns:
- where a reading stands after a text;
- that quotes do not depend on parentheses;
- that white space outside quotes leaves a reading where it is.

Does not own: what is read.
-/

namespace AtomicCss.Text

def Scan.after (scan : Scan) (text : List Char) : Scan :=
  text.foldl next scan

/-- White space separates only where a text could start. -/
theorem Scan.separates_iff
    (scan : Scan) :
    scan.separates = true ↔ scan = start := by
  obtain ⟨quote, depth⟩ := scan
  cases quote with
  | none => simp [separates, quoted, start]
  | some mark => simp [separates, quoted, start]

/-- Quotes do not depend on parentheses. -/
theorem quote_next_congr
    {first second : Scan}
    (same : first.quote = second.quote)
    (character : Char) :
    (first.next character).quote = (second.next character).quote := by
  unfold Scan.next
  rw [same]
  cases second.quote with
  | some mark =>
      dsimp only
      split
      · rfl
      · exact same
  | none =>
      dsimp only
      repeat' split
      all_goals first | rfl | exact same

/-- A character outside quotes that is none leaves the reading outside. -/
theorem quote_next_of_free
    {scan : Scan}
    (outside : scan.quote = none)
    {character : Char}
    (free : Scan.isQuote character = false) :
    (scan.next character).quote = none := by
  unfold Scan.next
  rw [outside, free]
  dsimp only
  repeat' split
  all_goals first | rfl | exact outside | contradiction

/-- White space outside quotes leaves the reading where it is. -/
theorem next_of_isBlank
    {scan : Scan}
    (unquoted : scan.quoted = false)
    {character : Char}
    (blank : isBlank character = true) :
    scan.next character = scan := by
  have other (mark : Char) (solid : isBlank mark = false) : character ≠ mark := by
    rintro rfl
    rw [blank] at solid
    cases solid
  obtain ⟨quote, depth⟩ := scan
  cases quote with
  | some mark => cases unquoted
  | none =>
      simp [Scan.next, Scan.isQuote, other '"' (by decide), other '\'' (by decide),
        other '(' (by decide), other ')' (by decide)]

end AtomicCss.Text
