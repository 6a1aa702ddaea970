import AtomicCss.Proofs.Number.Numeral
import AtomicCss.Proofs.Text.Separated
import AtomicCss.Sheet.Keyframes
import Mathlib.Data.List.Basic

/-!
Contract: the text of frames, and what can be read back from it.

Owns:
- labels of frames, none of which holds a brace;
- the lines of a frame, each a property with one value, as a style sheet shows them;
- frames read back from their text, where no property or value holds a mark of the text.

Does not own: the name of an animation.
-/

namespace AtomicCss

/-! ## Labels -/

/-- A character that is no digit is met after the digits that a text starts with. -/
theorem mem_dropWhile_isDigit
    {character : Char}
    (notDigit : character.isDigit = false)
    {text : List Char}
    (member : character ∈ text) :
    character ∈ text.dropWhile Char.isDigit := by
  rw [← List.takeWhile_append_dropWhile (p := Char.isDigit) (l := text)] at member
  rcases List.mem_append.mp member with digits | rest
  · have allDigits : (text.takeWhile Char.isDigit).all Char.isDigit = true := List.all_takeWhile
    have digit := List.all_eq_true.mp allDigits character digits
    rw [notDigit] at digit
    cases digit
  · exact rest

private theorem Decimal.readExponent?_eq_none_of_brace
    {text : List Char}
    (brace : '\x7b' ∈ text) :
    readExponent? text = none := by
  have refused (digits : List Char) (inside : '\x7b' ∈ digits) :
      (digits.isEmpty || !digits.all Char.isDigit) = true := by
    have notAll : digits.all Char.isDigit = false := by
      rw [List.all_eq_false]
      exact ⟨'\x7b', inside, by decide⟩
    rw [notAll, Bool.not_false, Bool.or_true]
  unfold readExponent?
  split
  · rename_i digits
    have inside : '\x7b' ∈ digits := by simpa using brace
    simp [refused digits inside]
  · rename_i digits
    have inside : '\x7b' ∈ digits := by simpa using brace
    simp [refused digits inside]
  · simp [refused text brace]

private theorem Decimal.readTail?_eq_none_of_brace
    {text : List Char}
    (brace : '\x7b' ∈ text)
    (whole fraction : List Char) :
    readTail? whole fraction text = none := by
  cases text with
  | nil => cases brace
  | cons mark exponent =>
      by_cases marked : mark = 'e' ∨ mark = 'E'
      · have later : '\x7b' ∈ exponent := by
          rcases List.mem_cons.mp brace with here | later
          · rcases marked with rfl | rfl
            · cases here
            · cases here
          · exact later
        simp [readTail?, readExponent?_eq_none_of_brace later]
      · simp [readTail?, marked]

private theorem Decimal.read?_eq_none_of_brace
    {text : List Char}
    (brace : '\x7b' ∈ text) :
    read? text = none := by
  have afterWhole : '\x7b' ∈ text.dropWhile Char.isDigit :=
    mem_dropWhile_isDigit (by decide) brace
  -- With or without a point, the brace stands after all digits, where only an exponent may follow.
  have afterDigits : '\x7b' ∈ (splitFraction (text.dropWhile Char.isDigit)).2 := by
    unfold splitFraction
    split
    · rename_i digits pointed
      rw [pointed] at afterWhole
      exact mem_dropWhile_isDigit (by decide) (by simpa using afterWhole)
    · exact afterWhole
  rw [read?_eq]
  simp only [readTail?_eq_none_of_brace afterDigits, ite_self]

private theorem Binary64.read?_eq_none_of_brace
    {text : List Char}
    (brace : '\x7b' ∈ text) :
    read? text = none := by
  have bodyRefused (negative : Bool) (body : List Char) (inside : '\x7b' ∈ body) :
      (if String.ofList (body.map Char.toLower) = "inf" ||
            String.ofList (body.map Char.toLower) = "infinity" then
          some (Binary64.infinite negative)
        else if String.ofList (body.map Char.toLower) = "nan" then some .nan
        else (Decimal.read? body).map (Decimal.toBinary64 negative)) = none := by
    have notWord (word : String) (braceFree : '\x7b' ∉ word.toList) :
        String.ofList (body.map Char.toLower) ≠ word := by
      rintro rfl
      apply braceFree
      rw [String.toList_ofList]
      exact List.mem_map.mpr ⟨'\x7b', inside, by decide⟩
    have notInf := notWord "inf" (by decide)
    have notInfinity := notWord "infinity" (by decide)
    have notNan := notWord "nan" (by decide)
    simp [notInf, notInfinity, notNan, Decimal.read?_eq_none_of_brace inside]
  unfold read?
  split
  · exact bodyRefused false _ (by simpa using brace)
  · exact bodyRefused true _ (by simpa using brace)
  · exact bodyRefused false _ brace

private theorem brace_not_mem_of_isFrameOffset
    {part : List Char}
    (offset : isFrameOffset part = true) :
    '\x7b' ∉ part := by
  intro brace
  unfold isFrameOffset at offset
  split at offset
  · rename_i keyword
    simp only [Bool.or_eq_true, decide_eq_true_eq] at keyword
    rcases keyword with rfl | rfl
    · exact absurd brace (by decide)
    · exact absurd brace (by decide)
  · split at offset
    · rename_i percent
      rw [← List.dropLast_append_getLast? '%' percent] at brace
      have inNumber : '\x7b' ∈ part.dropLast := by simpa using brace
      simp [Binary64.read?_eq_none_of_brace inNumber] at offset
    · cases offset

private theorem mem_join_comma
    {character : Char}
    (notComma : character ≠ ',')
    {parts : List String}
    (member : character ∈ (Text.join "," parts).toList) :
    ∃ part ∈ parts, character ∈ part.toList := by
  induction parts with
  | nil => cases member
  | cons head rest inductionHypothesis =>
      cases rest with
      | nil => exact ⟨head, List.mem_cons_self, member⟩
      | cons next others =>
          rw [Text.toList_join_cons_cons, List.mem_append, List.mem_append] at member
          rcases member with inHead | inComma | inRest
          · exact ⟨head, List.mem_cons_self, inHead⟩
          · exact absurd (List.mem_singleton.mp inComma) notComma
          · obtain ⟨part, partMember, inside⟩ := inductionHypothesis inRest
            exact ⟨part, List.mem_cons_of_mem head partMember, inside⟩

/-- The label of a frame holds no opening brace, so that the first one in the text of a frame ends
the label. -/
theorem brace_not_mem_of_frameLabel
    {label written : String}
    (success : frameLabel label = .ok written) :
    '\x7b' ∉ written.toList := by
  intro brace
  unfold frameLabel at success
  dsimp only at success
  split at success
  · rename_i offsets
    rw [← Except.ok.inj success] at brace
    obtain ⟨part, partMember, inside⟩ := mem_join_comma (by decide) brace
    obtain ⟨characters, charactersMember, rfl⟩ := List.mem_map.mp partMember
    rw [String.toList_ofList] at inside
    have offset := List.all_eq_true.mp offsets characters charactersMember
    exact brace_not_mem_of_isFrameOffset offset inside
  · cases success

/-! ## Lines -/

/-- A property and one of its values, as a frame lists them. -/
structure FrameLine where
  property : String
  value : String
deriving DecidableEq, Repr

namespace FrameLine

def text (line : FrameLine) : String :=
  line.property ++ ":" ++ line.value ++ ";"

/-- The first colon of the line ends its property, the first semicolon after that ends the line,
and the line does not look like the end of a frame. -/
structure IsPlain (line : FrameLine) : Prop where
  colonFree : ':' ∉ line.property.toList
  braceFree : '\x7d' ∉ line.property.toList
  semicolonFree : ';' ∉ line.value.toList

private theorem text_append
    (line : FrameLine)
    (rest : String) :
    line.text ++ rest = line.property ++ ":" ++ (line.value ++ ";" ++ rest) := by
  simp only [text, String.append_assoc]

private theorem IsPlain.ne_end
    {line : FrameLine}
    (plain : line.IsPlain)
    (others rest : String) :
    line.text ++ others ≠ "\x7d" ++ rest := by
  intro equal
  have equalChars := congrArg String.toList equal
  have endChars : ("\x7d" : String).toList = ['\x7d'] := rfl
  have colonChars : (":" : String).toList = [':'] := rfl
  rw [text_append] at equalChars
  simp only [String.toList_append, endChars, colonChars, List.append_assoc,
    List.singleton_append] at equalChars
  cases characters : line.property.toList with
  | nil =>
      rw [characters, List.nil_append, List.cons.injEq] at equalChars
      exact absurd equalChars.1 (by decide)
  | cons head tail =>
      rw [characters, List.cons_append, List.cons.injEq] at equalChars
      apply plain.braceFree
      rw [characters, equalChars.1]
      exact List.mem_cons_self

private theorem IsPlain.cut
    {first second : FrameLine}
    (firstPlain : first.IsPlain)
    (secondPlain : second.IsPlain)
    {firstRest secondRest : String}
    (equal : first.text ++ firstRest = second.text ++ secondRest) :
    first = second ∧ firstRest = secondRest := by
  obtain ⟨firstProperty, firstValue⟩ := first
  obtain ⟨secondProperty, secondValue⟩ := second
  rw [text_append, text_append] at equal
  obtain ⟨sameProperty, afterColon⟩ :=
    Text.append_mark_inj rfl firstPlain.colonFree secondPlain.colonFree equal
  obtain ⟨sameValue, sameRest⟩ :=
    Text.append_mark_inj rfl firstPlain.semicolonFree secondPlain.semicolonFree afterColon
  simp only at sameProperty sameValue
  exact ⟨by rw [sameProperty, sameValue], sameRest⟩

/-- Plain lines up to the end of a frame are read back. -/
theorem lines_inj
    {first second : List FrameLine}
    (firstPlain : ∀ line ∈ first, line.IsPlain)
    (secondPlain : ∀ line ∈ second, line.IsPlain)
    {firstRest secondRest : String}
    (equal : Text.concat (first.map text) ++ ("\x7d" ++ firstRest) =
      Text.concat (second.map text) ++ ("\x7d" ++ secondRest)) :
    first = second ∧ firstRest = secondRest := by
  induction first generalizing second with
  | nil =>
      cases second with
      | nil =>
          simp only [List.map_nil, Text.concat_nil, String.empty_append] at equal
          exact ⟨rfl, (String.append_right_inj _).mp equal⟩
      | cons head tail =>
          have headPlain := secondPlain head List.mem_cons_self
          simp only [List.map_nil, Text.concat_nil, String.empty_append, List.map_cons,
            Text.concat_cons, String.append_assoc] at equal
          exact absurd equal.symm (headPlain.ne_end _ _)
  | cons head tail inductionHypothesis =>
      have headPlain := firstPlain head List.mem_cons_self
      cases second with
      | nil =>
          simp only [List.map_nil, Text.concat_nil, String.empty_append, List.map_cons,
            Text.concat_cons, String.append_assoc] at equal
          exact absurd equal (headPlain.ne_end _ _)
      | cons otherHead otherTail =>
          simp only [List.map_cons, Text.concat_cons, String.append_assoc] at equal
          obtain ⟨sameHead, sameRest⟩ :=
            headPlain.cut (secondPlain otherHead List.mem_cons_self) equal
          obtain ⟨sameTail, sameEnd⟩ :=
            inductionHypothesis (List.forall_mem_cons.mp firstPlain).2
              (List.forall_mem_cons.mp secondPlain).2 sameRest
          exact ⟨by rw [sameHead, sameTail], sameEnd⟩

end FrameLine

/-! ## Frames -/

structure WrittenFrame where
  label : String
  lines : List FrameLine
deriving DecidableEq, Repr

namespace WrittenFrame

def text (frame : WrittenFrame) : String :=
  frame.label ++ "\x7b" ++ (Text.concat (frame.lines.map FrameLine.text) ++ "\x7d")

private theorem text_append
    (frame : WrittenFrame)
    (rest : String) :
    frame.text ++ rest =
      frame.label ++ "\x7b" ++
        (Text.concat (frame.lines.map FrameLine.text) ++ ("\x7d" ++ rest)) := by
  simp only [text, String.append_assoc]

structure IsPlain (frame : WrittenFrame) : Prop where
  label : '\x7b' ∉ frame.label.toList
  lines : ∀ line ∈ frame.lines, line.IsPlain

private theorem IsPlain.cut
    {first second : WrittenFrame}
    (firstPlain : first.IsPlain)
    (secondPlain : second.IsPlain)
    {firstRest secondRest : String}
    (equal : first.text ++ firstRest = second.text ++ secondRest) :
    first = second ∧ firstRest = secondRest := by
  obtain ⟨firstLabel, firstLines⟩ := first
  obtain ⟨secondLabel, secondLines⟩ := second
  rw [text_append, text_append] at equal
  obtain ⟨sameLabel, afterLabel⟩ :=
    Text.append_mark_inj rfl firstPlain.label secondPlain.label equal
  obtain ⟨sameLines, sameRest⟩ := FrameLine.lines_inj firstPlain.lines secondPlain.lines afterLabel
  simp only at sameLabel sameLines
  exact ⟨by rw [sameLabel, sameLines], sameRest⟩

private theorem text_append_ne_empty
    (frame : WrittenFrame)
    (rest : String) :
    frame.text ++ rest ≠ "" := by
  simp [text]

/-- Plain frames are read back from the text of an animation. -/
theorem concat_text_inj
    {first second : List WrittenFrame}
    (firstPlain : ∀ frame ∈ first, frame.IsPlain)
    (secondPlain : ∀ frame ∈ second, frame.IsPlain)
    (equal : Text.concat (first.map text) = Text.concat (second.map text)) :
    first = second := by
  induction first generalizing second with
  | nil =>
      cases second with
      | nil => rfl
      | cons head tail => exact absurd equal.symm (head.text_append_ne_empty _)
  | cons head tail inductionHypothesis =>
      cases second with
      | nil => exact absurd equal (head.text_append_ne_empty _)
      | cons otherHead otherTail =>
          have headPlain := firstPlain head List.mem_cons_self
          obtain ⟨sameHead, sameRest⟩ :=
            headPlain.cut (secondPlain otherHead List.mem_cons_self) equal
          have sameTail :=
            inductionHypothesis (List.forall_mem_cons.mp firstPlain).2
              (List.forall_mem_cons.mp secondPlain).2 sameRest
          rw [sameHead, sameTail]

end WrittenFrame

end AtomicCss
