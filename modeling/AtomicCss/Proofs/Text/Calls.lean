import AtomicCss.Proofs.Text.Reading
import Mathlib.Data.List.Infix

/-!
Contract: calls in style text and the commas between their arguments.

Owns:
- texts whose quotes and parentheses match, and how a reading passes over them;
- the commas of a text outside quotes and parentheses;
- the references to variables in a text, each with the text of its arguments.

Does not own: what a reference stands for.
-/

namespace AtomicCss.Text

namespace Scan

def within (scan : Scan) (outer : Nat) : Scan :=
  ⟨scan.quote, scan.depth + outer⟩

/-- Whether a character closes a parenthesis that was open before the reading began. -/
def closes (scan : Scan) (character : Char) : Bool :=
  scan.separates && character = ')'

private theorem separates_within_succ
    (scan : Scan)
    (outer : Nat) :
    (scan.within (outer + 1)).separates = false := by
  simp [separates, within]

section Step

variable {scan : Scan} {character : Char} (stays : scan.closes character = false)
include stays

/-- Parentheses around a text do not change the reading of it. -/
theorem next_within
    (outer : Nat) :
    (scan.within outer).next character = (scan.next character).within outer := by
  obtain ⟨quote, depth⟩ := scan
  cases quote with
  | some mark =>
      simp only [next, within]
      split
      · rfl
      · rfl
  | none =>
      by_cases closing : character = ')'
      · have inside : depth ≠ 0 := by
          simpa [closes, separates, quoted, closing] using stays
        have moved : depth + outer - 1 = depth - 1 + outer := by omega
        simp [next, within, isQuote, closing, moved]
      · simp only [next, within, closing, if_false]
        split
        · rfl
        · split
          · simp [Nat.add_right_comm]
          · rfl

private theorem closes_within
    (outer : Nat) :
    (scan.within outer).closes character = false := by
  cases outer with
  | zero => exact stays
  | succ outer => rw [closes, separates_within_succ, Bool.false_and]

end Step

end Scan

/-! ## Matching texts -/

def isMatchedFrom (scan : Scan) : List Char → Bool
  | [] => scan.separates
  | character :: rest => !scan.closes character && isMatchedFrom (scan.next character) rest

def isMatched (text : List Char) : Bool :=
  isMatchedFrom Scan.start text

section Matched

variable {scan : Scan}

theorem isMatchedFrom_cons
    {character : Char}
    {rest : List Char} :
    isMatchedFrom scan (character :: rest) = true ↔
      scan.closes character = false ∧ isMatchedFrom (scan.next character) rest = true := by
  rw [isMatchedFrom, Bool.and_eq_true, Bool.not_eq_true']

/-- A matching text leaves a reading where it was. -/
theorem after_of_isMatchedFrom
    {text : List Char}
    (matched : isMatchedFrom scan text = true)
    (outer : Nat) :
    (scan.within outer).after text = Scan.start.within outer := by
  induction text generalizing scan with
  | nil => rw [(scan.separates_iff).mp matched, Scan.after, List.foldl_nil]
  | cons first rest inductionHypothesis =>
      obtain ⟨stays, others⟩ := isMatchedFrom_cons.mp matched
      rw [Scan.after, List.foldl_cons, Scan.next_within stays]
      exact inductionHypothesis others

private theorem isMatchedFrom_append
    {first : List Char}
    (matched : isMatchedFrom scan first = true)
    (outer : Nat)
    (second : List Char) :
    isMatchedFrom (scan.within outer) (first ++ second) =
      isMatchedFrom (Scan.start.within outer) second := by
  induction first generalizing scan with
  | nil => rw [(scan.separates_iff).mp matched, List.nil_append]
  | cons character rest inductionHypothesis =>
      obtain ⟨stays, others⟩ := isMatchedFrom_cons.mp matched
      rw [List.cons_append, isMatchedFrom, Scan.closes_within stays, Scan.next_within stays,
        inductionHypothesis others]
      rfl

end Matched

/-! ## Commas -/

def topCommasFrom (scan : Scan) : List Char → Nat
  | [] => 0
  | character :: rest =>
    (if scan.separates && character = ',' then 1 else 0) + topCommasFrom (scan.next character) rest

/-- The number of commas of a text outside quotes and parentheses. -/
def topCommas (text : List Char) : Nat :=
  topCommasFrom Scan.start text

private theorem topCommasFrom_append
    (scan : Scan)
    (first second : List Char) :
    topCommasFrom scan (first ++ second) =
      topCommasFrom scan first + topCommasFrom (scan.after first) second := by
  induction first generalizing scan with
  | nil => simp [topCommasFrom, Scan.after]
  | cons character rest inductionHypothesis =>
      rw [List.cons_append, topCommasFrom, topCommasFrom, inductionHypothesis, Nat.add_assoc]
      rfl

theorem topCommasFrom_of_not_mem
    {text : List Char}
    (free : ',' ∉ text)
    (scan : Scan) :
    topCommasFrom scan text = 0 := by
  induction text generalizing scan with
  | nil => rfl
  | cons first rest inductionHypothesis =>
      have notComma : first ≠ ',' := fun same => free (same ▸ List.mem_cons_self)
      rw [topCommasFrom, inductionHypothesis (List.not_mem_of_not_mem_cons free)]
      simp [notComma]

/-- Inside parentheses, no comma of a matching text counts. -/
theorem topCommasFrom_within
    {scan : Scan}
    {text : List Char}
    (matched : isMatchedFrom scan text = true)
    (outer : Nat) :
    topCommasFrom (scan.within (outer + 1)) text = 0 := by
  induction text generalizing scan with
  | nil => rfl
  | cons character rest inductionHypothesis =>
      obtain ⟨stays, others⟩ := isMatchedFrom_cons.mp matched
      rw [topCommasFrom, Scan.separates_within_succ, Scan.next_within stays,
        inductionHypothesis others]
      rfl

/-! ## References -/

def continuesName (character : Char) : Bool :=
  character.isAlphanum || character = '-' || character = '_' || 128 ≤ character.toNat

/-- The text up to the parenthesis that closes one open before it, or up to its end. -/
def argumentsFrom (scan : Scan) : List Char → List Char
  | [] => []
  | character :: rest =>
    if scan.closes character then [] else character :: argumentsFrom (scan.next character) rest

/-- Whether a reference to a variable begins here: outside quotes and not inside a name. -/
def opensVarCall (scan : Scan) (named : Bool) (text : List Char) : Bool :=
  !scan.quoted && !named && "var(".toList.isPrefixOf text

/-- `varCalls` from a given place, where `named` says whether a name may go on there. -/
def varCallsFrom (scan : Scan) (named : Bool) : List Char → List (List Char)
  | [] => []
  | character :: rest =>
    let others := varCallsFrom (scan.next character) (continuesName character) rest
    if opensVarCall scan named (character :: rest) then
      argumentsFrom Scan.start (rest.drop 3) :: others
    else others

/-- The references to variables in a text, each as the text of its arguments, in the order in which
they begin. -/
def varCalls (text : List Char) : List (List Char) :=
  varCallsFrom Scan.start false text

section Arguments

variable {scan : Scan}

/-- The arguments of a reference end at its closing parenthesis. -/
theorem argumentsFrom_append_of_isMatchedFrom
    {text : List Char}
    (matched : isMatchedFrom scan text = true)
    (rest : List Char) :
    argumentsFrom scan (text ++ ')' :: rest) = text := by
  induction text generalizing scan with
  | nil =>
      rw [(scan.separates_iff).mp matched]
      rfl
  | cons first others inductionHypothesis =>
      obtain ⟨stays, othersMatched⟩ := isMatchedFrom_cons.mp matched
      rw [List.cons_append, argumentsFrom, stays, if_neg Bool.false_ne_true,
        inductionHypothesis othersMatched]

/-- What closes before the end of a text does not depend on what follows. -/
theorem argumentsFrom_append_of_within
    {outer : Nat}
    {text : List Char}
    (matched : isMatchedFrom (scan.within (outer + 1)) text = true)
    (rest : List Char) :
    argumentsFrom scan (text ++ rest) = argumentsFrom scan text := by
  induction text generalizing scan with
  | nil =>
      rw [isMatchedFrom, Scan.separates_within_succ] at matched
      cases matched
  | cons first others inductionHypothesis =>
      rw [List.cons_append, argumentsFrom, argumentsFrom]
      cases stays : scan.closes first with
      | true => rfl
      | false =>
          have othersMatched := (isMatchedFrom_cons.mp matched).2
          rw [Scan.next_within stays] at othersMatched
          rw [inductionHypothesis othersMatched]

end Arguments

/-- What follows a part cannot complete a prefix that it shares no character with. -/
theorem prefix_append_iff_of_head
    {start part rest : List Char}
    (apart : ∀ first ∈ rest.head?, first ∉ start) :
    start <+: part ++ rest ↔ start <+: part := by
  induction start generalizing part with
  | nil => simp
  | cons first others inductionHypothesis =>
      cases part with
      | nil =>
          cases rest with
          | nil => rfl
          | cons next more =>
              have differs : first ≠ next := fun same =>
                apart next rfl (same ▸ List.mem_cons_self)
              simp [differs]
      | cons head tail =>
          have apartOthers : ∀ first ∈ rest.head?, first ∉ others := fun next isNext member =>
            apart next isNext (List.mem_cons_of_mem _ member)
          rw [List.cons_append, List.cons_prefix_cons, List.cons_prefix_cons,
            inductionHypothesis apartOthers]

/-! ## References in parts of a text -/

/-- Parentheses do not matter for where references begin. -/
theorem varCallsFrom_congr
    {first second : Scan}
    (same : first.quote = second.quote)
    (named : Bool)
    (text : List Char) :
    varCallsFrom first named text = varCallsFrom second named text := by
  induction text generalizing first second named with
  | nil => rfl
  | cons character rest inductionHypothesis =>
      have next := quote_next_congr same character
      rw [varCallsFrom, varCallsFrom, inductionHypothesis next, opensVarCall, opensVarCall,
        Scan.quoted, Scan.quoted, same]

private theorem isMatchedFrom_var
    (depth : Nat)
    (text : List Char) :
    isMatchedFrom ⟨none, depth⟩ ("var(".toList ++ text) = isMatchedFrom ⟨none, depth + 1⟩ text := by
  simp [isMatchedFrom, Scan.closes, Scan.next, Scan.isQuote]

/-- What follows a matching text adds references of its own. -/
theorem varCallsFrom_append
    {scan : Scan}
    {text : List Char}
    (matched : isMatchedFrom scan text = true)
    {rest : List Char}
    (apart : ∀ first ∈ rest.head?, first ∉ "var(".toList)
    (named : Bool) :
    varCallsFrom scan named (text ++ rest) =
      varCallsFrom scan named text ++
        varCallsFrom (scan.after text) (text.foldl (fun _ => continuesName) named) rest := by
  induction text generalizing scan named with
  | nil => rfl
  | cons first others inductionHypothesis =>
      have same : opensVarCall scan named (first :: others ++ rest) =
          opensVarCall scan named (first :: others) := by
        rw [opensVarCall, opensVarCall]
        congr 1
        rw [Bool.eq_iff_iff, List.isPrefixOf_iff_prefix, List.isPrefixOf_iff_prefix,
          prefix_append_iff_of_head apart]
      have later := inductionHypothesis (isMatchedFrom_cons.mp matched).2 (continuesName first)
      rw [List.cons_append] at same
      rw [List.cons_append, varCallsFrom, varCallsFrom, same, later]
      split
      · rename_i opens
        -- The reference that begins here is closed before the end of the matching text.
        simp only [opensVarCall, Bool.and_eq_true, Bool.not_eq_true', List.isPrefixOf_iff_prefix]
          at opens
        obtain ⟨⟨unquoted, -⟩, inside, starts⟩ := opens
        obtain ⟨quote, depth⟩ := scan
        obtain rfl : quote = none := by simpa [Scan.quoted] using unquoted
        rw [← starts, isMatchedFrom_var] at matched
        obtain ⟨-, rfl⟩ := List.cons.inj starts
        have closed : argumentsFrom Scan.start (inside ++ rest) = argumentsFrom Scan.start inside :=
          argumentsFrom_append_of_within
            (show isMatchedFrom (Scan.start.within (depth + 1)) _ = _ by
              simpa [Scan.within, Scan.start] using matched) rest
        simp [closed, Scan.after]
      · rfl

section Joined

variable {first : List Char} (matched : isMatched first = true)
include matched

theorem isMatched_append_comma
    (second : List Char) :
    isMatched (first ++ ',' :: second) = isMatched second :=
  isMatchedFrom_append matched 0 (',' :: second)

theorem topCommas_append_comma
    (second : List Char) :
    topCommas (first ++ ',' :: second) = topCommas first + (1 + topCommas second) := by
  have after : Scan.start.after first = Scan.start := after_of_isMatchedFrom matched 0
  rw [topCommas, topCommasFrom_append, after]
  rfl

theorem varCalls_append_comma
    (second : List Char) :
    varCalls (first ++ ',' :: second) = varCalls first ++ varCalls second := by
  have after : Scan.start.after first = Scan.start := after_of_isMatchedFrom matched 0
  rw [varCalls, varCallsFrom_append matched (by simp), after, varCallsFrom]
  simp [opensVarCall, varCalls, continuesName, Scan.next, Scan.start, Scan.isQuote]

theorem isMatched_var_append :
    isMatched ("var(".toList ++ (first ++ [')'])) = true := by
  rw [isMatched, Scan.start, isMatchedFrom_var]
  exact isMatchedFrom_append matched 1 [')']

theorem topCommas_var_append :
    topCommas ("var(".toList ++ (first ++ [')'])) = 0 := by
  have opened (text : List Char) :
      topCommas ("var(".toList ++ text) = topCommasFrom (Scan.start.within 1) text := by
    simp [topCommas, topCommasFrom, Scan.next, Scan.isQuote, Scan.start, Scan.within]
  rw [opened, topCommasFrom_append, topCommasFrom_within matched, after_of_isMatchedFrom matched]
  rfl

theorem varCalls_var_append :
    varCalls ("var(".toList ++ (first ++ [')'])) = first :: varCalls first := by
  have opened (text : List Char) :
      varCalls ("var(".toList ++ text) =
        argumentsFrom Scan.start text :: varCallsFrom (Scan.start.within 1) false text := by
    simp [varCalls, varCallsFrom, opensVarCall, continuesName, Scan.next, Scan.isQuote, Scan.quoted,
      Scan.start, Scan.within]
  have inside : varCallsFrom (Scan.start.within 1) false (first ++ [')']) = varCalls first := by
    rw [varCallsFrom_congr (show (Scan.start.within 1).quote = Scan.start.quote from rfl),
      varCallsFrom_append matched (by simp)]
    simp [varCallsFrom, opensVarCall, varCalls]
  rw [opened, argumentsFrom_append_of_isMatchedFrom matched, inside]

end Joined

end AtomicCss.Text
