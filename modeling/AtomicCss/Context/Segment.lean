import AtomicCss.Error
import AtomicCss.Text.Blank

/-!
Contract: keys of style maps and the contexts some of them open.

Owns:
- what a key stands for: a property, a pseudo selector, an at-rule or the default of a condition;
- one level of context, read from a key;
- the priority that a level of context adds to a rule.

Does not own: contexts of several levels.
-/

namespace AtomicCss

/-- What a key of a style map stands for. -/
inductive KeyKind where
  | property
  | pseudo
  | atRule
  | default
deriving DecidableEq, Repr

def KeyKind.ofKey (key : String) : KeyKind :=
  if Text.startsWith ":" key then .pseudo
  else if Text.startsWith "@" key then .atRule
  else if key = "default" then .default
  else .property

inductive Segment where
  /-- A pseudo-class or pseudo-element. -/
  | pseudo (written : String)
  /-- A media, supports or container condition. -/
  | atRule (written : String)
deriving DecidableEq, Repr

namespace Segment

def text : Segment → String
  | .pseudo written => written
  | .atRule written => written

/-- Whether a selector is that of a pseudo-element, which starts with two colons. -/
def isElementText (written : String) : Bool :=
  Text.startsWith "::" written

def isElement : Segment → Bool
  | .pseudo written => isElementText written
  | .atRule _ => false

def supportedAtRules : List String :=
  ["@media", "@supports", "@container"]

/-- Whether an at-rule is a supported one followed by a blank or a parenthesis. -/
def isSupported (written : String) : Bool :=
  supportedAtRules.any fun rule =>
    Text.startsWith (rule ++ " ") written || Text.startsWith (rule ++ "(") written

/-- The segment that a key opens, after trimming. -/
def read (key : String) : Except Error Segment :=
  let written := Text.trim key
  match KeyKind.ofKey written with
  | .pseudo =>
    if written.toList.all (· = ':') then .error (.invalidNesting written .unnamedPseudo)
    else .ok (.pseudo written)
  | .atRule =>
    if isSupported written then .ok (.atRule written) else .error (.invalidAtRule written)
  | .property => .error (.invalidNesting written .notContext)
  | .default => .error (.invalidNesting written .notContext)

/-- Priorities of pseudo-classes, so that of two that apply the later one wins. -/
def pseudoClassPriorities : List (String × Nat) :=
  [(":is", 40), (":where", 40), (":not", 40), (":has", 45), (":dir", 50), (":lang", 51),
    (":first-child", 52), (":first-of-type", 53), (":last-child", 54), (":last-of-type", 55),
    (":only-child", 56), (":only-of-type", 57), (":nth-child", 60), (":nth-last-child", 61),
    (":nth-of-type", 62), (":nth-last-of-type", 63), (":empty", 70), (":link", 80),
    (":any-link", 81), (":local-link", 82), (":target-within", 83), (":target", 84),
    (":visited", 85), (":enabled", 91), (":disabled", 92), (":required", 93), (":optional", 94),
    (":read-only", 95), (":read-write", 96), (":placeholder-shown", 97), (":in-range", 98),
    (":out-of-range", 99), (":default", 100), (":checked", 101), (":indeterminate", 101),
    (":blank", 102), (":valid", 103), (":invalid", 104), (":user-invalid", 105),
    (":autofill", 110), (":picture-in-picture", 120), (":modal", 121), (":fullscreen", 122),
    (":paused", 123), (":playing", 124), (":current", 125), (":past", 126), (":future", 127),
    (":hover", 130), (":focus-within", 140), (":focus", 150), (":focus-visible", 160),
    (":active", 170)]

/-- The priority of a pseudo-class, which its arguments do not change. -/
def pseudoClassPriority (written : String) : Nat :=
  let name := String.ofList (written.toList.takeWhile (· != '('))
  (pseudoClassPriorities.lookup name).getD 40

def priority : Segment → Nat
  | .atRule _ => 200
  | .pseudo written => if isElementText written then 5000 else pseudoClassPriority written

end Segment

end AtomicCss
