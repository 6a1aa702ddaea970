/-!
Contract: what the compiler says about itself.

Owns: its name, version, description and features.
-/

namespace AtomicCss.About

def name : String :=
  "atomc"

def version : String :=
  "0.1.0"

def description : String :=
  "Atomic style compiler - compile style definitions to content-addressed atomic CSS"

def features : List String :=
  ["pseudo-classes", "pseudo-elements", "media-queries", "supports-queries", "container-queries",
    "keyframes", "dynamic-values", "fallback-chains", "logical-properties", "shorthand-expansion"]

def supports (feature : String) : Bool :=
  features.contains feature

end AtomicCss.About
