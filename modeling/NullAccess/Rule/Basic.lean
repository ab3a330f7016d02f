import NullAccess.Json.Fit

/-!
# Rules about initialisers

A rule says what the text of an initialiser tells about the value it gives.  A rule set holds rules
together with the order in which their verdicts are tried.
-/

namespace NullAccess

/-- What an initialiser tells about its value. -/
inductive Verdict where
  | mayBeAbsent
  | alwaysValue
  | unknown
  deriving DecidableEq, Repr, Inhabited

namespace Verdict

def text : Verdict → String
  | mayBeAbsent => "may_be_absent"
  | alwaysValue => "always_value"
  | unknown => "unknown"

def ofText? (s : String) : Option Verdict :=
  [mayBeAbsent, alwaysValue, unknown].find? (·.text == s)

end Verdict

/-- The form of an initialiser that a rule recognises. -/
inductive Shape where
  | elementLookup
  | sequenceExtraction
  | keyedLookup
  | construction
  | coercion
  | collection
  | measurement
  | eventProperty
  | literal
  deriving DecidableEq, Repr, Inhabited

namespace Shape

def text : Shape → String
  | elementLookup => "element_lookup"
  | sequenceExtraction => "sequence_extraction"
  | keyedLookup => "keyed_lookup"
  | construction => "construction"
  | coercion => "coercion"
  | collection => "collection"
  | measurement => "measurement"
  | eventProperty => "event_property"
  | literal => "literal"

def all : List Shape :=
  [elementLookup, sequenceExtraction, keyedLookup, construction, coercion, collection, measurement,
   eventProperty, literal]

def ofText? (s : String) : Option Shape := all.find? (·.text == s)

end Shape

/-- One rule: a pattern, in its written form, and what a match of it tells. -/
structure Rule where
  id : String
  pattern : String
  verdict : Verdict
  shape : Shape
  priority : Int := 0
  description : Option String := none
  deriving DecidableEq, Repr, Inhabited

namespace Rule

def ofFields? (o : List (String × Json)) : Option Rule := do
  let id ← Json.need o "id" Json.toText?
  let pattern ← Json.need o "pattern" Json.toText?
  let verdict ← Json.need o "verdict" fun v => v.toText?.bind Verdict.ofText?
  let shape ← Json.need o "shape" fun v => v.toText?.bind Shape.ofText?
  let priority ← Json.want o "priority" Json.toInt? 0
  let description ← Json.want o "description" (Json.orNull Json.toText?) none
  return { id, pattern, verdict, shape, priority, description }

def toJson (r : Rule) : Json :=
  .obj [("id", .str r.id), ("pattern", .str r.pattern), ("verdict", .str r.verdict.text),
    ("shape", .str r.shape.text), ("priority", .int r.priority),
    ("description", Json.ofOption .str r.description)]

end Rule

/-- Rules, and the verdicts in the order in which they are tried. -/
structure RuleSet where
  version : Int := 1
  precedence : List Verdict := [.alwaysValue, .mayBeAbsent]
  rules : List Rule := []
  deriving DecidableEq, Repr, Inhabited

namespace RuleSet

def ofFields? (o : List (String × Json)) : Option RuleSet := do
  let version ← Json.want o "version" Json.toInt? 1
  let precedence ← Json.want o "precedence"
    (Json.toList? fun v => v.toText?.bind Verdict.ofText?) [.alwaysValue, .mayBeAbsent]
  let rules ← Json.want o "rules" (Json.toList? (Json.record Rule.ofFields?)) []
  return { version, precedence, rules }

def toJson (s : RuleSet) : Json :=
  .obj [("version", .int s.version), ("precedence", .arr (s.precedence.map fun v => .str v.text)),
    ("rules", .arr (s.rules.map Rule.toJson))]

end RuleSet

end NullAccess
