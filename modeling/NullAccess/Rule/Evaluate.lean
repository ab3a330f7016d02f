import NullAccess.Pattern.Reader
import NullAccess.Pattern.Search
import NullAccess.Rule.Basic
import NullAccess.Rule.Mask

/-!
# The verdict on an initialiser

The verdicts are tried in the order of the rule set's precedence.  Within a verdict the rules of
higher priority go first and the order of the set breaks ties.  The first rule whose pattern occurs
in the masked text decides; when none does, nothing is known.
-/

namespace NullAccess

/-- A rule was reached whose pattern has no reading. -/
structure BadPattern where
  pattern : String
  flaw : Pattern.Flaw
  deriving DecidableEq, Repr

/-- The outcome of evaluating an initialiser: a verdict, and the rule that gave it. -/
structure Ruling where
  verdict : Verdict
  ruleId : Option String := none
  shape : Option Shape := none
  isDefault : Bool := false
  deriving DecidableEq, Repr

namespace Ruling

def unknown : Ruling := { verdict := .unknown, isDefault := true }

def ofRule (r : Rule) : Ruling :=
  { verdict := r.verdict, ruleId := some r.id, shape := some r.shape }

def toJson (r : Ruling) : Json :=
  .obj [("verdict", .str r.verdict.text), ("rule_id", Json.ofOption .str r.ruleId),
    ("shape", Json.ofOption (fun s => .str s.text) r.shape), ("is_default", .bool r.isDefault)]

end Ruling

namespace Rule

def matches? (r : Rule) (t : List Char) : Except BadPattern Bool :=
  match Pattern.ofString r.pattern with
  | .ok p => .ok (p.occursIn t)
  | .error flaw => .error ⟨r.pattern, flaw⟩

def firstMatch (t : List Char) : List Rule → Except BadPattern (Option Rule)
  | [] => .ok none
  | r :: rest =>
    match r.matches? t with
    | .error e => .error e
    | .ok true => .ok (some r)
    | .ok false => firstMatch t rest

end Rule

namespace RuleSet

/-- The rules of a verdict, higher priority first, otherwise in the order of the set. -/
def candidates (s : RuleSet) (v : Verdict) : List Rule :=
  (s.rules.filter (·.verdict == v)).mergeSort fun a b => decide (b.priority ≤ a.priority)

def decideBy (s : RuleSet) (t : List Char) : List Verdict → Except BadPattern Ruling
  | [] => .ok .unknown
  | v :: rest =>
    match Rule.firstMatch t (s.candidates v) with
    | .error e => .error e
    | .ok (some r) => .ok (.ofRule r)
    | .ok none => decideBy s t rest

def evaluate (s : RuleSet) (rhs : List Char) : Except BadPattern Ruling :=
  s.decideBy (Mask.mask rhs) s.precedence

/-- Every pattern of the set has a reading. -/
def Compiles (s : RuleSet) : Prop := ∀ r ∈ s.rules, (Pattern.ofString r.pattern).isOk

end RuleSet

end NullAccess
