import NullAccess.Finding.Basic

/-!
# Drift

The verdict on a ledger entry: whether its approval still holds for the code as it is now, and if
not, what is wrong.
-/

namespace NullAccess

/-- The states of an entry.  Only a valid entry suppresses a finding. -/
inductive DriftState where
  | unverified
  | valid
  | drifted
  | broken
  deriving DecidableEq, Repr, Inhabited

namespace DriftState

def text : DriftState → String
  | unverified => "unverified"
  | valid => "valid"
  | drifted => "drifted"
  | broken => "broken"

def ofText? (s : String) : Option DriftState :=
  [unverified, valid, drifted, broken].find? (·.text == s)

end DriftState

/-- What a check can find wrong. -/
inductive DriftReason where
  | fileError
  | codeNotFound
  | codeChanged
  | missingConsumer
  | missingProvider
  | mismatchedProvider
  | dependencyFileError
  | dependencyNotFound
  | dependencyChanged
  deriving DecidableEq, Repr, Inhabited

namespace DriftReason

def text : DriftReason → String
  | fileError => "File error"
  | codeNotFound => "Code not found at line"
  | codeChanged => "Code changed"
  | missingConsumer => "Missing consumer marker"
  | missingProvider => "Missing provider marker"
  | mismatchedProvider => "Mismatched provider id"
  | dependencyFileError => "Dependency file error"
  | dependencyNotFound => "Dependency function not found"
  | dependencyChanged => "Dependency code changed"

end DriftReason

/-- One failed check, with what is needed to act on it. -/
structure ValidationIssue where
  reason : String
  message : String := ""
  file : String := ""
  line : Int := 0
  expected : Option String := none
  actual : Option String := none
  deriving DecidableEq, Repr, Inhabited

namespace ValidationIssue

def ofFields? (o : List (String × Json)) : Option ValidationIssue := do
  let reason ← Json.need o "reason" Json.toText?
  let message ← Json.want o "message" Json.toText? ""
  let file ← Json.want o "file" Json.toText? ""
  let line ← Json.want o "line" Json.toInt? 0
  let expected ← Json.want o "expected" (Json.orNull Json.toText?) none
  let actual ← Json.want o "actual" (Json.orNull Json.toText?) none
  return { reason, message, file, line, expected, actual }

def toJson (i : ValidationIssue) : Json :=
  .obj [("reason", .str i.reason), ("message", .str i.message), ("file", .str i.file),
    ("line", .int i.line), ("expected", Json.ofOption .str i.expected),
    ("actual", Json.ofOption .str i.actual)]

end ValidationIssue

/-- The verdict on one entry. -/
structure ValidationResult where
  entryId : String
  file : String := ""
  line : Int := 0
  state : DriftState := .unverified
  reason : String := ""
  issues : List ValidationIssue := []
  warnings : List String := []
  deriving DecidableEq, Repr, Inhabited

namespace ValidationResult

/-- Whether the entry suppresses findings. -/
def isValid (r : ValidationResult) : Bool := r.state == .valid

def ofFields? (o : List (String × Json)) : Option ValidationResult := do
  let entryId ← Json.need o "entry_id" Json.toText?
  let file ← Json.want o "file" Json.toText? ""
  let line ← Json.want o "line" Json.toInt? 0
  let state ← Json.want o "state" (fun v => v.toText?.bind DriftState.ofText?) .unverified
  let reason ← Json.want o "reason" Json.toText? ""
  let issues ← Json.want o "issues" (Json.toList? (Json.record ValidationIssue.ofFields?)) []
  let warnings ← Json.want o "warnings" (Json.toList? Json.toText?) []
  return { entryId, file, line, state, reason, issues, warnings }

def toJson (r : ValidationResult) : Json :=
  .obj [("entry_id", .str r.entryId), ("file", .str r.file), ("line", .int r.line),
    ("state", .str r.state.text), ("reason", .str r.reason),
    ("issues", .arr (r.issues.map ValidationIssue.toJson)), ("warnings", Json.strs r.warnings)]

end ValidationResult

end NullAccess
