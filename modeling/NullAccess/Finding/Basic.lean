import NullAccess.Access
import NullAccess.Binding.Basic

/-!
# Findings

A finding is a dereference of a risky binding to which no guard applies.
-/

namespace NullAccess

/-- How serious an unguarded dereference is. -/
inductive Severity where
  | high
  | medium
  deriving DecidableEq, Repr, Inhabited

namespace Severity

def text : Severity → String
  | high => "high"
  | medium => "medium"

def ofText? (s : String) : Option Severity := [high, medium].find? (·.text == s)

end Severity

def AccessKind.severity : AccessKind → Severity
  | .methodCall => .high
  | .memberAccess => .high
  | .indexAccess => .medium
  | .conditionalAccess => .medium

/-- The report level that findings of high severity take. -/
inductive DefaultSeverity where
  | warning
  | error
  deriving DecidableEq, Repr, Inhabited

namespace DefaultSeverity

def text : DefaultSeverity → String
  | warning => "warning"
  | error => "error"

def ofText? (s : String) : Option DefaultSeverity := [warning, error].find? (·.text == s)

end DefaultSeverity

def nullAccessCategory : String := "null-access"

/-- One unguarded dereference. -/
structure Finding where
  file : String
  line : Int
  col : Int := 0
  bindingName : String
  accessKind : AccessKind
  severity : Severity
  sourceLine : String := ""
  category : String := nullAccessCategory
  bindingKind : BindingKind := .parameter
  bindingLine : Int := 0
  reason : String := ""
  level : String := "error"
  suggestedFix : Option String := none
  tags : List String := []
  deriving DecidableEq, Repr, Inhabited

namespace Finding

def location (f : Finding) : String := s!"{f.file}:{f.line}"

/-- The report level: the configured one for high severity, a warning otherwise. -/
def levelFor (f : Finding) (d : DefaultSeverity) : String :=
  match f.severity with
  | .high => d.text
  | .medium => DefaultSeverity.warning.text

def ofFields? (o : List (String × Json)) : Option Finding := do
  let file ← Json.need o "file" Json.toText?
  let line ← Json.need o "line" Json.toInt?
  let col ← Json.want o "col" Json.toInt? 0
  let bindingName ← Json.need o "binding_name" Json.toText?
  let accessKind ← Json.need o "access_kind" fun v => v.toText?.bind AccessKind.ofText?
  let severity ← Json.need o "severity" fun v => v.toText?.bind Severity.ofText?
  let sourceLine ← Json.want o "source_line" Json.toText? ""
  let category ← Json.want o "category" Json.toText? nullAccessCategory
  let bindingKind ←
    Json.want o "binding_kind" (fun v => v.toText?.bind BindingKind.ofText?) .parameter
  let bindingLine ← Json.want o "binding_line" Json.toInt? 0
  let reason ← Json.want o "reason" Json.toText? ""
  let level ← Json.want o "level" Json.toText? "error"
  let suggestedFix ← Json.want o "suggested_fix" (Json.orNull Json.toText?) none
  let tags ← Json.want o "tags" (Json.toList? Json.toText?) []
  return { file, line, col, bindingName, accessKind, severity, sourceLine, category, bindingKind,
           bindingLine, reason, level, suggestedFix, tags }

def toJson (f : Finding) : Json :=
  .obj [("file", .str f.file), ("line", .int f.line), ("col", .int f.col),
    ("binding_name", .str f.bindingName), ("access_kind", .str f.accessKind.text),
    ("severity", .str f.severity.text), ("source_line", .str f.sourceLine),
    ("category", .str f.category), ("binding_kind", .str f.bindingKind.text),
    ("binding_line", .int f.bindingLine), ("reason", .str f.reason), ("level", .str f.level),
    ("suggested_fix", Json.ofOption .str f.suggestedFix), ("tags", Json.strs f.tags)]

end Finding

end NullAccess
