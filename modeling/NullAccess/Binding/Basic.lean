import NullAccess.Json.Fit

/-!
# Risky bindings

A binding that may hold an absent value: a parameter that a caller may leave out, or a variable
whose initialiser may give none.
-/

namespace NullAccess

/-- How a risky binding comes about. -/
inductive BindingKind where
  | parameter
  | assignment
  deriving DecidableEq, Repr, Inhabited

namespace BindingKind

def text : BindingKind → String
  | parameter => "parameter"
  | assignment => "assignment"

def ofText? (s : String) : Option BindingKind := [parameter, assignment].find? (·.text == s)

def reason : BindingKind → String
  | parameter => "parameter without guarantee"
  | assignment => "assigned from a possibly-absent source"

end BindingKind

/-- A risky binding.  Its name and the depth of its scope identify it; `originCol` is the column
behind its declaration. -/
structure Binding where
  name : String
  depth : Int := 0
  originLine : Int
  originCol : Int := 0
  kind : BindingKind
  reason : String := ""
  source : String := ""
  ruleId : Option String := none
  deriving DecidableEq, Repr, Inhabited

namespace Binding

def ofFields? (o : List (String × Json)) : Option Binding := do
  let name ← Json.need o "name" Json.toText?
  let depth ← Json.want o "depth" Json.toInt? 0
  let originLine ← Json.need o "origin_line" Json.toInt?
  let originCol ← Json.want o "origin_col" Json.toInt? 0
  let kind ← Json.need o "kind" fun v => v.toText?.bind BindingKind.ofText?
  let reason ← Json.want o "reason" Json.toText? ""
  let source ← Json.want o "source" Json.toText? ""
  let ruleId ← Json.want o "rule_id" (Json.orNull Json.toText?) none
  return { name, depth, originLine, originCol, kind, reason, source, ruleId }

def toJson (b : Binding) : Json :=
  .obj [("name", .str b.name), ("depth", .int b.depth), ("origin_line", .int b.originLine),
    ("origin_col", .int b.originCol), ("kind", .str b.kind.text), ("reason", .str b.reason),
    ("source", .str b.source), ("rule_id", Json.ofOption .str b.ruleId)]

end Binding

end NullAccess
