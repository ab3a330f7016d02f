import NullAccess.Json.Fit

/-!
# Markers

Comments in the source that take part in an approval.  A consumer marker stands above the approved
line and says why the value is there; a provider marker stands above a function on which approvals
rely and names them.
-/

namespace NullAccess

/-- A function on which an approval relies, as it is written: its name, its line, and its file when
that is another one. -/
structure DependencyRef where
  function : String
  line : Int
  file : Option String := none
  deriving DecidableEq, Repr, Inhabited

namespace DependencyRef

def ofFields? (o : List (String × Json)) : Option DependencyRef := do
  let function ← Json.need o "function" Json.toText?
  let line ← Json.need o "line" Json.toInt?
  let file ← Json.want o "file" (Json.orNull Json.toText?) none
  return { function, line, file }

def toJson (d : DependencyRef) : Json :=
  .obj [("function", .str d.function), ("line", .int d.line), ("file", Json.ofOption .str d.file)]

end DependencyRef

/-- What the comment block above a line says about the line's approval. -/
structure ConsumerMarker where
  found : Bool := false
  category : Option String := none
  reason : Option String := none
  dependencies : List DependencyRef := []
  whitelistId : Option String := none
  commentStartLine : Option Int := none
  deriving DecidableEq, Repr, Inhabited

namespace ConsumerMarker

def toJson (m : ConsumerMarker) : Json :=
  .obj [("found", .bool m.found), ("category", Json.ofOption .str m.category),
    ("reason", Json.ofOption .str m.reason),
    ("dependencies", .arr (m.dependencies.map DependencyRef.toJson)),
    ("whitelist_id", Json.ofOption .str m.whitelistId),
    ("comment_start_line", Json.ofOption .int m.commentStartLine)]

end ConsumerMarker

/-- What the comment block above a function says about the approvals that rely on it. -/
structure ProviderMarker where
  found : Bool := false
  whitelistIds : List String := []
  requiredBy : List String := []
  contract : Option String := none
  deriving DecidableEq, Repr, Inhabited

namespace ProviderMarker

def toJson (m : ProviderMarker) : Json :=
  .obj [("found", .bool m.found), ("whitelist_ids", Json.strs m.whitelistIds),
    ("required_by", Json.strs m.requiredBy), ("contract", Json.ofOption .str m.contract)]

end ProviderMarker

end NullAccess
