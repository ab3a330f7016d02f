import NullAccess.Finding.Basic
import NullAccess.Guard.Find

/-!
# Finding unguarded dereferences

The file is walked once more.  A binding takes effect when the walk reaches the line that declares
it.  On each line of code, each name is looked up at the depth behind the line; an access to it is a
finding unless the line itself or a safe zone guards it.
-/

namespace NullAccess.Finding

/-- A name with its safe zones in the file. -/
structure Subject where
  name : String
  zones : List SafeZone

namespace Subject

/-- The finding of a name on line `n`, given the binding it refers to there.  On its own line a
binding is read only behind its declaration, and a guard before the declaration concerns another
binding. -/
def findingFor (s : Subject) (file : String) (n : Int) (raw : Line) (b : Binding) :
    Option Finding :=
  let offset : Int := if b.originLine = n then b.originCol else 0
  let text := Text.dropTo (Source.code raw) offset
  if Access.isGuarded s.name.toList text then none
  else
    match Access.first? s.name.toList text with
    | none => none
    | some (kind, c) =>
      let col := c + offset
      if s.zones.any fun z => b.originLine ≤ z.startLine && z.covers n col then none
      else
        some { file := file, line := n, col := col, bindingName := s.name, accessKind := kind,
               severity := kind.severity, sourceLine := String.ofList (Text.trim raw),
               bindingKind := b.kind, bindingLine := b.originLine, reason := b.reason }

def finding? (s : Subject) (file : String) (n : Int) (raw : Line) (scope : Scope) :
    Option Finding :=
  if Source.isCommentLine raw || !Text.holds s.name.toList (Source.code raw) then none
  else (scope.lookup s.name scope.depth).bind (s.findingFor file n raw)

end Subject

def walk (file : String) (bindings : List Binding) (subjects : List Subject) (scope : Scope)
    (n : Int) : List Line → List Finding
  | [] => []
  | raw :: rest =>
    -- The braces of the line come first, so a binding is seen at the depth behind its line.
    let here := (bindings.filter (·.originLine == n)).foldl Scope.add (scope.readLine raw n)
    subjects.filterMap (fun s => s.finding? file n raw here) ++
      walk file bindings subjects here (n + 1) rest

/-- The order of a report: by line, then by name. -/
def before (a b : Finding) : Bool :=
  a.line < b.line || (a.line == b.line && !decide (b.bindingName < a.bindingName))

/-- The unguarded dereferences of risky bindings in a file, by line and name. -/
def generate (file : String) (lines : List Line) (bindings : List Binding) (extents : Extents) :
    List Finding :=
  let subjects := (bindings.map (·.name)).eraseDups.map fun name =>
    (⟨name, Guard.findZones lines name extents⟩ : Subject)
  (walk file bindings subjects {} 1 lines).mergeSort before

end NullAccess.Finding
