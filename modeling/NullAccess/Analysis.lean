import NullAccess.Binding.Classify
import NullAccess.Finding.Filter
import NullAccess.Finding.Generate

/-!
# The analysis of a file

A first walk collects the risky bindings and the extents of blocks; a second walk finds unguarded
dereferences of these bindings; known-safe idioms are dropped.  Nothing is carried from one file to
another.
-/

namespace NullAccess

/-- What the first walk gathers: the scope behind the last line, and every risky binding in the
order of declaration. -/
structure Declarations where
  scope : Scope := {}
  declared : List Binding := []
  deriving Repr

namespace Declarations

def readLine (k : Classifier) (lines : List Line) (d : Declarations) (raw : Line) (n : Int) :
    Except Fault Declarations :=
  let scope := d.scope.readLine raw n
  if Source.isCommentLine raw then .ok { d with scope := scope }
  else
    match k.classify (Source.code raw) n scope.depth lines with
    | .error e => .error e
    | .ok found => .ok { scope := found.foldl Scope.add scope, declared := d.declared ++ found }

def readLines (k : Classifier) (lines : List Line) (d : Declarations) (n : Int) :
    List Line → Except Fault Declarations
  | [] => .ok d
  | raw :: rest =>
    match d.readLine k lines raw n with
    | .error e => .error e
    | .ok d' => readLines k lines d' (n + 1) rest

def ofLines (k : Classifier) (lines : List Line) : Except Fault Declarations :=
  readLines k lines {} 1 lines

end Declarations

namespace Analysis

def run (file : String) (lines : List Line) (k : Classifier) : Except Fault (List Finding) := do
  let d ← Declarations.ofLines k lines
  Finding.dropSafeIdioms lines d.scope.extents
    (Finding.generate file lines d.declared d.scope.extents)

def ofSource (file : String) (source : String) (k : Classifier) : Except Fault (List Finding) :=
  run file (Text.sourceLines source.toList) k

end Analysis

end NullAccess
