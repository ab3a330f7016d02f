import NullAccess.Files.Tree
import NullAccess.Yaml.Reader

/-!
# YAML files

A file is read as text, with every line end taken as a line feed, and the text as one document.
-/

namespace NullAccess.Yaml

/-- Why a file has no value. -/
inductive LoadError where
  | unreadable (e : FileError)
  | notText
  | failed (why : Failure)
  deriving DecidableEq, Repr

def load (t : Tree) (p : Path) : Except LoadError Node :=
  match t.read p with
  | .error e => .error (.unreadable e)
  | .ok bytes =>
    match String.fromUTF8? bytes with
    | none => .error .notText
    | some s => (read (Text.unifyEnds s.toList)).mapError .failed

end NullAccess.Yaml
