import NullAccess.Binding.Declaration
import NullAccess.Fault
import NullAccess.Files.Tree
import NullAccess.Json.Fit
import NullAccess.Source.Comment
import NullAccess.Source.Parameter
import NullAccess.Warning

/-!
# Frameworks

A framework calls functions by a convention: the parameters of its handlers have certain names, and
are always given.  The functions that follow a convention are looked for before it is enabled.
-/

namespace NullAccess

/-- A framework whose calling convention is known. -/
structure Framework where
  name : String
  description : String
  /-- The parameter lists of its handlers. -/
  signatures : List (List String)
  deriving DecidableEq, Repr, Inhabited

namespace Framework

def express : Framework :=
  { name := "express", description := "Express.js route handlers and middleware",
    signatures :=
      [["req", "res", "next"], ["req", "res"], ["request", "response", "next"],
       ["request", "response"], ["err", "req", "res", "next"]] }

def known : List Framework := [express]

def find? (name : String) : Option Framework := known.find? (·.name == name)

def catalogue : String :=
  ", ".intercalate ((known.map (·.name)).mergeSort fun a b => !decide (b < a))

end Framework

/-- A function whose parameters follow a convention.  A handler without a name has an empty one. -/
structure FrameworkMatch where
  file : String
  line : Int
  function : String := ""
  params : List String
  deriving DecidableEq, Repr, Inhabited

namespace FrameworkMatch

def ofFields? (o : List (String × Json)) : Option FrameworkMatch := do
  let file ← Json.need o "file" Json.toText?
  let line ← Json.need o "line" Json.toInt?
  let function ← Json.want o "function" Json.toText? ""
  let params ← Json.need o "params" (Json.toList? Json.toText?)
  return { file, line, function, params }

def toJson (m : FrameworkMatch) : Json :=
  .obj [("file", .str m.file), ("line", .int m.line), ("function", .str m.function),
    ("params", Json.strs m.params)]

/-- The names and parameter lists of the functions that a line of code declares: every function
with the keyword, then the first arrow function, then the first route handler. -/
def declared (code : Line) : List (List Char × List Char) :=
  ((Declaration.function.findAll code).map fun m => (m.group 1, m.group 2)) ++
    ((Declaration.arrow.find? code).map fun m => (m.group 1, m.group 2)).toList ++
    ((Declaration.route.find? code).map fun m => ([], m.group 1)).toList

def ofLine (signatures : List (List String)) (file : String) (n : Int) (raw : Line) :
    List FrameworkMatch :=
  if Source.isCommentLine raw then []
  else
    (declared (Source.code raw)).filterMap fun (name, params) =>
      let names := Source.signature params
      if signatures.contains names then
        some { file, line := n, function := String.ofList name, params := names }
      else none

def ofLines (signatures : List (List String)) (file : String) (n : Int) :
    List Line → List FrameworkMatch
  | [] => []
  | raw :: rest => ofLine signatures file n raw ++ ofLines signatures file (n + 1) rest

/-- The number of matches from which on a convention is suggested. -/
def threshold : Nat := 3

/-- Whether a convention is suggested, given the number of its matches and whether it is enabled
already. -/
def suggested (count : Nat) (enabled : Bool) : Bool := !enabled && decide (threshold ≤ count)

end FrameworkMatch

namespace Framework

/-- What a search found: functions, and files that could not be read. -/
structure Usage where
  found : List FrameworkMatch := []
  unreadable : List String := []
  deriving DecidableEq, Repr

namespace Usage

def append (u v : Usage) : Usage :=
  { found := u.found ++ v.found, unreadable := u.unreadable ++ v.unreadable }

end Usage

def usageIn (t : Tree) (root : Path) (signatures : List (List String)) (file : String) :
    List Warning × Except Fault Usage :=
  match t.sourceLines (root.join (Path.ofText file)) with
  | .ok lines => ([], .ok { found := FrameworkMatch.ofLines signatures file 1 lines })
  | .error e =>
    if e.cause.isRefusal then ([.fileUnreadable], .ok { unreadable := [file] })
    else ([], .error .nulInName)

def usage (t : Tree) (root : Path) (signatures : List (List String)) :
    List String → List Warning × Except Fault Usage
  | [] => ([], .ok {})
  | file :: rest =>
    match usageIn t root signatures file with
    | (ws, .error f) => (ws, .error f)
    | (ws, .ok u) =>
      let (more, others) := usage t root signatures rest
      (ws ++ more, others.map u.append)

end Framework

end NullAccess
