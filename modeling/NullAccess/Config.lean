import NullAccess.Finding.Basic
import NullAccess.Stop
import NullAccess.Warning
import NullAccess.Yaml.Load

/-!
# Configuration

A project may have a configuration file.  A file that cannot be read, or that breaks the rules of
its language, counts as empty, and settings that do not fit are replaced by the defaults, all of
them.
-/

namespace NullAccess

def scriptExtensions : List String := [".js", ".mjs", ".cjs", ".jsx", ".ts", ".tsx"]

/-- The settings of a project. -/
structure Config where
  /-- Whether every approved line needs a marker above it. -/
  enforceMarkers : Bool := false
  defaultSeverity : DefaultSeverity := .error
  /-- The path of the ledger, seen from the project's root. -/
  ledger : String := ".nullscan-whitelist.json"
  extensions : List String := scriptExtensions
  ignore : List String := []
  deriving DecidableEq, Repr, Inhabited

namespace Config

def fileName : String := ".nullscan.yaml"

def ofFields? (o : List (String × Json)) : Option Config := do
  let enforceMarkers ← Json.want o "enforce_suppression_comments" Json.toBool? false
  let defaultSeverity ←
    Json.want o "default_severity" (fun v => v.toText?.bind DefaultSeverity.ofText?) .error
  let ledger ← Json.want o "ledger" Json.toText? ".nullscan-whitelist.json"
  let extensions ← Json.want o "extensions" (Json.toList? Json.toText?) scriptExtensions
  let ignore ← Json.want o "ignore" (Json.toList? Json.toText?) []
  return { enforceMarkers, defaultSeverity, ledger, extensions, ignore }

def toJson (c : Config) : Json :=
  .obj [("enforce_suppression_comments", .bool c.enforceMarkers),
    ("default_severity", .str c.defaultSeverity.text), ("ledger", .str c.ledger),
    ("extensions", Json.strs c.extensions), ("ignore", Json.strs c.ignore)]

def fieldsOf (v : Yaml.Node) : List Warning × Except Stop (List (String × Json)) :=
  if v.isEmpty then ([], .ok [])
  else
    match v with
    | .map pairs =>
      match Yaml.Node.pairsToJson pairs with
      | some fields => ([], .ok fields)
      | none => ([], .error .keyNotText)
    | _ => ([.configNotMapping], .ok [])

def filePath (root : Path) : Path := root.join (Path.ofText fileName)

def readFields (t : Tree) (root : Path) : List Warning × Except Stop (List (String × Json)) :=
  match t.probe (filePath root) with
  | .error e => ([], .error (.file e))
  | .ok none => ([], .ok [])
  | .ok (some _) =>
    match Yaml.load t (filePath root) with
    | .ok v => fieldsOf v
    | .error .notText => ([], .error .notText)
    | .error (.unreadable _) | .error (.failed .malformed) => ([.fileUnreadable], .ok [])
    | .error (.failed why) => ([], .error (.noValue why))

/-- The settings with others set over them.  A null sets nothing. -/
def override (fields overrides : List (String × Json)) : List (String × Json) :=
  overrides.foldl
    (fun held (name, v) =>
      match v with
      | .null => held
      | v => Json.setField name v held)
    fields

/-- The configuration of a project, in which the overrides win over the file. -/
def load (t : Tree) (root : Path) (overrides : List (String × Json)) :
    List Warning × Except Stop Config :=
  match readFields t root with
  | (warnings, .error stop) => (warnings, .error stop)
  | (warnings, .ok fields) =>
    match ofFields? (override fields overrides) with
    | some c => (warnings, .ok c)
    -- The overrides are lost with the rest.
    | none => (warnings ++ [.configInvalid], .ok {})

/-- The path of the ledger: the given one if there is one, and the configured one otherwise. -/
def ledgerPath (c : Config) (root : Path) (given : Option String) : Path :=
  root.join (Path.ofText ((given.filter (!·.isEmpty)).getD c.ledger))

end Config

end NullAccess
