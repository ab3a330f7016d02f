import NullAccess.Command.Arguments
import NullAccess.Finding.Basic
import NullAccess.Marker.Basic
import NullAccess.Text.Digit

/-!
# Commands

What the program can be asked to do, and how a command is read from the command line.
-/

namespace NullAccess

/-- Where a command works: the project's root and the ledger, unless the usual ones are meant. -/
structure Target where
  root : Option String := none
  ledger : Option String := none
  deriving DecidableEq, Repr, Inhabited

/-- How a scan is made and reported. -/
structure ScanOptions where
  paths : List String := []
  json : Bool := false
  output : Option String := none
  verbose : Bool := false
  quiet : Bool := false
  defaultSeverity : Option DefaultSeverity := none
  enforceMarkers : Option Bool := none
  deriving DecidableEq, Repr, Inhabited

/-- What is approved from the command line. -/
structure AddOptions where
  file : String
  line : Int
  reason : String
  category : String := nullAccessCategory
  /-- The functions that the approval relies on, as they are written. -/
  dependencies : List String := []
  id : Option String := none
  deriving DecidableEq, Repr, Inhabited

/-- A command. -/
inductive Command where
  | version
  | scan (target : Target) (options : ScanOptions)
  | listEntries (target : Target) (json : Bool)
  | addEntry (target : Target) (options : AddOptions)
  | removeEntry (target : Target) (id : String)
  | reapproveEntry (target : Target) (id : String)
  | validateEntries (target : Target) (touch json : Bool) (enforceMarkers : Option Bool)
  | syncMarkers (target : Target) (paths : List String)
  | listFrameworks (target : Target)
  | detectFramework (target : Target) (name : String) (paths : List String)
  | enableFramework (target : Target) (name : String) (signatures : List String)
      (description : String)
  | disableFramework (target : Target) (name : String)
  | removeFramework (target : Target) (name : String)
  deriving DecidableEq, Repr, Inhabited

namespace Command

/-- Why a command line names no command to run. -/
inductive Usage where
  | wrong
  | help
  deriving DecidableEq, Repr

/-! ## Options -/

def valueOption (name key : String) : Switch := { names := [name], key }

def flagOption (names : List String) (key : String) : Switch := { names, key, sets := some true }

def helpOption : Switch := flagOption ["--help"] "help"

def targetOptions : List Switch :=
  [helpOption, valueOption "--root" "root", valueOption "--ledger" "ledger"]

def jsonOption : Switch := flagOption ["--json"] "json"

def enforceOptions : List Switch :=
  [flagOption ["--enforce-comments"] "enforce",
   { names := ["--no-enforce-comments"], key := "enforce", sets := some false }]

def scanOptions : List Switch :=
  targetOptions ++ enforceOptions ++
    [jsonOption, { names := ["--output", "-o"], key := "output" },
     flagOption ["--verbose", "-v"] "verbose", flagOption ["--quiet", "-q"] "quiet",
     valueOption "--default-severity" "severity"]

def addOptions : List Switch :=
  targetOptions ++
    [valueOption "--reason" "reason", valueOption "--category" "category",
     valueOption "--dependency" "dependency", valueOption "--id" "id"]

/-! ## Reading commands -/

def targetOf (a : Arguments) : Target := { root := a.text? "root", ledger := a.text? "ledger" }

/-- Reads the arguments of a command and builds it, unless help is asked for. -/
def build (switches : List Switch) (args : List String) (f : Arguments → Option Command) :
    Except Usage Command :=
  match Arguments.read? switches args with
  | none => .error .wrong
  | some a =>
    -- Help is given whatever the operands are.
    if a.isSet "help" then .error .help
    else
      match f a with
      | some c => .ok c
      | none => .error .wrong

/-- The report level that an option names; none if the option is not given. -/
def severityOf (a : Arguments) : Option (Option DefaultSeverity) :=
  match a.text? "severity" with
  | none => some none
  | some s => (DefaultSeverity.ofText? s).map some

def scanOf (a : Arguments) : Option Command := do
  let defaultSeverity ← severityOf a
  return .scan (targetOf a)
    { paths := a.operands, json := a.isSet "json", output := a.text? "output",
      verbose := a.isSet "verbose", quiet := a.isSet "quiet", defaultSeverity,
      enforceMarkers := a.flag? "enforce" }

def addOf (a : Arguments) : Option Command :=
  match a.operands with
  | [file, lineText] => do
    let line ← Json.textToInt? lineText
    let reason ← a.text? "reason"
    return .addEntry (targetOf a)
      { file, line, reason, category := (a.text? "category").getD nullAccessCategory,
        dependencies := a.texts "dependency", id := a.text? "id" }
  | _ => none

/-- A command without operands. -/
def withNone (a : Arguments) (c : Command) : Option Command :=
  if a.operands.isEmpty then some c else none

/-- A command with one operand. -/
def withOne (a : Arguments) (f : String → Command) : Option Command :=
  match a.operands with
  | [x] => some (f x)
  | _ => none

def whitelistOf (name : String) (args : List String) : Except Usage Command :=
  match name with
  | "list" =>
    build (jsonOption :: targetOptions) args fun a =>
      withNone a (.listEntries (targetOf a) (a.isSet "json"))
  | "add" => build addOptions args addOf
  | "remove" => build targetOptions args fun a => withOne a (.removeEntry (targetOf a))
  | "reapprove" => build targetOptions args fun a => withOne a (.reapproveEntry (targetOf a))
  | "validate" =>
    build (jsonOption :: flagOption ["--touch"] "touch" :: enforceOptions ++ targetOptions) args
      fun a =>
        withNone a
          (.validateEntries (targetOf a) (a.isSet "touch") (a.isSet "json") (a.flag? "enforce"))
  | "sync" => build targetOptions args fun a => some (.syncMarkers (targetOf a) a.operands)
  | _ => .error .wrong

def frameworksOf (name : String) (args : List String) : Except Usage Command :=
  match name with
  | "list" => build targetOptions args fun a => withNone a (.listFrameworks (targetOf a))
  | "detect" =>
    build (valueOption "--name" "name" :: targetOptions) args fun a =>
      some (.detectFramework (targetOf a) ((a.text? "name").getD "express") a.operands)
  | "enable" =>
    build
      (valueOption "--signature" "signature" :: valueOption "--description" "description" ::
        targetOptions)
      args fun a =>
        withOne a fun name =>
          .enableFramework (targetOf a) name (a.texts "signature")
            ((a.text? "description").getD "")
  | "disable" => build targetOptions args fun a => withOne a (.disableFramework (targetOf a))
  | "remove" => build targetOptions args fun a => withOne a (.removeFramework (targetOf a))
  | _ => .error .wrong

/-- The name of a command and its arguments.  Before the name only `--help` and `--` may stand. -/
def splitName : List String → Except Usage (String × List String)
  | [] => .error .wrong
  | "--help" :: _ => .error .help
  | "--" :: name :: rest => .ok (name, rest)
  | name :: rest => .ok (name, rest)

def ofArgs (args : List String) : Except Usage Command :=
  match splitName args with
  | .error u => .error u
  | .ok (name, rest) =>
    match name with
    | "scan" => build scanOptions rest scanOf
    | "version" => build [helpOption] rest fun a => withNone a .version
    | "whitelist" =>
      match splitName rest with
      | .error u => .error u
      | .ok (sub, rest') => whitelistOf sub rest'
    | "frameworks" =>
      match splitName rest with
      | .error u => .error u
      | .ok (sub, rest') => frameworksOf sub rest'
    | _ => .error .wrong

def target : Command → Target
  | version => {}
  | scan t _ | listEntries t _ | addEntry t _ | removeEntry t _ | reapproveEntry t _
  | validateEntries t _ _ _ | syncMarkers t _ | listFrameworks t | detectFramework t _ _
  | enableFramework t _ _ _ | disableFramework t _ | removeFramework t _ => t

def operands : Command → List String
  | scan t o => o.paths ++ o.output.toList ++ t.ledger.toList
  | addEntry t o => o.file :: t.ledger.toList
  | syncMarkers t paths => paths ++ t.ledger.toList
  | detectFramework t _ paths => paths ++ t.ledger.toList
  | c => c.target.ledger.toList

end Command

/-! ## Functions that an approval relies on -/

namespace DependencyRef

/-- Why an argument names no function. -/
inductive ArgumentError where
  | malformed
  /-- The line is written like a number, but denotes none: with digits that are not decimal, with
  too many digits, or with an information separator beside them. -/
  | noNumber
  deriving DecidableEq, Repr

/-- The function that an argument `function:line` or `function:line:file` names. -/
def ofArgument (raw : String) : Except ArgumentError DependencyRef :=
  match Text.cutAt ':' raw.toList with
  | (_, none) => .error .malformed
  | (name, some rest) =>
    let (number, file) := Text.cutAt ':' rest
    let digits := Text.trim number
    if digits.isEmpty || !digits.all Text.isFigure then .error .malformed
    else
      match Text.readNumeral? (Text.trimSpace number) with
      | none => .error .noNumber
      | some n =>
        let fileText := Text.trimString (String.ofList (file.getD []))
        .ok
          { function := Text.trimString (String.ofList name), line := n,
            file := if fileText.isEmpty then none else some fileText }

end DependencyRef

end NullAccess
