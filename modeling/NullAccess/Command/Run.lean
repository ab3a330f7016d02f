import NullAccess.Command.Basic
import NullAccess.Config
import NullAccess.Console.Ledger
import NullAccess.Files.Discover
import NullAccess.Scan

/-!
# Running commands

A command reads and changes files, prints lines and ends with an exit code: 0 when all is well, 1
when a scan fails or a request is refused, and 2 when the ledger cannot be written or the command
line is wrong.
-/

namespace NullAccess

/-- What a command finds when it starts. -/
structure Environment where
  tree : Tree
  /-- The directory that the command is run in. -/
  cwd : Path
  /-- The day, in UTC as the time is. -/
  today : String
  time : String := ScanReport.noon
  /-- What version control answers in each directory. -/
  listing : Path → Listing := Listing.unavailable

/-- What a command leaves: the files, its exit code, the lines it printed, the warnings it gave, and
what stopped it if it did not come to its end. -/
structure Ran where
  tree : Tree
  exit : Nat := 0
  out : List String := []
  warnings : List Warning := []
  stop : Option Stop := none

namespace Ran

/-- The same with warnings given before. -/
def after (ws : List Warning) (r : Ran) : Ran := { r with warnings := ws ++ r.warnings }

def stopped (t : Tree) (s : Stop) : Ran := { tree := t, exit := 1, stop := some s }

def failed (t : Tree) (exit : Nat) (message : String) : Ran :=
  { tree := t, exit, out := Screen.error message }

def refused (t : Tree) (e : LedgerError) : Ran :=
  match e with
  | .writeFailed _ _ => failed t 2 e.message
  | .stopped s => stopped t s
  | _ => failed t 1 e.message

/-- A command line that is wrong. -/
def misused (t : Tree) : Ran := { tree := t, exit := 2 }

end Ran

namespace Environment

/-! ## Steps that commands share -/

/-- Goes on with the project's root, which has to be a directory. -/
def withRoot (e : Environment) (target : Target) (next : Path → Ran) : Ran :=
  let given := Path.ofText ((target.root.filter (!·.isEmpty)).getD ".")
  let root := Path.resolve e.cwd given
  match given.nul?, e.tree.probe root with
  | some err, _ => .stopped e.tree (.file err)
  | none, .error err => .stopped e.tree (.file err)
  | none, .ok (some .dir) => next root
  | none, .ok _ => .failed e.tree 1 s!"Not a directory: {root.text}"

def withConfig (e : Environment) (root : Path) (overrides : List (String × Json))
    (next : Config → Ran) : Ran :=
  match Config.load e.tree root overrides with
  | (ws, .error s) => (Ran.stopped e.tree s).after ws
  | (ws, .ok c) => (next c).after ws

def withLedger (e : Environment) (path : Path) (next : Store → Ran) : Ran :=
  match Store.load e.tree path e.today with
  | .error s => .stopped e.tree s
  | .ok (store, ws) => (next store).after ws

def withProject (e : Environment) (target : Target) (next : Path → Config → Store → Ran) : Ran :=
  e.withRoot target fun root =>
    e.withConfig root [] fun c =>
      e.withLedger (c.ledgerPath root target.ledger) fun store => next root c store

def search (e : Environment) (root : Path) (c : Config) : Discover.Search :=
  { tree := e.tree, listing := e.listing, root, cwd := e.cwd, usual := scriptExtensions,
    extensions := c.extensions, ignore := c.ignore }

def withFiles (e : Environment) (root : Path) (c : Config) (paths : List String)
    (next : List String → Ran) : Ran :=
  match (e.search root c).targets paths with
  | (ws, .error err) => (Ran.stopped e.tree err.toStop).after ws
  | (ws, .ok files) => (next files).after ws

def withUsage (e : Environment) (root : Path) (signatures : List (List String))
    (files : List String) (next : Framework.Usage → Ran) : Ran :=
  match Framework.usage e.tree root signatures files with
  | (ws, .error f) => (Ran.stopped e.tree (.fault f)).after ws
  | (ws, .ok usage) => (next usage).after ws

def withOutcome {α : Type} (o : Outcome α) (next : α → Ran) : Ran :=
  match o.result with
  | .error err => .refused o.tree err
  | .ok a => next a

def jsonLines (v : Json) : List String :=
  (Text.dropEmptyLast (Text.splitOn '\n' v.canonical.toList)).map String.ofList

/-! ## Scanning -/

/-- Writes a report to a file, and first makes the directories above it. -/
def writeReport (t : Tree) (path : Path) (r : ScanReport) : Tree × Except FileError Unit :=
  match t.makeDirs path.parent with
  | (t1, .error e) => (t1, .error e)
  | (t1, .ok ()) =>
    match t1.write path r.toJson.canonical.toUTF8 with
    | .error e => (t1, .error e)
    | .ok t2 => (t2, .ok ())

def scanOverrides (target : Target) (o : ScanOptions) : List (String × Json) :=
  [("default_severity", Json.ofOption (fun d => .str d.text) o.defaultSeverity),
    ("enforce_suppression_comments", Json.ofOption .bool o.enforceMarkers),
    ("ledger", Json.ofOption .str target.ledger)]

/-- Prints a report and ends as it says. -/
def conclude (o : ScanOptions) (r : ScanReport) (t : Tree) : Ran :=
  { tree := t, exit := if r.shouldFail then 1 else 0,
    out :=
      if o.json then jsonLines r.toJson
      else if o.quiet then [] else Screen.report r o.verbose }

/-- Scans the files of a project and merges the findings with the ledger at a path. -/
def scanWith (e : Environment) (o : ScanOptions) (root : Path) (c : Config) (ledger : Path) : Ran :=
  e.withFiles root c o.paths fun files =>
    e.withLedger ledger fun store =>
      let k : Classifier := { rules := .shipped, signatures := store.data.enabledSignatures }
      match Scan.report e.tree root c.enforceMarkers k files store.data c.defaultSeverity root.text
          e.today e.time with
      | (ws, .error f) => (Ran.stopped e.tree (.fault f)).after ws
      | (ws, .ok r) =>
        Ran.after ws <|
          -- The report is written before it is printed; when that fails nothing is printed.
          match o.output.filter (!·.isEmpty) with
          | none => conclude o r e.tree
          | some path =>
            match writeReport e.tree (e.cwd.join (Path.ofText path)) r with
            | (t, .error err) => .stopped t (.file err)
            | (t, .ok ()) => conclude o r t

def scan (e : Environment) (target : Target) (o : ScanOptions) : Ran :=
  e.withRoot target fun root =>
    e.withConfig root (scanOverrides target o) fun c =>
      e.scanWith o root c (c.ledgerPath root none)

/-! ## Ledger entries -/

def listEntries (e : Environment) (target : Target) (json : Bool) : Ran :=
  e.withProject target fun _ _ store =>
    { tree := e.tree,
      out := if json then jsonLines store.data.toJson else Screen.entries store.data }

/-- The name under which the ledger knows a file argument. -/
def ledgerName (e : Environment) (root : Path) (file : String) : String :=
  match root.below? (Path.resolve e.cwd (Path.ofText file)) with
  | some p => p.text
  | none => file

/-- What is printed after an approval: the entry, and the markers that its functions need. -/
def approvedLines (entry : Entry) : List String :=
  Screen.message (Markup.styled "green" s!"Approved {entry.location} as {entry.id}") ++
    entry.dependencies.flatMap fun d =>
      let place := s!"Add above {d.targetFunction} in {d.targetFile}:{d.targetLine}:"
      let heading := Markup.styled "dim" place
      Screen.message s!"{heading}\n  // @validation-dependency {entry.id}"

def addEntry (e : Environment) (target : Target) (o : AddOptions) : Ran :=
  e.withProject target fun root _ store =>
    match o.dependencies.mapM DependencyRef.ofArgument with
    | .error .malformed => .misused e.tree
    | .error .noNumber => .stopped e.tree .noNumber
    | .ok dependencies =>
      let request : Approval.Request :=
        { file := e.ledgerName root o.file, line := o.line, reason := o.reason,
          category := o.category, dependencies, id := o.id.getD "" }
      let outcome := Approval.approve store e.tree e.today root request
      withOutcome outcome fun entry => { tree := outcome.tree, out := approvedLines entry }

def removeEntry (e : Environment) (target : Target) (id : String) : Ran :=
  e.withProject target fun _ _ store =>
    let outcome := store.remove e.tree e.today id
    withOutcome outcome fun removed =>
      if removed then
        { tree := outcome.tree, out := Screen.message (Markup.styled "green" s!"Removed {id}") }
      else .failed outcome.tree 1 (LedgerError.unknownEntry id).message

def reapproveEntry (e : Environment) (target : Target) (id : String) : Ran :=
  e.withProject target fun root _ store =>
    let outcome := Approval.reapprove store e.tree e.today root id
    withOutcome outcome fun entry =>
      { tree := outcome.tree,
        out :=
          Screen.message (Markup.styled "green" s!"Re-approved {entry.id} at {entry.location}") }

def validateEntries (e : Environment) (target : Target) (touch json : Bool)
    (enforceMarkers : Option Bool) : Ran :=
  e.withRoot target fun root =>
    let overrides := [("enforce_suppression_comments", Json.ofOption .bool enforceMarkers)]
    e.withConfig root overrides fun c =>
      e.withLedger (c.ledgerPath root target.ledger) fun store =>
        let v : Validator := { root, enforce := c.enforceMarkers }
        match store.validateAll e.tree e.today v touch with
        | (t, _, _, .error (.fault f)) => .stopped t (.fault f)
        | (t, _, _, .error (.ledger err)) => .refused t err
        | (t, _, _, .ok results) =>
          { tree := t, exit := if results.all (·.isValid) then 0 else 1,
            out :=
              if json then jsonLines (.arr (results.map ValidationResult.toJson))
              else Screen.validation results }

def syncMarkers (e : Environment) (target : Target) (paths : List String) : Ran :=
  e.withProject target fun root c store =>
    e.withFiles root c paths fun files =>
      let outcome := Approval.sync store e.tree e.today root files
      withOutcome outcome fun r =>
        { tree := outcome.tree, exit := if r.errors.isEmpty then 0 else 1,
          out := Screen.syncResult r }

/-! ## Framework patterns -/

def listFrameworks (e : Environment) (target : Target) : Ran :=
  e.withProject target fun _ _ store =>
    let known := Markup.styled "dim" s!"Built-in: {Framework.catalogue}"
    { tree := e.tree, out := Screen.frameworks store.data ++ Screen.message s!"\n{known}" }

def detectFramework (e : Environment) (target : Target) (name : String) (paths : List String) :
    Ran :=
  match Framework.find? name with
  | none =>
    .failed e.tree 1 s!"Unknown framework {name}; built-in: {Framework.catalogue}"
  | some framework =>
    e.withProject target fun root c store =>
      e.withFiles root c paths fun files =>
        e.withUsage root framework.signatures files fun usage =>
          let suggest := FrameworkMatch.suggested usage.found.length (store.data.isEnabled name)
          { tree := e.tree, out := Screen.frameworkMatches name usage.found suggest }

def signatureOf (arg : String) : List String :=
  ((Text.splitOn ',' arg.toList).map fun p => String.ofList (Text.trim p)).filter (!·.isEmpty)

def createFramework (e : Environment) (root : Path) (c : Config) (store : Store) (name : String)
    (signatures : List (List String)) (description : String) : Ran :=
  -- The matches are counted over the whole project.
  e.withFiles root c [] fun files =>
    e.withUsage root signatures files fun usage =>
      let functions := usage.found.length
      let affected := (usage.found.map (·.file)).eraseDups.length
      let stats : FrameworkStats := { functionsMatched := functions, filesAffected := affected }
      let outcome :=
        store.addFramework e.tree e.today name signatures description stats "manual"
      withOutcome outcome fun id =>
        let enabled := Markup.styled "green" s!"Enabled {id}"
        let counts := Markup.styled "dim" s!"({functions} function(s) in {affected} file(s))"
        { tree := outcome.tree, out := Screen.message s!"{enabled} {counts}" }

def enableFramework (e : Environment) (target : Target) (name : String) (signatures : List String)
    (description : String) : Ran :=
  e.withProject target fun root c store =>
    if signatures.isEmpty then
      -- Without signatures a pattern of the ledger is switched on as it is, and only without such a
      -- pattern a known framework is entered.
      match store.data.framework? name with
      | some p =>
        let outcome := store.setEnabled e.tree e.today name true
        withOutcome outcome fun _ =>
          { tree := outcome.tree, out := Screen.message (Markup.styled "green" s!"Enabled {p.id}") }
      | none =>
        match Framework.find? name with
        | some f =>
          let text := if description.isEmpty then f.description else description
          e.createFramework root c store name f.signatures text
        | none =>
          .failed e.tree 1 s!"Unknown framework {name}; pass --signature to define it"
    else e.createFramework root c store name (signatures.map signatureOf) description

def disableFramework (e : Environment) (target : Target) (name : String) : Ran :=
  e.withProject target fun _ _ store =>
    let outcome := store.setEnabled e.tree e.today name false
    withOutcome outcome fun _ =>
      { tree := outcome.tree, out := Screen.message s!"Disabled {name}" }

def removeFramework (e : Environment) (target : Target) (name : String) : Ran :=
  e.withProject target fun _ _ store =>
    let outcome := store.removeFramework e.tree e.today name
    withOutcome outcome fun removed =>
      if removed then { tree := outcome.tree, out := Screen.message s!"Removed {name}" }
      else .failed outcome.tree 1 (LedgerError.unknownFramework name).message

end Environment

namespace Command

def run (e : Environment) : Command → Ran
  | version => { tree := e.tree, out := Screen.message s!"nullscan v{programVersion}" }
  | scan target options => e.scan target options
  | listEntries target json => e.listEntries target json
  | addEntry target options => e.addEntry target options
  | removeEntry target id => e.removeEntry target id
  | reapproveEntry target id => e.reapproveEntry target id
  | validateEntries target touch json enforceMarkers =>
    e.validateEntries target touch json enforceMarkers
  | syncMarkers target paths => e.syncMarkers target paths
  | listFrameworks target => e.listFrameworks target
  | detectFramework target name paths => e.detectFramework target name paths
  | enableFramework target name signatures description =>
    e.enableFramework target name signatures description
  | disableFramework target name => e.disableFramework target name
  | removeFramework target name => e.removeFramework target name

def runArgs (e : Environment) (args : List String) : Ran :=
  match ofArgs args with
  | .ok c => c.run e
  | .error .wrong => .misused e.tree
  | .error .help => { tree := e.tree }

end Command

end NullAccess
