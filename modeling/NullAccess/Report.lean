import NullAccess.Drift.Validate
import NullAccess.Finding.Fix

/-!
# Reports

The findings of a scan are merged with the ledger.  A finding that no entry covers is new; one that
a valid entry covers is whitelisted; one whose entry is not valid is drift.  An entry of a scanned
file that is not valid and whose finding is gone is drift as well.
-/

namespace NullAccess

/-- The findings of one file, or the reason why it could not be read. -/
structure FileResult where
  file : String
  findings : List Finding := []
  error : Option String := none
  deriving DecidableEq, Repr, Inhabited

namespace FileResult

def ofFields? (o : List (String × Json)) : Option FileResult := do
  let file ← Json.need o "file" Json.toText?
  let findings ← Json.want o "findings" (Json.toList? (Json.record Finding.ofFields?)) []
  let error ← Json.want o "error" (Json.orNull Json.toText?) none
  return { file, findings, error }

def toJson (r : FileResult) : Json :=
  .obj [("file", .str r.file), ("findings", .arr (r.findings.map Finding.toJson)),
    ("error", Json.ofOption .str r.error)]

end FileResult

/-- A finding that a valid entry suppresses. -/
structure WhitelistedFinding where
  finding : Finding
  entryId : String
  deriving DecidableEq, Repr, Inhabited

namespace WhitelistedFinding

def ofFields? (o : List (String × Json)) : Option WhitelistedFinding := do
  let finding ← Json.need o "finding" (Json.record Finding.ofFields?)
  let entryId ← Json.need o "entry_id" Json.toText?
  return { finding, entryId }

def toJson (w : WhitelistedFinding) : Json :=
  .obj [("finding", w.finding.toJson), ("entry_id", .str w.entryId)]

end WhitelistedFinding

/-- An entry that needs a decision.  It has no finding when its line yields none any more. -/
structure DriftItem where
  entryId : String
  file : String
  line : Int
  state : DriftState
  reason : String
  finding : Option Finding := none
  issues : List ValidationIssue := []
  deriving DecidableEq, Repr, Inhabited

namespace DriftItem

def ofFields? (o : List (String × Json)) : Option DriftItem := do
  let entryId ← Json.need o "entry_id" Json.toText?
  let file ← Json.need o "file" Json.toText?
  let line ← Json.need o "line" Json.toInt?
  let state ← Json.need o "state" fun v => v.toText?.bind DriftState.ofText?
  let reason ← Json.need o "reason" Json.toText?
  let finding ← Json.want o "finding" (Json.orNull (Json.record Finding.ofFields?)) none
  let issues ← Json.want o "issues" (Json.toList? (Json.record ValidationIssue.ofFields?)) []
  return { entryId, file, line, state, reason, finding, issues }

def toJson (d : DriftItem) : Json :=
  .obj [("entry_id", .str d.entryId), ("file", .str d.file), ("line", .int d.line),
    ("state", .str d.state.text), ("reason", .str d.reason),
    ("finding", Json.ofOption Finding.toJson d.finding),
    ("issues", .arr (d.issues.map ValidationIssue.toJson))]

def fix? (d : DriftItem) : Option String :=
  match d.state with
  | .drifted =>
    some (s!"Review the change. If the suppression still holds, run " ++
      s!"`nullscan whitelist reapprove {d.entryId}`; otherwise fix the code and " ++
      s!"remove the entry with `nullscan whitelist remove {d.entryId}`.")
  | .broken =>
    some (s!"Restore the missing file or marker, or remove the entry with " ++
      s!"`nullscan whitelist remove {d.entryId}`.")
  | _ => none

def of (e : Entry) (r : ValidationResult) (finding : Option Finding) : DriftItem :=
  { entryId := e.id, file := e.file, line := e.line, state := r.state, reason := r.reason, finding,
    issues := r.issues }

end DriftItem

/-- A file that could not be read. -/
structure UnreadFile where
  file : String
  error : String
  deriving DecidableEq, Repr, Inhabited

namespace UnreadFile

def ofFields? (o : List (String × Json)) : Option UnreadFile := do
  let file ← Json.need o "file" Json.toText?
  let error ← Json.need o "error" Json.toText?
  return { file, error }

def toJson (e : UnreadFile) : Json := .obj [("file", .str e.file), ("error", .str e.error)]

end UnreadFile

/-- The counts at the top of a report. -/
structure ScanSummary where
  filesScanned : Int := 0
  new : Int := 0
  newErrors : Int := 0
  whitelisted : Int := 0
  drift : Int := 0
  fileErrors : Int := 0
  deriving DecidableEq, Repr, Inhabited

namespace ScanSummary

def ofFields? (o : List (String × Json)) : Option ScanSummary := do
  let filesScanned ← Json.want o "files_scanned" Json.toInt? 0
  let new ← Json.want o "new" Json.toInt? 0
  let newErrors ← Json.want o "new_errors" Json.toInt? 0
  let whitelisted ← Json.want o "whitelisted" Json.toInt? 0
  let drift ← Json.want o "drift" Json.toInt? 0
  let fileErrors ← Json.want o "file_errors" Json.toInt? 0
  return { filesScanned, new, newErrors, whitelisted, drift, fileErrors }

def toJson (s : ScanSummary) : Json :=
  .obj [("files_scanned", .int s.filesScanned), ("new", .int s.new),
    ("new_errors", .int s.newErrors), ("whitelisted", .int s.whitelisted), ("drift", .int s.drift),
    ("file_errors", .int s.fileErrors)]

end ScanSummary

def programVersion : String := "0.3.0"

/-- The complete report of a scan. -/
structure ScanReport where
  programVersion : String := programVersion
  scanTarget : String := ""
  scanTimestamp : String
  defaultSeverity : String := "error"
  new : List Finding := []
  whitelisted : List WhitelistedFinding := []
  drift : List DriftItem := []
  errors : List UnreadFile := []
  summary : ScanSummary := {}
  deriving DecidableEq, Repr, Inhabited

namespace ScanReport

/-- The time of day for those who only know the day. -/
def noon : String := "12:00:00"

/-- A point of time in UTC. -/
def timestamp (today time : String) : String := s!"{today}T{time}+00:00"

def ofFields? (today : String) (time : String := noon) (o : List (String × Json)) :
    Option ScanReport := do
  let version ← Json.want o "nullscan_version" Json.toText? NullAccess.programVersion
  let scanTarget ← Json.want o "scan_target" Json.toText? ""
  let scanTimestamp ← Json.want o "scan_timestamp" Json.toText? (timestamp today time)
  let defaultSeverity ← Json.want o "default_severity" Json.toText? "error"
  let new ← Json.want o "new" (Json.toList? (Json.record Finding.ofFields?)) []
  let whitelisted ←
    Json.want o "whitelisted" (Json.toList? (Json.record WhitelistedFinding.ofFields?)) []
  let drift ← Json.want o "drift" (Json.toList? (Json.record DriftItem.ofFields?)) []
  let errors ← Json.want o "errors" (Json.toList? (Json.record UnreadFile.ofFields?)) []
  let summary ← Json.want o "summary" (Json.record ScanSummary.ofFields?) {}
  return { programVersion := version, scanTarget, scanTimestamp, defaultSeverity, new, whitelisted,
           drift, errors, summary }

def toJson (r : ScanReport) : Json :=
  .obj [("nullscan_version", .str r.programVersion), ("scan_target", .str r.scanTarget),
    ("scan_timestamp", .str r.scanTimestamp), ("default_severity", .str r.defaultSeverity),
    ("new", .arr (r.new.map Finding.toJson)),
    ("whitelisted", .arr (r.whitelisted.map WhitelistedFinding.toJson)),
    ("drift", .arr (r.drift.map DriftItem.toJson)),
    ("errors", .arr (r.errors.map UnreadFile.toJson)), ("summary", r.summary.toJson)]

/-- Whether the scan fails: there is drift, or a new finding of level error. -/
def shouldFail (r : ScanReport) : Bool := !r.drift.isEmpty || r.new.any (·.level == "error")

end ScanReport

/-! ## Merging -/

/-- The buckets while a report is put together, with the verdicts given so far and the ids of the
entries that covered a finding. -/
structure Merge where
  validator : Validator
  verdicts : List (String × ValidationResult) := []
  covered : List String := []
  new : List Finding := []
  whitelisted : List WhitelistedFinding := []
  drift : List DriftItem := []
  errors : List UnreadFile := []

namespace Merge

/-- The verdict on an entry; one that was given under its id before is kept. -/
def verdict (m : Merge) (t : Tree) (e : Entry) : Except Fault (ValidationResult × Merge) :=
  match m.verdicts.find? (·.1 == e.id) with
  | some (_, r) => .ok (r, m)
  | none =>
    match m.validator.validate t e with
    | (.error f, _) => .error f
    | (.ok r, v) => .ok (r, { m with validator := v, verdicts := (e.id, r) :: m.verdicts })

def addFinding (t : Tree) (l : Ledger) (d : DefaultSeverity) (m : Merge) (found : Finding) :
    Except Fault Merge :=
  let f := { found with level := found.levelFor d }
  match l.find? f.file f.line (some f.category) with
  | none => .ok { m with new := m.new ++ [f] }
  | some e =>
    -- The entry counts as covered even if it is not valid: it is reported with this finding.
    match Merge.verdict { m with covered := e.id :: m.covered } t e with
    | .error fault => .error fault
    | .ok (r, m') =>
      if r.isValid then .ok { m' with whitelisted := m'.whitelisted ++ [⟨f, e.id⟩] }
      else .ok { m' with drift := m'.drift ++ [.of e r (some f)] }

def addFindings (t : Tree) (l : Ledger) (d : DefaultSeverity) (m : Merge) :
    List Finding → Except Fault Merge
  | [] => .ok m
  | f :: rest =>
    match m.addFinding t l d f with
    | .error fault => .error fault
    | .ok m' => addFindings t l d m' rest

def addFiles (t : Tree) (l : Ledger) (d : DefaultSeverity) (m : Merge) :
    List FileResult → Except Fault Merge
  | [] => .ok m
  | r :: rest =>
    match r.error with
    | some e => addFiles t l d { m with errors := m.errors ++ [⟨r.file, e⟩] } rest
    | none =>
      match m.addFindings t l d r.findings with
      | .error fault => .error fault
      | .ok m' => addFiles t l d m' rest

/-- Whether an entry's file is among the scanned ones.  A value that is no text is not, and a list
or an object cannot even be looked up. -/
def isScanned (scanned : List String) (e : Entry) : Except Fault Bool :=
  match e.unfit? "file" with
  | none => .ok (scanned.contains e.file)
  | some (.arr _) | some (.obj _) => .error .notCountable
  | some _ => .ok false

/-- Adds an entry that covers no finding, if its file was scanned and it is not valid. -/
def addEntry (t : Tree) (scanned : List String) (m : Merge) (e : Entry) : Except Fault Merge :=
  if m.covered.contains e.id then .ok m
  else
    match isScanned scanned e with
    | .error fault => .error fault
    | .ok false => .ok m
    | .ok true =>
      match m.verdict t e with
      | .error fault => .error fault
      | .ok (r, m') =>
        if r.isValid then .ok m' else .ok { m' with drift := m'.drift ++ [.of e r none] }

/-- Adds the entries of scanned files that cover no finding and are not valid. -/
def addEntries (t : Tree) (scanned : List String) (m : Merge) : List Entry → Except Fault Merge
  | [] => .ok m
  | e :: rest =>
    match m.addEntry t scanned e with
    | .error fault => .error fault
    | .ok m' => addEntries t scanned m' rest

end Merge

namespace ScanReport

def assemble (results : List FileResult) (l : Ledger) (t : Tree) (v : Validator)
    (d : DefaultSeverity) (target today : String) (time : String := noon) :
    Except Fault ScanReport := do
  -- Files that could not be read count as scanned, so that their entries are judged too.
  let scanned := (results.map (·.file)).eraseDups
  let m ← Merge.addFiles t l d { validator := v } results
  let m ← m.addEntries t scanned l.entries
  let new := m.new.map Finding.withFix
  let drift := m.drift.map fun i => { i with finding := i.finding.map Finding.withFix }
  return {
    scanTarget := target, scanTimestamp := timestamp today time, defaultSeverity := d.text, new,
    whitelisted := m.whitelisted, drift, errors := m.errors,
    summary :=
      { filesScanned := scanned.length, new := new.length,
        newErrors := (new.filter (·.level == "error")).length,
        whitelisted := m.whitelisted.length, drift := drift.length,
        fileErrors := m.errors.length } }

end ScanReport

end NullAccess
