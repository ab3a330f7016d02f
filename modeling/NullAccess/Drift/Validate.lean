import NullAccess.Drift.Basic
import NullAccess.Ledger.Approval

/-!
# Validating entries

An entry is checked against the files in five stages: its file can be read, its line holds the
approved code, a marker stands above it if markers are enforced, every function it relies on carries
a marker with its id, and these functions have not changed.  The first stage that fails decides.

A validator reads each file once and keeps what it read, be it lines or an error.
-/

namespace NullAccess

/-- What a validator goes by, and what it has read so far. -/
structure Validator where
  root : Path
  enforce : Bool := false
  cache : List (String × Except Cause (List Line)) := []

namespace Validator

/-- The lines of a file, from the files as they are. -/
def fresh (t : Tree) (root : Path) (file : String) : Except Cause (List Line) :=
  match t.sourceLines (Approval.pathOf root file) with
  | .ok lines => .ok lines
  | .error e => .error e.cause

/-- The lines of a file, as they were when the validator first read it. -/
def readLines (v : Validator) (t : Tree) (file : String) :
    Except Cause (List Line) × Validator :=
  match v.cache.find? (·.1 == file) with
  -- Errors are kept too: a file that could not be read is not tried again.
  | some (_, known) => (known, v)
  | none =>
    let lines := fresh t v.root file
    (lines, { v with cache := (file, lines) :: v.cache })

/-! ## Checks -/

def issue (reason : DriftReason) (message file : String) (line : Int) : ValidationIssue :=
  { reason := reason.text, message, file, line }

def fileIssue (reason : DriftReason) (cause : Cause) (file : String) (line : Int) :
    ValidationIssue :=
  issue reason s!"{reason.text}: {cause.text}" file line

def lineIssue? (e : Entry) (lines : List Line) : Option ValidationIssue :=
  match Source.codeAt? lines e.line with
  | none =>
    some { issue .codeNotFound s!"{DriftReason.codeNotFound.text} {e.line}" e.file e.line with
      -- A snapshot that is no text cannot be shown.
      expected := if (e.unfit? "approved_code_snapshot").isSome then none
        else some e.approvedCodeSnapshot }
  | some current =>
    if current = Text.trimString e.approvedCodeSnapshot then none
    else some { issue .codeChanged DriftReason.codeChanged.text e.file e.line with
      expected := some e.approvedCodeSnapshot, actual := some current }

def consumerIssue (e : Entry) : ValidationIssue :=
  issue .missingConsumer
    s!"{DriftReason.missingConsumer.text}: expected @validation-ignore above line {e.line}"
    e.file e.line

def consumerWarning (e : Entry) (m : ConsumerMarker) : List String :=
  match m.whitelistId.filter (!·.isEmpty) with
  -- A marker that names another entry is worth a warning, but the approval holds.
  | some id => if id = e.id then [] else [s!"Consumer marker names {id}, ledger has {e.id}"]
  | none => []

def listed (ids : List String) : String := ", ".intercalate ids

def providerIssue? (id : String) (d : Dependency) (lines : Except Cause (List Line)) :
    Except Fault (Option ValidationIssue) :=
  match lines with
  | .error cause =>
    if cause.isRefusal then
      .ok (some (fileIssue .dependencyFileError cause d.targetFile d.targetLine))
    else .error .nulInName
  | .ok lines =>
    match Marker.provider lines d.targetLine with
    | .error f => .error f
    | .ok p =>
      let place := s!"{d.targetFile}:{d.targetLine}"
      if !p.found then
        .ok (some (issue .missingProvider
          (s!"{DriftReason.missingProvider.text}: add `// @validation-dependency {id}` " ++
            s!"above {d.targetFunction} in {place}")
          d.targetFile d.targetLine))
      else if p.whitelistIds.contains id then .ok none
      else
        let ids := listed p.whitelistIds
        let shown := if ids.isEmpty then "no ids" else ids
        .ok (some { issue .mismatchedProvider
            s!"{DriftReason.mismatchedProvider.text}: {place} lists {shown}"
            d.targetFile d.targetLine with
          expected := some id, actual := some ids })

/-- The issue of a function that is not there or has changed.  Layout does not count. -/
def bodyIssue? (d : Dependency) (lines : Except Cause (List Line)) : Option ValidationIssue :=
  match lines with
  | .error cause => some (fileIssue .dependencyFileError cause d.targetFile d.targetLine)
  | .ok lines =>
    match Source.functionBody? lines d.targetLine d.targetFunction with
    | none =>
      some (issue .dependencyNotFound
        s!"{DriftReason.dependencyNotFound.text}: {d.targetFunction} at line {d.targetLine}"
        d.targetFile d.targetLine)
    | some body =>
      if Text.squeeze body.toList = Text.squeeze d.codeSnapshot.toList then none
      else some (issue .dependencyChanged
        s!"{DriftReason.dependencyChanged.text}: {d.targetFunction} in {d.targetFile}"
        d.targetFile d.targetLine)

def providerIssues (v : Validator) (t : Tree) (id : String) :
    List Dependency → Except Fault (List ValidationIssue) × Validator
  | [] => (.ok [], v)
  | d :: rest =>
    let (lines, v1) := v.readLines t d.targetFile
    match providerIssue? id d lines with
    | .error f => (.error f, v1)
    | .ok i =>
      match providerIssues v1 t id rest with
      | (.error f, v2) => (.error f, v2)
      | (.ok is, v2) => (.ok (i.toList ++ is), v2)

def bodyIssues (v : Validator) (t : Tree) : List Dependency → List ValidationIssue × Validator
  | [] => ([], v)
  | d :: rest =>
    let (lines, v1) := v.readLines t d.targetFile
    let (is, v2) := bodyIssues v1 t rest
    ((bodyIssue? d lines).toList ++ is, v2)

def failed (r : ValidationResult) (state : DriftState) (issues : List ValidationIssue) :
    ValidationResult :=
  { r with state, reason := (issues.head?.map (·.reason)).getD "", issues := r.issues ++ issues }

def bodyState (issues : List ValidationIssue) : DriftState :=
  if issues.any (·.reason == DriftReason.dependencyFileError.text) then .broken else .drifted

/-- The last two stages: the functions that an entry relies on. -/
def validateDependencies (v : Validator) (t : Tree) (e : Entry) (r : ValidationResult) :
    Except Fault ValidationResult × Validator :=
  match v.providerIssues t e.id e.dependencies with
  | (.error f, v1) => (.error f, v1)
  -- Function bodies are compared only when every provider marker is in order.
  | (.ok [], v1) =>
    match v1.bodyIssues t e.dependencies with
    | ([], v2) => (.ok { r with state := .valid }, v2)
    | (issues, v2) => (.ok (failed r (bodyState issues) issues), v2)
  | (.ok issues, v1) => (.ok (failed r .broken issues), v1)

/-- The stages after the first, given the lines of the entry's file. -/
def validateLines (v : Validator) (t : Tree) (e : Entry) (lines : List Line) :
    Except Fault ValidationResult × Validator :=
  let r : ValidationResult := { entryId := e.id, file := e.file, line := e.line }
  -- An entry whose line has changed has drifted, with or without its marker.
  match lineIssue? e lines with
  | some i => (.ok (failed r .drifted [i]), v)
  | none =>
    if v.enforce then
      match Marker.consumer lines e.line with
      | .error f => (.error f, v)
      | .ok m =>
        if !m.found then (.ok (failed r .broken [consumerIssue e]), v)
        else v.validateDependencies t e { r with warnings := consumerWarning e m }
    else v.validateDependencies t e r

/-- Why a value in the place of an entry's file, line or snapshot ends the check.  A line that is
written otherwise but denotes a number is found out only when it is compared with the lines. -/
def unfitFault? (e : Entry) (lines : Except Cause (List Line)) : Option Fault :=
  if (e.unfit? "file").isSome then some .unfit
  else
    match e.unfit? "line", lines with
    | some v, .error _ => if v.toInt?.isSome then none else some .unfit
    | some v, .ok _ => if v.toInt?.isSome then some .notCountable else some .unfit
    | none, .error _ => none
    | none, .ok lines =>
      match e.unfit? "approved_code_snapshot" with
      | none => none
      | some v =>
        if (Source.codeAt? lines e.line).isSome then some .notTrimmable
        else if v = .null then none else some .unfit

/-- The entry with the number that its line denotes. -/
def numbered (e : Entry) : Entry :=
  match (e.unfit? "line").bind Json.toInt? with
  | some n => { e with line := n }
  | none => e

def validate (v : Validator) (t : Tree) (given : Entry) :
    Except Fault ValidationResult × Validator :=
  let e := numbered given
  -- The file is read, and kept, before anything about the entry is judged.
  let (lines, v1) := v.readLines t e.file
  match unfitFault? e lines, lines with
  | some f, _ => (.error f, v1)
  | none, .error cause =>
    if cause.isRefusal then
      let r : ValidationResult := { entryId := e.id, file := e.file, line := e.line }
      (.ok (failed r .broken [fileIssue .fileError cause e.file e.line]), v1)
    else (.error .nulInName, v1)
  | none, .ok lines => v1.validateLines t e lines

def validateEntries (v : Validator) (t : Tree) :
    List Entry → Except Fault (List ValidationResult) × Validator
  | [] => (.ok [], v)
  | e :: rest =>
    match v.validate t e with
    | (.error f, v1) => (.error f, v1)
    | (.ok r, v1) =>
      match validateEntries v1 t rest with
      | (.error f, v2) => (.error f, v2)
      | (.ok rs, v2) => (.ok (r :: rs), v2)

end Validator

namespace Store

/-- Why a validation of the whole ledger stops. -/
inductive ValidationStop where
  | fault (f : Fault)
  | ledger (e : LedgerError)
  deriving DecidableEq, Repr

def dated (today : String) (e : Entry) : Entry :=
  Change.apply e (.lastValidatedDate (some today))

/-- The ledger with today's date on the entry that a valid result names. -/
def touch (today : String) (l : Ledger) (r : ValidationResult) : Ledger :=
  if r.isValid then { l with entries := Ledger.modifyEntry r.entryId (dated today) l.entries }
  else l

/-- Validates every entry.  With `touching`, valid entries get today's date, and the ledger is
written if that changed any. -/
def validateAll (s : Store) (t : Tree) (today : String) (v : Validator) (touching : Bool) :
    Tree × Store × Validator × Except ValidationStop (List ValidationResult) :=
  match v.validateEntries t s.data.entries with
  | (.error f, v1) => (t, s, v1, .error (.fault f))
  | (.ok results, v1) =>
    let touched := if touching then results.foldl (touch today) s.data else s.data
    -- Dates that are today's already change nothing, and nothing is written.
    if touched = s.data then (t, s, v1, .ok results)
    else
      -- There is no way back here: the dates stay in memory when the write fails.
      match Store.save { s with data := touched } t today with
      | ⟨t', s', .ok ()⟩ => (t', s', v1, .ok results)
      | ⟨t', s', .error e⟩ => (t', s', v1, .error (.ledger e))

end Store

end NullAccess
