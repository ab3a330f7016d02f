import NullAccess.Ledger.Store
import NullAccess.Marker.Read
import NullAccess.Source.Extract

/-!
# Approvals

An approval takes a snapshot of a line and of the functions that it relies on, and enters them in
the ledger.  Approvals are given directly or by markers in the source.
-/

namespace NullAccess.Approval

/-- The path of a file that a ledger names, seen from the project's root. -/
def pathOf (root : Path) (file : String) : Path := root.join (Path.ofText file)

def readLines (t : Tree) (root : Path) (file : String) : Except LedgerError (List Line) :=
  match t.sourceLines (pathOf root file) with
  | .ok lines => .ok lines
  | .error e => .error (.ofRead file e)

/-- The snapshot of one function; its file is the given one unless it names another. -/
def snapshot (t : Tree) (root : Path) (defaultFile : String) (ref : DependencyRef) :
    Except LedgerError Dependency := do
  let file := (ref.file.filter (!·.isEmpty)).getD defaultFile
  let lines ← readLines t root file
  match Source.functionBody? lines ref.line ref.function with
  | none => .error (.dependencyOutside ref.function file ref.line)
  | some body =>
    return { targetFile := file, targetFunction := ref.function, targetLine := ref.line,
             codeSnapshot := body }

def snapshots (t : Tree) (root : Path) (defaultFile : String) :
    List DependencyRef → Except LedgerError (List Dependency)
  | [] => .ok []
  | ref :: rest => do
    let d ← snapshot t root defaultFile ref
    return d :: (← snapshots t root defaultFile rest)

/-- What is to be approved. -/
structure Request where
  file : String
  line : Int
  reason : String
  category : String := nullAccessCategory
  dependencies : List DependencyRef := []
  id : String := ""

def approvedCode (t : Tree) (root : Path) (file : String) (line : Int) :
    Except LedgerError String := do
  let lines ← readLines t root file
  match Source.codeAt? lines line with
  | none => .error (.noLine file line)
  | some code => return code

def entryFor (t : Tree) (root : Path) (today : String) (r : Request) :
    Except LedgerError Entry := do
  let code ← approvedCode t root r.file r.line
  let dependencies ← snapshots t root r.file r.dependencies
  return { id := r.id, category := r.category, file := r.file, line := r.line,
           approvedCodeSnapshot := code, reason := r.reason, approvedDate := today,
           dependencies }

/-- Approves a line.  The result is the entry as the ledger holds it. -/
def approve (s : Store) (t : Tree) (today : String) (root : Path) (r : Request) : Outcome Entry :=
  match entryFor t root today r with
  | .error e => s.refuse t e
  | .ok entry =>
    match s.add t today entry with
    | ⟨t', s', .ok id⟩ => ⟨t', s', .ok ((s'.data.entry? id).getD entry)⟩
    | ⟨t', s', .error e⟩ => ⟨t', s', .error e⟩

/-- The line of an entry as it is now.  An entry whose file or line is no file or line has none. -/
def currentCode (t : Tree) (root : Path) (e : Entry) : Except LedgerError String :=
  if (e.unfit? "file").isSome then .error (.stopped (.fault .notCountable))
  else if (e.unfit? "line").isSome then do
    -- A file that cannot be read is reported before the value in the place of the line.
    let _ ← readLines t root e.file
    .error (.stopped (.fault .notCountable))
  else approvedCode t root e.file e.line

def reapprove (s : Store) (t : Tree) (today : String) (root : Path) (id : String) : Outcome Entry :=
  match s.data.entry? id with
  | none => s.refuse t (.nothingToReapprove id)
  | some e =>
    -- The functions are looked up where they were declared; only their snapshots are new.
    let refs := e.dependencies.map fun d =>
      ({ function := d.targetFunction, line := d.targetLine, file := some d.targetFile } :
        DependencyRef)
    match currentCode t root e with
    | .error err => s.refuse t err
    | .ok code =>
      match snapshots t root e.file refs with
      | .error err => s.refuse t err
      | .ok dependencies =>
        s.update t today id [.approvedCodeSnapshot code, .dependencies dependencies]

/-! ## Markers -/

/-- What a walk over markers did: the ids it added, the locations it skipped because they are
approved already, and what went wrong. -/
structure SyncResult where
  added : List String := []
  skipped : List String := []
  errors : List String := []
  deriving DecidableEq, Repr, Inhabited

namespace SyncResult

def ofFields? (o : List (String × Json)) : Option SyncResult := do
  let added ← Json.want o "added" (Json.toList? Json.toText?) []
  let skipped ← Json.want o "skipped" (Json.toList? Json.toText?) []
  let errors ← Json.want o "errors" (Json.toList? Json.toText?) []
  return { added, skipped, errors }

def toJson (r : SyncResult) : Json :=
  .obj [("added", Json.strs r.added), ("skipped", Json.strs r.skipped),
    ("errors", Json.strs r.errors)]

end SyncResult

/-- Whether an error ends a walk over markers: only a ledger that cannot be written and a stop
do. -/
def endsSync : LedgerError → Bool
  | .writeFailed _ _ => true
  | .stopped _ => true
  | _ => false

/-- The files, the open ledger and what was done so far. -/
structure Progress where
  tree : Tree
  store : Store
  done : SyncResult := {}

namespace Progress

/-- Handles one marked line; an error is returned when it ends the walk. -/
def readMarker (today : String) (root : Path) (file : String) (p : Progress) (line : Int)
    (m : ConsumerMarker) : Progress × Except LedgerError Unit :=
  let location := s!"{file}:{line}"
  let category := m.category.getD nullAccessCategory
  -- The ledger asked is the one of this moment, with the entries that the walk has added.
  if (p.store.data.find? file line (some category)).isSome then
    ({ p with done := { p.done with skipped := p.done.skipped ++ [location] } }, .ok ())
  else
    match m.reason.filter (!·.isEmpty) with
    | none =>
      let error := s!"{location}: marker has no @reason"
      ({ p with done := { p.done with errors := p.done.errors ++ [error] } }, .ok ())
    | some reason =>
      let request : Request :=
        { file, line, reason, category, dependencies := m.dependencies,
          id := m.whitelistId.getD "" }
      match approve p.store p.tree today root request with
      | ⟨t, s, .ok entry⟩ =>
        (⟨t, s, { p.done with added := p.done.added ++ [entry.id] }⟩, .ok ())
      | ⟨t, s, .error e⟩ =>
        if endsSync e then (⟨t, s, p.done⟩, .error e)
        else
          (⟨t, s, { p.done with errors := p.done.errors ++ [s!"{location}: {e.message}"] }⟩,
            .ok ())

def readMarkers (today : String) (root : Path) (file : String) (p : Progress) :
    List (Int × ConsumerMarker) → Progress × Except LedgerError Unit
  | [] => (p, .ok ())
  | (line, m) :: rest =>
    match p.readMarker today root file line m with
    | (p', .ok ()) => readMarkers today root file p' rest
    | (p', .error e) => (p', .error e)

def readFiles (today : String) (root : Path) (p : Progress) :
    List String → Progress × Except LedgerError Unit
  | [] => (p, .ok ())
  | file :: rest =>
    match readLines p.tree root file with
    | .error e =>
      if endsSync e then (p, .error e)
      else
        readFiles today root
          { p with done := { p.done with errors := p.done.errors ++ [e.message] } } rest
    | .ok lines =>
      match Marker.findAll lines with
      | .error f => (p, .error (.stopped (.fault f)))
      | .ok marked =>
        match p.readMarkers today root file marked with
        | (p', .ok ()) => readFiles today root p' rest
        | (p', .error e) => (p', .error e)

end Progress

/-- Approves every marked line that the ledger does not hold yet.  What goes wrong with one marker
is noted and does not stop the walk, unless the ledger cannot be written. -/
def sync (s : Store) (t : Tree) (today : String) (root : Path) (files : List String) :
    Outcome SyncResult :=
  match Progress.readFiles today root { tree := t, store := s } files with
  | (p, .ok ()) => ⟨p.tree, p.store, .ok p.done⟩
  | (p, .error e) => ⟨p.tree, p.store, .error e⟩

end NullAccess.Approval
