import NullAccess.Json.Printer
import NullAccess.Json.Reader
import NullAccess.Ledger.Basic
import NullAccess.Stop
import NullAccess.Warning

/-!
# The ledger on file

An open ledger is a ledger in memory with the path of its file.  Every change is written at once:
first to a neighbouring file, which is then moved over the ledger, so a write that fails leaves the
old file.  When a write fails, the ledger in memory goes back to what it was before the change.
-/

namespace NullAccess

/-- Why a ledger operation is refused. -/
inductive LedgerError where
  /-- The id is taken. -/
  | duplicateId (id : String)
  /-- The location is approved already, as another entry. -/
  | duplicateLocation (location existing : String)
  /-- There is no entry with the id. -/
  | unknownEntry (id : String)
  /-- There is no framework pattern with the name. -/
  | unknownFramework (name : String)
  /-- The field does not exist or cannot be changed. -/
  | lockedField (name : String)
  /-- The ledger file cannot be written. -/
  | writeFailed (path : Path) (cause : Cause)
  /-- A file to approve cannot be read. -/
  | unreadable (file : String) (cause : Cause)
  /-- The file to approve does not have the line. -/
  | noLine (file : String) (line : Int)
  /-- A function that an approval relies on is declared beyond the end of its file. -/
  | dependencyOutside (function file : String) (line : Int)
  /-- There is no entry to approve again. -/
  | nothingToReapprove (id : String)
  /-- The operation cannot come to its end. -/
  | stopped (s : Stop)
  deriving DecidableEq, Repr

namespace LedgerError

def message : LedgerError → String
  | duplicateId id => s!"Entry id {id} already exists"
  | duplicateLocation location existing => s!"{location} is already approved as {existing}"
  | unknownEntry id => s!"No ledger entry {id}"
  | unknownFramework name => s!"No framework pattern {name}"
  | lockedField name => s!"Cannot update field {Text.showQuoted name}"
  | writeFailed path cause => s!"Could not write ledger {path.text}: {cause.text}"
  | unreadable file cause => s!"Cannot read {file}: {cause.text}"
  | noLine file line => s!"{file} has no line {line}"
  | dependencyOutside function file line =>
    s!"Dependency {function} at {file}:{line} is outside the file"
  | nothingToReapprove id => s!"No ledger entry {id}"
  | stopped _ => ""

def ofWrite (path : Path) (e : FileError) : LedgerError :=
  if e.cause.isRefusal then writeFailed path e.cause else stopped (.file e)

def ofRead (file : String) (e : FileError) : LedgerError :=
  if e.cause.isRefusal then unreadable file e.cause else stopped (.file e)

/-- Whether a failed operation leaves the ledger in memory as it was: an operation that is stopped
does not. -/
def isUndone : LedgerError → Bool
  | stopped _ => false
  | _ => true

end LedgerError

/-- A ledger in memory, with the path of its file. -/
structure Store where
  path : Path
  data : Ledger
  deriving DecidableEq, Repr

/-- The files, the open ledger and the result after an operation. -/
structure Outcome (α : Type) where
  tree : Tree
  store : Store
  result : Except LedgerError α

namespace Store

/-! ## Reading and writing -/

/-- The ledger that a text denotes: none if it denotes no ledger, and a stop if it cannot be read to
its end. -/
def parse (today : String) (t : List Char) : Except Stop (Option Ledger) :=
  match Json.parseFile t with
  | .ok v => .ok (Json.record (Ledger.ofFields? today) v)
  | .error .malformed => .ok none
  | .error .tooDeep => .error .tooDeep
  | .error .longNumeral => .error (.fault .longNumeral)

/-- Reads the ledger at a path.  A ledger that is missing is empty; one that cannot be read as a
ledger is empty too, with a warning; bytes that are no text stop the program. -/
def load (t : Tree) (path : Path) (today : String) : Except Stop (Store × List Warning) :=
  let fresh : Store := { path, data := .empty today }
  match t.probe path with
  | .error e => .error (.file e)
  | .ok none => .ok (fresh, [])
  | .ok (some _) =>
    match t.read path with
    -- Something stands there and is no file.
    | .error _ => .ok (fresh, [.ledgerUnreadable])
    | .ok bytes =>
      match String.fromUTF8? bytes with
      | none => .error .notText
      | some s =>
        match parse today s.toList with
        | .error stop => .error stop
        | .ok (some data) => .ok ({ path, data }, [])
        | .ok none => .ok (fresh, [.ledgerUnreadable])

/-- The neighbouring file that is written first. -/
def draftPath (path : Path) : Path := path.withName (path.name ++ ".tmp")

/-- Writes a text to a path by way of a neighbouring file.  The files are given as they are left,
also when a step fails. -/
def replaceFile (t : Tree) (path : Path) (text : String) : Tree × Except LedgerError Unit :=
  match t.makeDirs path.parent with
  | (t1, .error e) => (t1, .error (.ofWrite path e))
  | (t1, .ok ()) =>
    if path.parts.isEmpty then (t1, .error (.stopped .noName))
    else
      -- The ledger file itself is touched by the last step only.
      match t1.write (draftPath path) text.toUTF8 with
      | .error e => (t1, .error (.ofWrite path e))
      | .ok t2 =>
        match t2.rename (draftPath path) path with
        | .error e => (t2, .error (.ofWrite path e))
        | .ok t3 => (t3, .ok ())

/-- Brings counts and date up to date and writes the ledger.  They stay up to date when the write
fails.  An entry that cannot be counted, or a number that cannot be written, stops the program. -/
def save (s : Store) (t : Tree) (today : String) : Outcome Unit :=
  if !s.data.isCountable then ⟨t, s, .error (.stopped (.fault .notCountable))⟩
  else
    let data := s.data.stamped today
    -- From here on the stamped ledger is the one in memory, whether or not it is written.
    if !data.toJson.isWritable then ⟨t, { s with data }, .error (.stopped (.fault .longNumeral))⟩
    else
      match replaceFile t s.path data.toJson.canonical with
      | (t', r) => ⟨t', { s with data }, r⟩

/-- Writes a changed ledger, or goes back to the old one when the write fails. -/
def commit {α : Type} (s : Store) (t : Tree) (today : String) (data : Ledger) (result : α) :
    Outcome α :=
  match Store.save { s with data } t today with
  | ⟨t', s', .ok ()⟩ => ⟨t', s', .ok result⟩
  -- Only the ledger in memory goes back; the files stay as the failed write left them.
  | ⟨t', s', .error e⟩ => ⟨t', if e.isUndone then s else s', .error e⟩

/-- An operation that is refused before anything is changed. -/
def refuse {α : Type} (s : Store) (t : Tree) (e : LedgerError) : Outcome α := ⟨t, s, .error e⟩

/-! ## Entries -/

def withId (s : Store) (e : Entry) : Entry :=
  if e.id.isEmpty then { e with id := s.data.freshId e.category } else e

/-- Adds an entry.  Neither its id nor its location may be taken. -/
def add (s : Store) (t : Tree) (today : String) (entry : Entry) : Outcome String :=
  -- An entry without an id takes the next number, and that must be one that can be written.
  if entry.id.isEmpty && !s.data.isNumbered entry.category then
    s.refuse t (.stopped (.fault .longNumeral))
  else
    let e := s.withId entry
    if (s.data.entry? e.id).isSome then s.refuse t (.duplicateId e.id)
    else
      -- A line may be approved once in each category.
      match s.data.find? e.file e.line (some e.category) with
      | some other => s.refuse t (.duplicateLocation e.location other.id)
      | none => s.commit t today { s.data with entries := s.data.entries ++ [e] } e.id

/-- A change of one field of an entry. -/
inductive Change where
  | category (v : String)
  | file (v : String)
  | line (v : Int)
  | approvedCodeSnapshot (v : String)
  | reason (v : String)
  | approvedDate (v : String)
  | dependencies (v : List Dependency)
  | lastValidatedDate (v : Option String)
  /-- A value that does not fit its field. -/
  | unfit (name : String) (v : Json)
  /-- A field that there is not, or that cannot be changed. -/
  | locked (name : String)
  deriving DecidableEq, Repr

namespace Change

def fieldName : Change → String
  | category _ => "category"
  | file _ => "file"
  | line _ => "line"
  | approvedCodeSnapshot _ => "approved_code_snapshot"
  | reason _ => "reason"
  | approvedDate _ => "approved_date"
  | dependencies _ => "dependencies"
  | lastValidatedDate _ => "last_validated_date"
  | unfit name _ => name
  | locked name => name

/-- The values that do not fit, without one of the field that is changed. -/
def keptUnfit (e : Entry) (c : Change) : List (String × Json) :=
  e.unfit.filter (·.1 != c.fieldName)

def apply (e : Entry) (c : Change) : Entry :=
  match c with
  | category v => { e with category := v, unfit := c.keptUnfit e }
  | file v => { e with file := v, unfit := c.keptUnfit e }
  | line v => { e with line := v, unfit := c.keptUnfit e }
  | approvedCodeSnapshot v => { e with approvedCodeSnapshot := v, unfit := c.keptUnfit e }
  | reason v => { e with reason := v, unfit := c.keptUnfit e }
  | approvedDate v => { e with approvedDate := v, unfit := c.keptUnfit e }
  | dependencies v => { e with dependencies := v, unfit := c.keptUnfit e }
  | lastValidatedDate v => { e with lastValidatedDate := v, unfit := c.keptUnfit e }
  | unfit name v => { e with unfit := c.keptUnfit e ++ [(name, v)] }
  | locked _ => e

def locked? : Change → Option String
  | locked name => some name
  | _ => none

def ofText (f : String → Change) (name : String) : Json → Change
  | .str s => f s
  | v => unfit name v

/-- The change that sets a field to a value.  Dependencies have to be dependencies; to any other
field a value is given as it is, a truth value counting as the number 0 or 1 where a number
belongs. -/
def ofField? (name : String) (v : Json) : Option Change :=
  match name with
  | "category" => some (ofText category name v)
  | "file" => some (ofText file name v)
  | "line" =>
    match v with
    | .int n => some (line n)
    | .bool b => some (line (if b then 1 else 0))
    | _ => some (unfit name v)
  | "approved_code_snapshot" => some (ofText approvedCodeSnapshot name v)
  | "reason" => some (ofText reason name v)
  | "approved_date" => some (ofText approvedDate name v)
  | "dependencies" =>
    (Json.toList? (Json.record Dependency.ofFields?) v).map dependencies
  | "last_validated_date" =>
    match v with
    | .null => some (lastValidatedDate none)
    | _ => some (ofText (fun s => lastValidatedDate (some s)) name v)
  | other => some (locked other)

end Change

def update (s : Store) (t : Tree) (today : String) (id : String) (changes : List Change) :
    Outcome Entry :=
  match s.data.entry? id with
  | none => s.refuse t (.unknownEntry id)
  | some e =>
    -- One locked field refuses the other changes as well.
    match changes.findSome? Change.locked? with
    | some name => s.refuse t (.lockedField name)
    | none =>
      let changed := changes.foldl Change.apply e
      s.commit t today
        { s.data with entries := Ledger.modifyEntry id (fun _ => changed) s.data.entries } changed

/-- Removes an entry; says whether it was there. -/
def remove (s : Store) (t : Tree) (today : String) (id : String) : Outcome Bool :=
  match s.data.entry? id with
  | none => ⟨t, s, .ok false⟩
  | some _ =>
    s.commit t today { s.data with entries := Ledger.removeEntry id s.data.entries } true

/-! ## Framework patterns -/

/-- Sets the pattern of a framework, in the place of an earlier one. -/
def addFramework (s : Store) (t : Tree) (today : String) (name : String)
    (signatures : List (List String)) (description : String) (stats : FrameworkStats)
    (verifiedBy : String) : Outcome String :=
  let p : FrameworkPattern :=
    { id := s!"framework-{name}-001", signatures, description, verifiedDate := today, verifiedBy,
      stats }
  s.commit t today
    { s.data with frameworks := Ledger.setFramework name p s.data.frameworks } p.id

def setEnabled (s : Store) (t : Tree) (today : String) (name : String) (enabled : Bool) :
    Outcome Unit :=
  match s.data.framework? name with
  | none => s.refuse t (.unknownFramework name)
  | some p =>
    s.commit t today
      { s.data with
        frameworks := Ledger.setFramework name { p with enabled } s.data.frameworks } ()

/-- Removes the pattern of a framework; says whether it was there. -/
def removeFramework (s : Store) (t : Tree) (today : String) (name : String) : Outcome Bool :=
  match s.data.framework? name with
  | none => ⟨t, s, .ok false⟩
  | some _ =>
    s.commit t today
      { s.data with frameworks := s.data.frameworks.filter (·.1 != name) } true

end Store

end NullAccess
