import NullAccess.Finding.Basic
import NullAccess.Json.Printer

/-!
# The ledger

Approved findings, each at an exact file and line, and the framework signatures whose functions are
exempt.  A ledger is written as JSON and read back leniently.
-/

namespace NullAccess

/-- A function whose code justifies an approval, with its text at the time of approval. -/
structure Dependency where
  targetFile : String
  targetFunction : String
  targetLine : Int
  codeSnapshot : String := ""
  deriving DecidableEq, Repr, Inhabited

namespace Dependency

def ofFields? (o : List (String × Json)) : Option Dependency := do
  let targetFile ← Json.need o "target_file" Json.toText?
  let targetFunction ← Json.need o "target_function" Json.toText?
  let targetLine ← Json.need o "target_line" Json.toInt?
  let codeSnapshot ← Json.want o "code_snapshot" Json.toText? ""
  return { targetFile, targetFunction, targetLine, codeSnapshot }

def toJson (d : Dependency) : Json :=
  .obj [("target_file", .str d.targetFile), ("target_function", .str d.targetFunction),
    ("target_line", .int d.targetLine), ("code_snapshot", .str d.codeSnapshot)]

end Dependency

/-- An approved finding. -/
structure Entry where
  id : String
  category : String := nullAccessCategory
  file : String
  line : Int
  approvedCodeSnapshot : String
  reason : String := ""
  approvedDate : String
  dependencies : List Dependency := []
  lastValidatedDate : Option String := none
  /-- The values that an update put into fields which they do not fit.  Such a value takes the place
  of the field's own until the ledger is read again. -/
  unfit : List (String × Json) := []
  deriving DecidableEq, Repr, Inhabited

namespace Entry

def location (e : Entry) : String := s!"{e.file}:{e.line}"

def unfit? (e : Entry) (name : String) : Option Json := Json.field? name e.unfit

/-- Whether the entry's line is a number: that of the line itself, or an equal one that is written
with a point. -/
def isLine (e : Entry) (n : Int) : Bool :=
  match e.unfit? "line" with
  | none => e.line == n
  | some (.real r) => Json.realToInt? r == some n
  | some _ => false

def isAt (e : Entry) (file : String) (line : Int) : Bool :=
  (e.unfit? "file").isNone && e.file == file && e.isLine line

def isOf (e : Entry) (category : String) : Bool :=
  (e.unfit? "category").isNone && e.category == category

def ofFields? (today : String) (o : List (String × Json)) : Option Entry := do
  let id ← Json.need o "id" Json.toText?
  let category ← Json.want o "category" Json.toText? nullAccessCategory
  let file ← Json.need o "file" Json.toText?
  let line ← Json.need o "line" Json.toInt?
  let approvedCodeSnapshot ← Json.need o "approved_code_snapshot" Json.toText?
  let reason ← Json.want o "reason" Json.toText? ""
  let approvedDate ← Json.want o "approved_date" Json.toText? today
  let dependencies ←
    Json.want o "dependencies" (Json.toList? (Json.record Dependency.ofFields?)) []
  let lastValidatedDate ← Json.want o "last_validated_date" (Json.orNull Json.toText?) none
  return { id, category, file, line, approvedCodeSnapshot, reason, approvedDate, dependencies,
           lastValidatedDate }

def toJson (e : Entry) : Json :=
  .obj <| e.unfit.foldl (fun fields (name, v) => Json.setField name v fields)
    [("id", .str e.id), ("category", .str e.category), ("file", .str e.file),
    ("line", .int e.line), ("approved_code_snapshot", .str e.approvedCodeSnapshot),
    ("reason", .str e.reason), ("approved_date", .str e.approvedDate),
    ("dependencies", .arr (e.dependencies.map Dependency.toJson)),
    ("last_validated_date", Json.ofOption .str e.lastValidatedDate)]

/-- The text under which an entry is counted, unless its category cannot be counted. -/
def countedAs? (e : Entry) : Option String :=
  match e.unfit? "category" with
  | none => some e.category
  | some .null => some "None"
  | some (.bool b) => some (if b then "true" else "false")
  | some (.int n) => some (toString n)
  | some (.real r) => some (String.ofList (Json.renderReal r))
  | some _ => none

end Entry

/-- How many functions a framework pattern matched when it was enabled. -/
structure FrameworkStats where
  functionsMatched : Int := 0
  filesAffected : Int := 0
  deriving DecidableEq, Repr, Inhabited

namespace FrameworkStats

def ofFields? (o : List (String × Json)) : Option FrameworkStats := do
  let functionsMatched ← Json.want o "functions_matched" Json.toInt? 0
  let filesAffected ← Json.want o "files_affected" Json.toInt? 0
  return { functionsMatched, filesAffected }

def toJson (s : FrameworkStats) : Json :=
  .obj [("functions_matched", .int s.functionsMatched), ("files_affected", .int s.filesAffected)]

end FrameworkStats

/-- The exemption of all functions whose parameters follow a calling convention.  Each signature is
an exact list of parameter names. -/
structure FrameworkPattern where
  id : String
  enabled : Bool := true
  signatures : List (List String) := []
  description : String := ""
  verifiedDate : String
  verifiedBy : String := "manual"
  stats : FrameworkStats := {}
  deriving DecidableEq, Repr, Inhabited

namespace FrameworkPattern

def ofFields? (today : String) (o : List (String × Json)) : Option FrameworkPattern := do
  let id ← Json.need o "id" Json.toText?
  let enabled ← Json.want o "enabled" Json.toBool? true
  let signatures ← Json.want o "signature_list" (Json.toList? (Json.toList? Json.toText?)) []
  let description ← Json.want o "description" Json.toText? ""
  let verifiedDate ← Json.want o "verified_date" Json.toText? today
  let verifiedBy ← Json.want o "verified_by" Json.toText? "manual"
  let stats ← Json.want o "stats" (Json.record FrameworkStats.ofFields?) {}
  return { id, enabled, signatures, description, verifiedDate, verifiedBy, stats }

def toJson (p : FrameworkPattern) : Json :=
  .obj [("id", .str p.id), ("enabled", .bool p.enabled),
    ("signature_list", .arr (p.signatures.map Json.strs)), ("description", .str p.description),
    ("verified_date", .str p.verifiedDate), ("verified_by", .str p.verifiedBy),
    ("stats", p.stats.toJson)]

end FrameworkPattern

def ledgerVersion : String := "1.0"

/-- The ledger: approvals in the order in which they were given, framework patterns by name, and the
number of approvals per category when the ledger was last written. -/
structure Ledger where
  version : String := ledgerVersion
  lastUpdated : String
  frameworks : List (String × FrameworkPattern) := []
  entries : List Entry := []
  categories : List (String × Int) := []
  deriving DecidableEq, Repr, Inhabited

namespace Ledger

def ofFields? (today : String) (o : List (String × Json)) : Option Ledger := do
  let version ← Json.want o "version" Json.toText? ledgerVersion
  let lastUpdated ← Json.want o "last_updated" Json.toText? today
  let frameworks ←
    Json.want o "frameworks" (Json.toMap? (Json.record (FrameworkPattern.ofFields? today))) []
  let entries ← Json.want o "entries" (Json.toList? (Json.record (Entry.ofFields? today))) []
  let categories ← Json.want o "categories" (Json.toMap? Json.toInt?) []
  return { version, lastUpdated, frameworks, entries, categories }

def toJson (l : Ledger) : Json :=
  .obj [("version", .str l.version), ("last_updated", .str l.lastUpdated),
    ("frameworks", .obj (l.frameworks.map fun (n, p) => (n, p.toJson))),
    ("entries", .arr (l.entries.map Entry.toJson)),
    ("categories", .obj (l.categories.map fun (c, n) => (c, .int n)))]

def empty (today : String) : Ledger := { lastUpdated := today }

/-- The first entry with an id. -/
def entry? (l : Ledger) (id : String) : Option Entry := l.entries.find? (·.id == id)

/-- The first entry at a file and line, of the category if one is given. -/
def find? (l : Ledger) (file : String) (line : Int) (category : Option String) : Option Entry :=
  l.entries.find? fun e =>
    e.isAt file line && category.all e.isOf

def framework? (l : Ledger) (name : String) : Option FrameworkPattern :=
  (l.frameworks.find? (·.1 == name)).map (·.2)

def isEnabled (l : Ledger) (name : String) : Bool := (l.framework? name).any (·.enabled)

def frameworksByName (l : Ledger) : List (String × FrameworkPattern) :=
  l.frameworks.mergeSort fun a b => !decide (b.1 < a.1)

/-- The signatures of the enabled patterns, in the order of the patterns' names. -/
def enabledSignatures (l : Ledger) : List (List String) :=
  (l.frameworksByName.filter (·.2.enabled)).flatMap (·.2.signatures)

/-- The digits of an id of the form `category-number`.  One line feed at its end does not count. -/
def idDigits? (category id : String) : Option (List Char) :=
  let stem := category.toList ++ ['-']
  if stem.isPrefixOf id.toList then
    let rest := id.toList.drop stem.length
    let digits := if rest.getLast? = some '\n' then rest.dropLast else rest
    if digits.isEmpty || !digits.all Text.isDecimal then none else some digits
  else none

def idNumber? (category id : String) : Option Nat :=
  (idDigits? category id).bind Text.readNumeral?

/-- A number in at least three digits. -/
def padded (n : Nat) : String :=
  let digits := Nat.toDigits 10 n
  String.ofList (List.replicate (3 - digits.length) '0' ++ digits)

/-- The highest number among the ids of a category, and 0 if there is none. -/
def highestNumber (l : Ledger) (category : String) : Nat :=
  (l.entries.filterMap fun e => idNumber? category e.id).foldl max 0

/-- Whether the ids of a category can be numbered on: no number there is, nor the next one, has too
many digits. -/
def isNumbered (l : Ledger) (category : String) : Bool :=
  (l.entries.all fun e => (idDigits? category e.id).all fun ds => (Text.readNumeral? ds).isSome) &&
    Text.isWritable (l.highestNumber category + 1)

/-- The next unused id of a category: one more than the highest number there is. -/
def freshId (l : Ledger) (category : String) : String :=
  s!"{category}-{padded (l.highestNumber category + 1)}"

def countUp (category : String) : List (String × Int) → List (String × Int)
  | [] => [(category, 1)]
  | (c, n) :: rest => if c = category then (c, n + 1) :: rest else (c, n) :: countUp category rest

def categoryCounts (l : Ledger) : List (String × Int) :=
  (l.entries.filterMap Entry.countedAs?).foldl (fun counts c => countUp c counts) []

def isCountable (l : Ledger) : Bool := l.entries.all (·.countedAs?.isSome)

/-- The ledger as it is written on a day: with its counts and its date. -/
def stamped (l : Ledger) (today : String) : Ledger :=
  { l with categories := l.categoryCounts, lastUpdated := today }

/-- The patterns with one set under a name, in the place of an earlier one of that name. -/
def setFramework (name : String) (p : FrameworkPattern) :
    List (String × FrameworkPattern) → List (String × FrameworkPattern)
  | [] => [(name, p)]
  | (n, q) :: rest => if n = name then (n, p) :: rest else (n, q) :: setFramework name p rest

/-- The entries with the first one of an id changed. -/
def modifyEntry (id : String) (f : Entry → Entry) : List Entry → List Entry
  | [] => []
  | e :: rest => if e.id = id then f e :: rest else e :: modifyEntry id f rest

/-- The entries without the first one of an id. -/
def removeEntry (id : String) : List Entry → List Entry
  | [] => []
  | e :: rest => if e.id = id then rest else e :: removeEntry id rest

end Ledger

end NullAccess
