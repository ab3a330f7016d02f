import NullAccess.Files.Path
import NullAccess.Text.Quoted
import NullAccess.Text.Utf8

/-!
# File trees

The files and directories that the program reads and writes.  A path is followed name by name, so
`..` leads to the directory above the one reached, and a name below a file leads nowhere.
-/

namespace NullAccess

/-- Why a file operation fails. -/
inductive Cause where
  | notFound
  | busy
  | exists_
  | notDirectory
  | isDirectory
  | nameTooLong
  /-- The path holds a NUL character, so that the system is not even asked. -/
  | nulInName
  deriving DecidableEq, Repr, Inhabited

namespace Cause

/-- The system's number for the failure, and 0 where the system is not asked. -/
def number : Cause → Nat
  | notFound => 2
  | busy => 16
  | exists_ => 17
  | notDirectory => 20
  | isDirectory => 21
  | nameTooLong => 36
  | nulInName => 0

def text : Cause → String
  | notFound => "No such file or directory"
  | busy => "Device or resource busy"
  | exists_ => "File exists"
  | notDirectory => "Not a directory"
  | isDirectory => "Is a directory"
  | nameTooLong => "File name too long"
  | nulInName => "embedded null byte"

/-- Whether it is the system that refuses.  Only then can the program go on. -/
def isRefusal (c : Cause) : Bool := c != nulInName

end Cause

/-- A failed file operation. -/
structure FileError where
  cause : Cause
  path : String
  deriving DecidableEq, Repr

namespace FileError

def message (e : FileError) : String :=
  if e.cause.isRefusal then s!"[Errno {e.cause.number}] {e.cause.text}: {Text.showQuoted e.path}"
  else e.cause.text

end FileError

/-- The names that lead from the root of the file system to a place. -/
abbrev Location := List String

/-- What may stand at a location. -/
inductive Node where
  | file (content : ByteArray)
  | dir

def Node.decEq : (m n : Node) → Decidable (m = n)
  | file a, file b =>
    match ByteArray.decEq a b with
    | isTrue h => isTrue (h ▸ rfl)
    | isFalse h => isFalse (by simp [h])
  | dir, dir => isTrue rfl
  | file _, dir => isFalse nofun
  | dir, file _ => isFalse nofun

instance : DecidableEq Node := Node.decEq

/-- The files and directories there are.  The root is always a directory. -/
structure Tree where
  nodes : List (Location × Node) := []

def Path.nul? (p : Path) : Option FileError :=
  if p.parts.any fun n => n.toList.contains '\x00' then some ⟨.nulInName, p.text⟩ else none

namespace Tree

def at? (t : Tree) (l : Location) : Option Node :=
  if l.isEmpty then some .dir else (t.nodes.find? (·.1 == l)).map (·.2)

def erase (t : Tree) (l : Location) : Tree := ⟨t.nodes.filter (·.1 != l)⟩

def insert (t : Tree) (l : Location) (n : Node) : Tree := ⟨(l, n) :: (t.erase l).nodes⟩

def eraseBelow (t : Tree) (l : Location) : Tree := ⟨t.nodes.filter fun (m, _) => !l.isPrefixOf m⟩

theorem at?_insert_self (t : Tree) {l : Location} (n : Node) (h : l ≠ []) :
    (t.insert l n).at? l = some n := by
  simp [at?, insert, h]

theorem at?_erase_self (t : Tree) {l : Location} (h : l ≠ []) : (t.erase l).at? l = none := by
  simp [at?, erase, h]

theorem at?_erase_ne (t : Tree) {l m : Location} (h : l ≠ m) : (t.erase l).at? m = t.at? m := by
  have hfind : ∀ ns : List (Location × Node),
      (ns.filter (·.1 != l)).find? (·.1 == m) = ns.find? (·.1 == m) := by
    intro ns
    induction ns with
    | nil => rfl
    | cons a r ih =>
      by_cases hl : a.1 = l
      · have hm : ¬ a.1 = m := fun hm => h (hl.symm.trans hm)
        rw [List.filter_cons_of_neg (by simpa using hl), ih,
          List.find?_cons_of_neg (by simpa using hm)]
      · rw [List.filter_cons_of_pos (by simpa using hl), List.find?_cons, List.find?_cons, ih]
  simp only [at?, erase, hfind]

theorem at?_insert_ne (t : Tree) {l m : Location} (n : Node) (h : l ≠ m) :
    (t.insert l n).at? m = t.at? m := by
  rw [← at?_erase_ne t h]
  simp [at?, insert, h]

/-- The greatest number of bytes in a name. -/
def maxName : Nat := 255

/-- The number of bytes from which on a path is too long. -/
def maxPath : Nat := 4096

/-- Follows names from a location.  Every location on the way has to be a directory; what stands at
the end does not matter. -/
def follow (t : Tree) (l : Location) : List String → Except Cause Location
  | [] => .ok l
  | p :: rest =>
    match t.at? l with
    | none => .error .notFound
    | some (.file _) => .error .notDirectory
    | some .dir =>
      if maxName < p.utf8ByteSize then .error .nameTooLong
      else follow t (if p = ".." then l.dropLast else l ++ [p]) rest

def locate (t : Tree) (p : Path) : Except Cause Location :=
  if p.nul?.isSome then .error .nulInName
  else if maxPath ≤ p.text.utf8ByteSize then .error .nameTooLong
  else t.follow [] p.parts

def node? (t : Tree) (p : Path) : Option Node :=
  match t.locate p with
  | .ok l => t.at? l
  | .error _ => none

/-- What an absolute path leads to, as far as that can be asked: a path that is too long is an
error, and any other path that leads nowhere leads to nothing. -/
def probe (t : Tree) (p : Path) : Except FileError (Option Node) :=
  match t.locate p with
  | .ok l => .ok (t.at? l)
  | .error .nameTooLong => .error ⟨.nameTooLong, p.text⟩
  | .error _ => .ok none

def has (t : Tree) (p : Path) : Bool := (t.node? p).isSome

def read (t : Tree) (p : Path) : Except FileError ByteArray :=
  match t.locate p with
  | .error c => .error ⟨c, p.text⟩
  | .ok l =>
    match t.at? l with
    | some (.file content) => .ok content
    | some .dir => .error ⟨.isDirectory, p.text⟩
    | none => .error ⟨.notFound, p.text⟩

/-- Writes a file.  Its directory has to be there. -/
def write (t : Tree) (p : Path) (content : ByteArray) : Except FileError Tree :=
  match t.locate p with
  | .error c => .error ⟨c, p.text⟩
  | .ok l =>
    match t.at? l with
    | some .dir => .error ⟨.isDirectory, p.text⟩
    | _ =>
      match t.at? l.dropLast with
      | some .dir => .ok (t.insert l (.file content))
      | some (.file _) => .error ⟨.notDirectory, p.text⟩
      | none => .error ⟨.notFound, p.text⟩

/-- Makes one directory, given the outcome for the directories above it.  One that is there already
is left; a file in its place is an error. -/
def makeDir (t : Tree) (p : Path) : Except FileError Tree :=
  match t.locate p with
  | .error c => .error ⟨c, p.text⟩
  | .ok l =>
    match t.at? l with
    | some .dir => .ok t
    | some (.file _) => .error ⟨.exists_, p.text⟩
    | none =>
      match t.at? l.dropLast with
      | some .dir => .ok (t.insert l .dir)
      | some (.file _) => .error ⟨.notDirectory, p.text⟩
      | none => .error ⟨.notFound, p.text⟩

/-- Makes a directory, and first those above it that are missing.  The names are given last
first. -/
def makeDirsFrom (t : Tree) (anchor : Anchor) : List String → Tree × Except FileError Unit
  | [] => (t, .ok ())
  | name :: above =>
    let p : Path := { anchor, parts := (name :: above).reverse }
    match t.makeDir p with
    | .ok t' => (t', .ok ())
    | .error e =>
      -- Only a missing directory above is made; any other error is final.
      if e.cause = .notFound then
        match makeDirsFrom t anchor above with
        | (t', .error e') => (t', .error e')
        | (t', .ok ()) =>
          match t'.makeDir p with
          | .ok t'' => (t'', .ok ())
          | .error e' => (t', .error e')
      else (t, .error e)

/-- Makes the directory at an absolute path, and first those above it that are missing. -/
def makeDirs (t : Tree) (p : Path) : Tree × Except FileError Unit :=
  t.makeDirsFrom p.anchor p.parts.reverse

/-- Moves a file over another.  Nothing can be moved to a path that ends in `..`. -/
def rename (t : Tree) (source target : Path) : Except FileError Tree :=
  match t.locate source, t.locate target with
  | .ok l, .ok m =>
    if target.name = ".." then .error ⟨.busy, source.text⟩
    else
      match t.at? l, t.at? m with
      | some (.file _), some .dir => .error ⟨.isDirectory, source.text⟩
      -- The old place is cleared first, so that a file moved to its own place stays.
      | some (.file content), _ => .ok ((t.erase l).insert m (.file content))
      | some .dir, _ => .error ⟨.isDirectory, source.text⟩
      | none, _ => .error ⟨.notFound, source.text⟩
  | .error c, _ => .error ⟨c, source.text⟩
  | _, .error c => .error ⟨c, source.text⟩

/-- The files below a location, each by the names that lead to it from there. -/
def filesBelow (t : Tree) (l : Location) : List (List String) :=
  t.nodes.filterMap fun (m, n) =>
    match n with
    | .file _ => if l.isPrefixOf m ∧ l.length < m.length then some (m.drop l.length) else none
    | .dir => none

/-- The lines of a source file.  Bytes that are no UTF-8 are replaced, so only a file that cannot be
read fails. -/
def sourceLines (t : Tree) (p : Path) : Except FileError (List Line) :=
  (t.read p).map fun bytes => Text.sourceLines (Text.decodeLossy bytes).toList

end Tree

end NullAccess
