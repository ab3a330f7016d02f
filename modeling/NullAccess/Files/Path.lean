import NullAccess.Text.Lines

/-!
# Paths

A path is a list of names, from the root of the file system or from a directory understood.  Empty
names and `.` are dropped when a path is read; `..` is kept, because it depends on what is there.
-/

namespace NullAccess

/-- Where a path begins. -/
inductive Anchor where
  /-- At a directory that is understood. -/
  | here
  /-- At the root of the file system. -/
  | root
  /-- At the root of the file system, written with exactly two slashes.  Both are kept. -/
  | doubleRoot
  deriving DecidableEq, Repr, Inhabited

namespace Anchor

def text : Anchor → String
  | here => ""
  | root => "/"
  | doubleRoot => "//"

def ofSlashes : Nat → Anchor
  | 0 => here
  | 2 => doubleRoot
  | _ => root

end Anchor

/-- A path. -/
structure Path where
  anchor : Anchor := .here
  parts : List String := []
  deriving DecidableEq, Repr, Inhabited

namespace Path

def absolute (p : Path) : Bool := p.anchor != .here

def ofText (s : String) : Path :=
  { anchor := .ofSlashes (s.toList.takeWhile (· == '/')).length,
    parts := (Text.splitOn '/' s.toList).map String.ofList |>.filter fun p => p != "" && p != "." }

def joinParts (parts : List String) : String := "/".intercalate parts

/-- The text of a path; the empty relative path is `.`. -/
def text (p : Path) : String :=
  if p.absolute then p.anchor.text ++ joinParts p.parts
  else if p.parts.isEmpty then "." else joinParts p.parts

/-- The second path seen from the first. -/
def join (p q : Path) : Path :=
  if q.absolute then q else { p with parts := p.parts ++ q.parts }

def name (p : Path) : String := p.parts.getLast?.getD ""

def parent (p : Path) : Path := { p with parts := p.parts.dropLast }

def withName (p : Path) (n : String) : Path := { p with parts := p.parts.dropLast ++ [n] }

/-- The names of a path; the root of the file system counts as one. -/
def components (p : Path) : List String :=
  if p.absolute then p.anchor.text :: p.parts else p.parts

/-- The end of the last name from its last point on.  A point at either end of the name does not
count. -/
def suffix (p : Path) : String :=
  let tail := p.name.toList.reverse.takeWhile (· != '.')
  let stem := p.name.length - (tail.length + 1)
  if tail.isEmpty || p.name.length ≤ tail.length || stem = 0 then ""
  else String.ofList ('.' :: tail.reverse)

/-- The names after every `..` took away the name before it. -/
def collapse (parts : List String) : List String :=
  (parts.foldl (fun held p => if p = ".." then held.tail else p :: held) []).reverse

/-- The path without `..`.  The root is then written with one slash. -/
def settled (p : Path) : Path :=
  { anchor := if p.absolute then .root else .here, parts := collapse p.parts }

/-- A path without `..`, seen from a directory. -/
def resolve (dir p : Path) : Path := (dir.join p).settled

/-- The part of a path below a directory, if it lies there. -/
def below? (dir p : Path) : Option Path :=
  if p.anchor == dir.anchor && dir.parts.isPrefixOf p.parts then
    some { parts := p.parts.drop dir.parts.length }
  else none

def partsLe : List String → List String → Bool
  | [], _ => true
  | _ :: _, [] => false
  | a :: r, b :: s => a < b || (a == b && partsLe r s)

/-- Paths in the order of their names, where the root of the file system counts as a name. -/
def le (p q : Path) : Bool := partsLe p.components q.components

theorem join_of_absolute {p q : Path} (h : q.absolute = true) : p.join q = q := by
  simp [join, h]

theorem join_of_relative {p q : Path} (h : q.absolute = false) :
    p.join q = { p with parts := p.parts ++ q.parts } := by
  simp [join, h]

end Path

end NullAccess
