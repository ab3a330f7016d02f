import NullAccess.Binding.Basic
import NullAccess.Text.Lines

/-!
# Scopes

A file is walked from top to bottom, and every brace moves the depth by one, wherever it stands: in
code, in a string or in a comment.  Bindings are kept with their depth, and a name is looked up from
the current depth outwards, so an inner declaration hides an outer one.

The depth is the number of braces that are open, so it is read off the list of openings and cannot
disagree with it.
-/

namespace NullAccess

/-- Where blocks end: for an opening line, the line of the last brace that closed a block opened
there.  The latest closing comes first. -/
structure Extents where
  closings : List (Int × Int) := []
  deriving DecidableEq, Repr, Inhabited

namespace Extents

def insert (e : Extents) (opened closed : Int) : Extents := ⟨(opened, closed) :: e.closings⟩

/-- The line that closes the outermost finished block opened on `line`. -/
def find? (e : Extents) (line : Int) : Option Int :=
  (e.closings.find? (·.1 == line)).map (·.2)

/-- The opening lines in increasing order, each with its closing line. -/
def toList (e : Extents) : List (Int × Int) :=
  let lines := (e.closings.map (·.1)).eraseDups.mergeSort fun a b => decide (a ≤ b)
  lines.filterMap fun l => (e.find? l).map fun c => (l, c)

/-- The extents that a list of pairs describes, a later pair overriding an earlier one. -/
def ofList (pairs : List (Int × Int)) : Extents :=
  pairs.foldl (fun e (o, c) => e.insert o c) {}

end Extents

/-- An open brace: its depth, its line, and the beginning of that line. -/
structure Opening where
  depth : Nat
  line : Int
  snippet : String
  deriving DecidableEq, Repr, Inhabited

/-- The state of a walk: the open braces, innermost first; the bindings seen, latest first; the
blocks that were closed; and a warning for every brace that closed nothing. -/
structure Scope where
  openings : List Opening := []
  bindings : List Binding := []
  extents : Extents := {}
  warnings : List String := []
  deriving DecidableEq, Repr, Inhabited

namespace Scope

def depth (s : Scope) : Nat := s.openings.length

/-- The beginning of a line, as it is kept for an opening. -/
def snippet (l : Line) : String := String.ofList ((Text.trim l).take 50)

def unbalanced (line : Int) : String := s!"Line {line}: unbalanced '\x7d', depth clamped at 0"

def step (line : Int) (text : String) (s : Scope) (c : Char) : Scope :=
  if c = '{' then { s with openings := ⟨s.depth + 1, line, text⟩ :: s.openings }
  else if c = '}' then
    match s.openings with
    -- There is nothing to close, and the depth stays 0.
    | [] => { s with warnings := s.warnings ++ [unbalanced line] }
    -- Of the blocks opened on one line the outermost closes last, so its closing is the one found.
    | o :: rest => { s with openings := rest, extents := s.extents.insert o.line line }
  else s

def readLine (s : Scope) (l : Line) (line : Int) : Scope := l.foldl (step line (snippet l)) s

/-- The state with one more binding, which hides an earlier one of its name and depth. -/
def add (s : Scope) (b : Binding) : Scope := { s with bindings := b :: s.bindings }

/-- The binding of a name at exactly one depth. -/
def at? (s : Scope) (name : String) (depth : Int) : Option Binding :=
  s.bindings.find? fun b => b.name == name && b.depth == depth

/-- The nearest binding of a name, from a depth outwards. -/
def lookup (s : Scope) (name : String) : Nat → Option Binding
  | 0 => s.at? name 0
  | d + 1 => (s.at? name (d + 1 : Nat)).or (s.lookup name d)

/-- The bindings by name and depth, each the latest of its kind. -/
def table (s : Scope) : List Binding :=
  -- The fold begins with the oldest binding, and each one puts out those it replaces.
  let latest := s.bindings.foldr
    (fun b held => b :: held.filter fun h => !(h.name == b.name && h.depth == b.depth)) []
  latest.mergeSort fun a b => a.name < b.name || (a.name == b.name && decide (a.depth ≤ b.depth))

theorem depth_step_open (line : Int) (text : String) (s : Scope) :
    (step line text s '{').depth = s.depth + 1 := by
  simp [step, depth]

theorem depth_step_close (line : Int) (text : String) (s : Scope) :
    (step line text s '}').depth = s.depth - 1 := by
  simp only [step, depth]
  cases s.openings <;> simp

def readLines (s : Scope) (line : Int) : List Line → Scope
  | [] => s
  | l :: rest => (s.readLine l line).readLines (line + 1) rest

theorem readLines_append (s : Scope) (line : Int) (p q : List Line) :
    s.readLines line (p ++ q) = (s.readLines line p).readLines (line + p.length) q := by
  induction p generalizing s line with
  | nil => simp [readLines]
  | cons l rest ih =>
    simp only [List.cons_append, readLines, ih, List.length_cons]
    congr 1
    omega

end Scope

def Extents.ofLines (lines : List Line) : Extents := (Scope.readLines {} 1 lines).extents

end NullAccess
