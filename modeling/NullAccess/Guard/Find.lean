import NullAccess.Fault
import NullAccess.Guard.Shape
import NullAccess.Scope
import NullAccess.Source.Comment
import NullAccess.Text.Slice

/-!
# Finding safe zones

Every line is checked for the guards of a name.  A guard's condition makes the inside of its block
safe; a guard that leaves makes the rest of the enclosing block safe; a default makes everything
after it safe in the enclosing block; an optional access is safe by itself.
-/

namespace NullAccess.Guard

/-- The number of lines that a condition covers when the end of its block is not known. -/
def blockWindow : Int := 150

/-- The number of lines that are searched for the exit of a guard in block form. -/
def exitLookahead : Int := 5

/-! ## Blocks around a place -/

def advance (depth : Nat) (t : Line) : Nat :=
  t.foldl (fun d c => if c = '{' then d + 1 else if c = '}' then d - 1 else d) depth

def startDepthsFrom (depth : Nat) : List Line → List Nat
  | [] => []
  | l :: rest => depth :: startDepthsFrom (advance depth l) rest

def startDepths (lines : List Line) : List Nat := startDepthsFrom 0 lines

/-- Passes over a text inside a block, `inner` blocks deeper: the number of inner blocks open behind
it, or nothing when the block itself closes there. -/
def pass (inner : Nat) : Line → Option Nat
  | [] => some inner
  | c :: r =>
    if c = '{' then pass (inner + 1) r
    else if c = '}' then
      match inner with
      | 0 => none
      | k + 1 => pass k r
    else pass inner r

/-- The number of the line on which the block around the beginning of the texts closes; the first
text stands on line `n`. -/
def closingLine (inner : Nat) (n : Int) : List Line → Option Int
  | [] => none
  | l :: rest =>
    match pass inner l with
    | none => some n
    | some k => closingLine k (n + 1) rest

/-- The line that closes the innermost block around a column of line `n`, given the depth before the
line and the lines after it.  There is none at top level, or when the block is never closed. -/
def blockEnd (depth : Nat) (line : Line) (rest : List Line) (n col : Int) : Option Int :=
  if advance depth (Text.takeTo line col) = 0 then none
  else closingLine 0 n (Text.dropTo line col :: rest)

/-- The lines after line `n`.  A number below one counts back from the end, and the file follows
once more. -/
def following (lines : List Line) (n : Int) : List Line :=
  if 0 ≤ n then lines.drop n.toNat else Text.dropTo lines n ++ lines

/-- The line that closes the innermost block around a column of line `n` of a file. -/
def enclosingEnd (lines : List Line) (n col : Int) : Except Fault (Option Int) :=
  match Text.at? lines (n - 1), Text.at? (startDepths lines) (n - 1) with
  | some line, some depth => .ok (blockEnd depth line (following lines n) n col)
  | _, _ => .error .noSuchLine

/-- The line that closes the block of the statement on line `n`: the block opened on the line
itself, or one opened at the beginning of the next. -/
def ownBlockEnd (extents : Extents) (n : Int) (rest : List Line) : Option Int :=
  match extents.find? n with
  | some e => some e
  | none =>
    match rest with
    | next :: _ =>
      if (Text.trimLeft next).head? = some '{' then extents.find? (n + 1) else none
    | [] => none

/-- Whether one of the lines after line `n`, up to the end of its block, leaves the function. -/
def hasExit (lines : List Line) (n : Int) (blockEnd : Option Int) : Bool :=
  -- The search ends with the block or the file, if one of them ends sooner.
  let last := min (min (blockEnd.getD (n + exitLookahead)) (n + exitLookahead)) lines.length
  (Text.slice lines n last).any exitStatement.occursIn

/-! ## Zones -/

/-- A line with what its zones depend on. -/
structure Site where
  lines : List Line
  extents : Extents
  /-- The line's number. -/
  number : Int
  /-- The depth before the line. -/
  depth : Nat
  raw : Line
  rest : List Line

namespace Site

def around (s : Site) (col : Nat) : Option Int := blockEnd s.depth s.raw s.rest s.number col

def ownEnd (s : Site) : Option Int := ownBlockEnd s.extents s.number s.rest

/-- The zone of a guard that takes effect behind it on the line. -/
def afterGuard (s : Site) (name code : List Char) (kind : GuardKind) : Option SafeZone :=
  (find? name kind code).map fun m =>
    { kind, startLine := s.number, scope := .afterLine, startCol := m.stopCol,
      endLine := s.around m.startCol }

/-- The zone of a condition that governs a block. -/
def insideGuard (s : Site) (name code : List Char) (kind : GuardKind) : Option SafeZone :=
  (find? name kind code).map fun _ =>
    { kind, startLine := s.number, scope := .insideBlock,
      -- A zone inside a block needs an end: without one it would cover nothing.
      endLine := some (s.ownEnd.getD (s.number + blockWindow)) }

/-- The zone of a guard whose block leaves the function: it begins behind that block. -/
def afterBlockGuard (s : Site) (name code : List Char) : Option SafeZone :=
  match find? name .earlyReturnBlock code with
  | some m =>
    if hasExit s.lines s.number s.ownEnd then
      some { kind := .earlyReturnBlock, startLine := s.ownEnd.getD s.number, scope := .afterLine,
             endLine := s.around m.startCol }
    else none
  | none => none

def optionalGuard (s : Site) (name code : List Char) : Option SafeZone :=
  (find? name .optionalAccess code).map fun _ =>
    { kind := .optionalAccess, startLine := s.number, scope := .thisLineOnly }

def zones (s : Site) (name : List Char) : List SafeZone :=
  if Source.isCommentLine s.raw then []
  else
    let code := Source.code s.raw
    if !Text.holds name code then []
    else
      -- The columns found in the code are those of the line, because the code is a prefix of it.
      (s.afterGuard name code .earlyReturn).toList ++
        [GuardKind.truthiness, .compound, .explicitAbsence, .loop].filterMap
          (s.insideGuard name code) ++
        (s.afterBlockGuard name code).toList ++
        (s.afterGuard name code .defaultCoalesce).toList ++
        (s.optionalGuard name code).toList

end Site

def zonesFrom (lines : List Line) (extents : Extents) (name : List Char) (n : Int) (depth : Nat) :
    List Line → List SafeZone
  | [] => []
  | l :: rest =>
    Site.zones ⟨lines, extents, n, depth, l, rest⟩ name ++
      zonesFrom lines extents name (n + 1) (advance depth l) rest

/-- The safe zones of a name in a file, in line order. -/
def findZones (lines : List Line) (name : String) (extents : Extents) : List SafeZone :=
  zonesFrom lines extents name.toList 1 0 lines

end NullAccess.Guard
