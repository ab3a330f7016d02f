import NullAccess.Json.Fit

/-!
# Safe zones

A guard makes a name safe on some lines: only its own, all that follow it in the enclosing block, or
the inside of the block it governs.
-/

namespace NullAccess

/-- The forms of guard. -/
inductive GuardKind where
  | truthiness
  | compound
  | explicitAbsence
  | earlyReturn
  | earlyReturnBlock
  | defaultCoalesce
  | optionalAccess
  | loop
  deriving DecidableEq, Repr, Inhabited

namespace GuardKind

def text : GuardKind → String
  | truthiness => "truthiness"
  | compound => "compound"
  | explicitAbsence => "explicit-absence"
  | earlyReturn => "early-return"
  | earlyReturnBlock => "early-return-block"
  | defaultCoalesce => "default-coalesce"
  | optionalAccess => "optional-access"
  | loop => "loop"

def all : List GuardKind :=
  [truthiness, compound, explicitAbsence, earlyReturn, earlyReturnBlock, defaultCoalesce,
   optionalAccess, loop]

def ofText? (s : String) : Option GuardKind := all.find? (·.text == s)

end GuardKind

/-- Which lines a zone makes safe. -/
inductive ZoneScope where
  | thisLineOnly
  | afterLine
  | insideBlock
  deriving DecidableEq, Repr, Inhabited

namespace ZoneScope

def text : ZoneScope → String
  | thisLineOnly => "this-line-only"
  | afterLine => "after-line"
  | insideBlock => "inside-block"

def ofText? (s : String) : Option ZoneScope :=
  [thisLineOnly, afterLine, insideBlock].find? (·.text == s)

end ZoneScope

/-- A region in which a name is not absent.  The last line belongs to a zone after a line and does
not belong to one inside a block. -/
structure SafeZone where
  kind : GuardKind
  startLine : Int
  scope : ZoneScope
  startCol : Int := 0
  endLine : Option Int := none
  deriving DecidableEq, Repr, Inhabited

namespace SafeZone

def covers (z : SafeZone) (line col : Int) : Bool :=
  match z.scope with
  | .thisLineOnly => line == z.startLine
  | .afterLine =>
    if z.endLine.any (· < line) then false
    -- On its own line the zone begins behind the guard.
    else if line = z.startLine then z.startCol ≤ col
    else z.startLine < line
  | .insideBlock => z.startLine < line && line < z.endLine.getD z.startLine

def ofFields? (o : List (String × Json)) : Option SafeZone := do
  let kind ← Json.need o "kind" fun v => v.toText?.bind GuardKind.ofText?
  let startLine ← Json.need o "start_line" Json.toInt?
  let scope ← Json.need o "scope" fun v => v.toText?.bind ZoneScope.ofText?
  let startCol ← Json.want o "start_col" Json.toInt? 0
  let endLine ← Json.want o "end_line" (Json.orNull Json.toInt?) none
  return { kind, startLine, scope, startCol, endLine }

def toJson (z : SafeZone) : Json :=
  .obj [("kind", .str z.kind.text), ("start_line", .int z.startLine), ("scope", .str z.scope.text),
    ("start_col", .int z.startCol), ("end_line", Json.ofOption .int z.endLine)]

end SafeZone

end NullAccess
