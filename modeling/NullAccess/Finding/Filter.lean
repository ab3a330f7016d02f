import NullAccess.Finding.Basic
import NullAccess.Fault
import NullAccess.Scope
import NullAccess.Text.Slice

/-!
# Known-safe idioms

A finding is dropped when its name is a global that is always defined, when its name begins with an
underscore, or when a `try` block encloses it.  Findings are only ever dropped.
-/

namespace NullAccess.Finding

open Pattern

def reservedGlobals : List String :=
  ["console", "window", "document", "process", "module", "exports", "globalThis", "JSON", "Math"]

/-- The number of lines before a finding that are searched for a `try` block. -/
def tryWindow : Nat := 100

/-- The opening of a `try` block at the beginning of a line, possibly behind a closing brace. -/
def tryOpen : Pattern :=
  start ++ blanks ++ opt (chr '}' ++ blanks) ++ lit "try" ++ blanks ++ chr '{'

/-- Whether one of the `k` lines before line `n + 1`, nearest first, opens a `try` block that
reaches beyond `line`.  A block whose end is not known does. -/
def insideTryFrom (lines : List Line) (extents : Extents) (line : Int) :
    Nat → Nat → Except Fault Bool
  | 0, _ => .ok false
  | _, 0 => .ok false
  | k + 1, n + 1 =>
    match lines[n]? with
    | none => .error .noSuchLine
    | some l =>
      if tryOpen.occursIn l && (extents.find? (n + 1 : Nat)).all (line < ·) then .ok true
      else insideTryFrom lines extents line k n

def insideTry (lines : List Line) (extents : Extents) (line : Int) : Except Fault Bool :=
  insideTryFrom lines extents line tryWindow (line - 1).toNat

def isSafeIdiom (lines : List Line) (extents : Extents) (f : Finding) : Except Fault Bool :=
  if reservedGlobals.contains f.bindingName || f.bindingName.toList.head? == some '_' then .ok true
  else insideTry lines extents f.line

def dropSafeIdioms (lines : List Line) (extents : Extents) :
    List Finding → Except Fault (List Finding)
  | [] => .ok []
  | f :: rest => do
    let safe ← isSafeIdiom lines extents f
    let kept ← dropSafeIdioms lines extents rest
    return if safe then kept else f :: kept

end NullAccess.Finding
