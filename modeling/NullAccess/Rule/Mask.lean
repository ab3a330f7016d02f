import NullAccess.Text.Lines

/-!
# Masking call arguments

The verdict on an expression is decided by its outer call.  What stands inside parentheses is
therefore blotted out, character by character, before the rules see it; the outermost parentheses
stay.  Parentheses inside quotes are not counted.
-/

namespace NullAccess.Mask

/-- Where the scan stands: the depth of open parentheses, the open quotation mark, and whether the
next character is escaped. -/
structure State where
  depth : Nat := 0
  quote : Option Char := none
  escaped : Bool := false
  deriving DecidableEq, Repr

/-- A character as it is seen at a depth: itself outside all parentheses, a blot inside. -/
def shade (depth : Nat) (c : Char) : Char := if depth = 0 then c else '_'

namespace State

def next (s : State) (c : Char) : State :=
  match s.quote with
  | some q =>
    if s.escaped then { s with escaped := false }
    else if c = '\\' then { s with escaped := true }
    else if c = q then { s with quote := none }
    else s
  | none =>
    if c = '\'' ∨ c = '"' ∨ c = '`' then { s with quote := some c }
    else if c = '(' then { s with depth := s.depth + 1 }
    else if c = ')' then { s with depth := s.depth - 1 }
    else s

/-- What is written for a character.  The parenthesis that closes the outermost pair stands outside
it, as the one that opens it does. -/
def shown (s : State) (c : Char) : Char :=
  if s.quote = none ∧ c = ')' then shade (s.depth - 1) c else shade s.depth c

end State

def maskFrom (s : State) : List Char → List Char
  | [] => []
  | c :: r => s.shown c :: maskFrom (s.next c) r

/-- The expression with everything inside call parentheses blotted out. -/
def mask (t : List Char) : List Char := maskFrom {} t

theorem length_maskFrom (s : State) (t : List Char) : (maskFrom s t).length = t.length := by
  induction t generalizing s with
  | nil => rfl
  | cons c r ih => simp [maskFrom, ih]

theorem length_mask (t : List Char) : (mask t).length = t.length := length_maskFrom {} t

end NullAccess.Mask
