import NullAccess.Guard.Shape

/-!
# Accesses

How a line dereferences a name, and how a line that does so may guard the name itself.
-/

namespace NullAccess

/-- The forms of dereference, in the order in which they are looked for. -/
inductive AccessKind where
  | methodCall
  | memberAccess
  | indexAccess
  | conditionalAccess
  deriving DecidableEq, Repr, Inhabited

namespace AccessKind

def text : AccessKind → String
  | methodCall => "method-call"
  | memberAccess => "member-access"
  | indexAccess => "index-access"
  | conditionalAccess => "conditional-access"

def ofText? (s : String) : Option AccessKind :=
  [methodCall, memberAccess, indexAccess, conditionalAccess].find? (·.text == s)

end AccessKind

namespace Access

open Pattern Guard

/-! ## Conditions -/

def conditionStart : Pattern := edge ++ anyOf ["if", "while"] ++ blanks ++ chr '('

/-- The number of characters up to and including the parenthesis that closes `depth` open ones, or
up to the end. -/
def closeLength : Nat → List Char → Nat
  | 0, _ => 0
  | _, [] => 0
  | depth + 1, c :: r =>
    1 + closeLength (if c = '(' then depth + 2 else if c = ')' then depth else depth + 1) r

/-- The columns of every condition: from behind its parenthesis to behind the one that closes it. -/
def conditionSpans (t : List Char) : List (Nat × Nat) :=
  (conditionStart.findAll t).map fun m => (m.stopCol, m.stopCol + closeLength 1 m.last.after)

def within (col : Nat) (spans : List (Nat × Nat)) : Bool :=
  spans.any fun (a, b) => a ≤ col && col < b

/-! ## Dereferences -/

def dotName : Pattern := chr '.' ++ nameChars

def methodCall (name : List Char) : Pattern :=
  reference name ++ some1 dotName ++ blanks ++ chr '('

def member (name : List Char) : Pattern := reference name ++ dotName

def index (name : List Char) : Pattern := reference name ++ chr '['

/-- The access that a text makes to a name, and its column.  A method call comes first, then a
member outside all conditions, then an index, then a member inside a condition. -/
def first? (name t : List Char) : Option (AccessKind × Nat) :=
  match (methodCall name).find? t with
  | some m => some (.methodCall, m.startCol)
  | none =>
    -- A member inside a condition counts only where the text has no other access.
    let spans := conditionSpans t
    let members := ((member name).findAll t).map Match.startCol
    match members.find? fun c => !within c spans with
    | some c => some (.memberAccess, c)
    | none =>
      match (index name).find? t with
      | some m => some (.indexAccess, m.startCol)
      | none => members.head?.map fun c => (.conditionalAccess, c)

/-! ## Guards on the line itself -/

/-- `name?.`. -/
def optional (name : List Char) : Pattern := reference name ++ lit "?."

/-- A path from the name, then an operator that supplies a value, then something. -/
def fallback (name : List Char) : Pattern :=
  reference name ++ many (opt (chr '?') ++ dotName) ++ blanks ++ anyOf ["||", "??"] ++ blanks ++
    one fun c => !Text.isBlank c

/-- A conditional expression on the name that dereferences it in its first branch. -/
def ternary (name : List Char) : Pattern :=
  -- A question mark before a point is that of an optional access.
  reference name ++ blanks ++ chr '?' ++ ahead false (chr '.') ++ many (noneOf ":") ++
    reference name ++ oneOf ".["

/-- A test of the name that decides whether the rest of an expression is evaluated. -/
def conjunction (name : List Char) : Pattern :=
  (operand name ++ blanks ++ lit "&&") <|>
    (chr '!' ++ blanks ++ operand name ++ blanks ++ lit "||") <|>
    (reference name ++ blanks ++ lit "==" ++ blanks ++ lit "null" ++ blanks ++ lit "||")

/-- An `if` whose condition is the name, possibly with more. -/
def ifGuard (name : List Char) : Pattern :=
  ifOpen ++ blanks ++ operand name ++ blanks ++ opt (lit "&&" ++ inParens) ++ chr ')'

def ifGuardPrecedes (name t : List Char) : Bool :=
  match (ifGuard name).find? t with
  | none => false
  | some m =>
    ((member name).findFrom m.last).isSome || ((index name).findFrom m.last).isSome

def isGuarded (name t : List Char) : Bool :=
  (optional name).occursIn t || (fallback name).occursIn t || (ternary name).occursIn t ||
    (conjunction name).occursIn t || ifGuardPrecedes name t

end Access

end NullAccess
