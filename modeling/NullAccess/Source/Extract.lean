import NullAccess.Text.Lines

/-!
# Pieces of source

The pieces of a file that an approval keeps: the approved line, and the text of a function on which
the approval relies.
-/

namespace NullAccess.Source

/-- The code at line `n` without the blanks around it, if the file has that line. -/
def codeAt? (lines : List Line) (n : Int) : Option String :=
  if n < 1 then none else lines[(n - 1).toNat]?.map fun l => String.ofList (Text.trim l)

/-- The number of lines taken for a function without braces. -/
def bodyWindow : Nat := 10

/-- The number of lines, counted upwards from the declared one, that may hold a function's
header. -/
def headerWindow : Nat := 10

/-- The last part of a function's name, without parentheses. -/
def bareName (function : String) : List Char :=
  let name := Text.dropEndWhile (fun c => c == '(' || c == ')') function.toList
  (Text.splitOn '.' name).getLast?.getD []

def isHeader (bare : List Char) (l : Line) : Bool :=
  Text.holds "function".toList l || (!bare.isEmpty && Text.holds bare l)

/-- The place of the nearest header among the places `k`, `k - 1`, …, at most `n` of them. -/
def headerFrom (lines : List Line) (bare : List Char) : Nat → Nat → Option Nat
  | 0, _ => none
  | n + 1, k =>
    if (lines[k]?).any (isHeader bare) then some k
    else match k with
      | 0 => none
      | k + 1 => headerFrom lines bare n k

def balance (l : Line) : Int :=
  l.foldl (fun d c => if c = '{' then d + 1 else if c = '}' then d - 1 else d) 0

/-- The number of lines up to the first line end where a brace was opened and no more are open than
closed. -/
def closedLength (depth : Int) (opened : Bool) : List Line → Option Nat
  | [] => none
  | l :: rest =>
    let d := depth + balance l
    let o := opened || l.contains '{'
    -- Braces are balanced line by line, so what stands behind the closing one belongs to the text.
    if o && d ≤ 0 then some 1 else (closedLength d o rest).map (· + 1)

def bodyLines (lines : List Line) : List Line :=
  lines.take ((closedLength 0 false lines).getD bodyWindow)

/-- The text of a function declared at line `n`, if the file has that line. -/
def functionBody? (lines : List Line) (n : Int) (function : String) : Option String :=
  if n < 1 ∨ lines.length < n then none
  else
    let declared := (n - 1).toNat
    -- Without a header in reach the text begins at the declared line.
    let start := (headerFrom lines (bareName function) headerWindow declared).getD declared
    some (String.ofList (Text.joinWith ['\n'] (bodyLines (lines.drop start))))

end NullAccess.Source
