/-!
# Places in a YAML text

The text that is still to be read, with the line and column that it starts at.
-/

namespace NullAccess.Yaml

/-- A place in a YAML text. -/
structure Cursor where
  rest : List Char
  line : Nat := 0
  column : Nat := 0
  index : Nat := 0
  deriving Repr, Inhabited

def isBreak (c : Char) : Bool :=
  c == '\n' || c == '\r' || c == '\x85' || c == '\u2028' || c == '\u2029'

/-- A character that ends a line, a blank or a tab. -/
def isGap (c : Char) : Bool := isBreak c || c == ' ' || c == '\t'

def isPrintable (c : Char) : Bool :=
  let n := c.toNat
  n == 0x09 || n == 0x0A || n == 0x0D || (0x20 ≤ n && n ≤ 0x7E) || n == 0x85 ||
    (0xA0 ≤ n && n ≤ 0xD7FF) || (0xE000 ≤ n && n ≤ 0xFFFD) || 0x10000 ≤ n

namespace Cursor

def peek (c : Cursor) (k : Nat) : Option Char := c.rest[k]?

/-- Whether the text ends, or a gap stands, `k` places further on. -/
def gapAt (c : Cursor) (k : Nat) : Bool := (c.peek k).all isGap

def atBreak (c : Cursor) : Bool := (c.peek 0).any isBreak

/-- Whether the text or a line ends here. -/
def atLineEnd (c : Cursor) : Bool := (c.peek 0).all isBreak

def next (c : Cursor) : Cursor :=
  match c.rest with
  | [] => c
  | ch :: r =>
    if isBreak ch then { rest := r, line := c.line + 1, column := 0, index := c.index + 1 }
    else
      { c with
        rest := r, index := c.index + 1,
        column := if ch = '\ufeff' then c.column else c.column + 1 }

def forward (c : Cursor) : Nat → Cursor
  | 0 => c
  | n + 1 => c.next.forward n

def span (c : Cursor) (p : Char → Bool) : List Char × Cursor :=
  let t := c.rest.takeWhile p
  (t, c.forward t.length)

def skip (c : Cursor) (p : Char → Bool) : Cursor := (c.span p).2

def skipBlanks (c : Cursor) (n : Nat) : Cursor :=
  c.forward ((c.rest.take n).takeWhile (· == ' ')).length

/-- Reads a line end, which is a line feed unless it is one of the two separators. -/
def lineBreak (c : Cursor) : List Char × Cursor :=
  match c.rest with
  | ch :: _ =>
    if ch = '\u2028' ∨ ch = '\u2029' then ([ch], c.next)
    else if isBreak ch then (['\n'], c.next)
    else ([], c)
  | [] => ([], c)

/-- Whether a line that begins here divides documents. -/
def atDivider (c : Cursor) : Bool :=
  (c.rest.take 3 == ['-', '-', '-'] || c.rest.take 3 == ['.', '.', '.']) && c.gapAt 3

end Cursor

end NullAccess.Yaml
