import NullAccess.Text.Digit
import NullAccess.Yaml.Cursor
import NullAccess.Yaml.Failure

/-!
# The texts of scalars

How plain, quoted and block scalars are read: which characters belong to them, and how line ends
inside them are folded.  A reading that fails has no result.  Where a text grows piece by piece it
is held backwards, the latest character first, and turned at the end.
-/

namespace NullAccess.Yaml

/-- Line ends between two lines of folded text: a single line feed becomes a blank, of several the
first is dropped. -/
def fold (first : List Char) (more : List Char) : List Char :=
  if first ≠ ['\n'] then first ++ more
  else if more.isEmpty then [' '] else more

/-! ## Plain scalars -/

def isFlowMark (c : Char) : Bool := [',', '[', ']', '{', '}'].contains c

/-- Whether a plain scalar stops at a character, given the one after it. -/
def stopsPlain (inFlow : Bool) (c : Char) (after : Option Char) : Bool :=
  isGap c ||
    (c == ':' && after.all fun d => isGap d || (inFlow && isFlowMark d)) ||
    (inFlow && (c == '?' || isFlowMark c))

/-- The number of characters of a plain scalar on this line from here on. -/
def plainLength (inFlow : Bool) : List Char → Nat
  | [] => 0
  | c :: r => if stopsPlain inFlow c r.head? then 0 else 1 + plainLength inFlow r

/-- The blank lines and the indentation between two lines of a plain scalar.  There is no next line
when one divides documents. -/
def plainBreaks : Nat → Cursor → List Char → Option (List Char) × Cursor
  | 0, c, held => (some held.reverse, c)
  | n + 1, c, held =>
    match c.peek 0 with
    | some ch =>
      if ch = ' ' then plainBreaks n c.next held
      else if isBreak ch then
        let (b, c') := c.lineBreak
        if c'.atDivider then (none, c') else plainBreaks n c' (b.reverse ++ held)
      else (some held.reverse, c)
    | none => (some held.reverse, c)

/-- What stands between two words of a plain scalar, whether a line ended there, and the place
behind it.  An empty text ends the scalar. -/
def plainGap (c : Cursor) : List Char × Bool × Cursor :=
  let (blanks, c1) := c.span (· == ' ')
  if c1.atBreak then
    let (first, c2) := c1.lineBreak
    if c2.atDivider then ([], true, c2)
    else
      match plainBreaks (c2.rest.length + 1) c2 [] with
      | (some more, c3) => (fold first more, true, c3)
      | (none, c3) => ([], true, c3)
  else (blanks, false, c1)

/-- A plain scalar from here on: its text, whether a line ended behind its last word, and the place
behind it.  `held` is what was read of it, and `gap` what stands before the next word. -/
def plainFrom (inFlow : Bool) (indent : Int) :
    Nat → Cursor → List Char → List Char → Bool → List Char × Bool × Cursor
  | 0, c, held, _, broke => (held.reverse, broke, c)
  | n + 1, c, held, gap, broke =>
    if c.peek 0 = some '#' then (held.reverse, broke, c)
    else
      let length := plainLength inFlow c.rest
      if length = 0 then (held.reverse, broke, c)
      else
        let held' := (gap ++ c.rest.take length).reverse ++ held
        let (gap', broke', c') := plainGap (c.forward length)
        if gap'.isEmpty || c'.peek 0 == some '#' || (!inFlow && (c'.column : Int) < indent) then
          (held'.reverse, broke', c')
        else plainFrom inFlow indent n c' held' gap' broke'

/-! ## Quoted scalars -/

def escapedChar? : Char → Option Char
  | '0' => some '\x00'
  | 'a' => some '\x07'
  | 'b' => some '\x08'
  | 't' => some '\t'
  | '\t' => some '\t'
  | 'n' => some '\n'
  | 'v' => some '\x0b'
  | 'f' => some '\x0c'
  | 'r' => some '\r'
  | 'e' => some '\x1b'
  | ' ' => some ' '
  | '"' => some '"'
  | '\\' => some '\\'
  | '/' => some '/'
  | 'N' => some '\x85'
  | '_' => some '\xa0'
  | 'L' => some '\u2028'
  | 'P' => some '\u2029'
  | _ => none

/-- The number of hexadecimal digits after a letter that introduces a code. -/
def codeLength? : Char → Option Nat
  | 'x' => some 2
  | 'u' => some 4
  | 'U' => some 8
  | _ => none

/-- The code written in exactly `n` hexadecimal digits. -/
def code? (n : Nat) (t : List Char) : Option Nat :=
  let digits := t.take n
  if digits.length = n then
    digits.foldlM (fun v c => (Text.hexValue? c).map (16 * v + ·)) 0
  else none

/-- A piece of a quoted text: a character, or half of one. -/
inductive Piece where
  | whole (c : Char)
  | half
  deriving DecidableEq, Repr

def pieceOf (code : Nat) : Except Failure Piece :=
  if Nat.pow 2 31 ≤ code then .error .codeTooLarge
  else if 0x110000 ≤ code then .error .noValue
  else if 0xD800 ≤ code ∧ code < 0xE000 then .ok .half
  else .ok (.whole (Char.ofNat code))

/-- The blank lines inside a quoted scalar.  A line that divides documents is an error. -/
def quotedBreaks : Nat → Cursor → List Char → Option (List Char × Cursor)
  | 0, _, _ => none
  | n + 1, c, held =>
    if c.atDivider then none
    else
      let c1 := c.skip fun ch => ch == ' ' || ch == '\t'
      if c1.atBreak then
        let (b, c2) := c1.lineBreak
        quotedBreaks n c2 (b.reverse ++ held)
      else some (held.reverse, c1)

/-- What a backslash stands for, with the place behind it: `c` is the place of the backslash and `r`
the text behind it. -/
def escape (c : Cursor) (r : List Char) : Except Failure (List Piece × Cursor) :=
  match r with
  | [] => .error .malformed
  | e :: r' =>
    match escapedChar? e with
    | some k => .ok ([.whole k], c.forward 2)
    | none =>
      match codeLength? e with
      | some size =>
        match code? size r' with
        | some code => (pieceOf code).map fun p => ([p], c.forward (2 + size))
        | none => .error .malformed
      | none =>
        if isBreak e then
          match quotedBreaks (r'.length + 1) c.next.lineBreak.2 [] with
          | some (more, c') => .ok (more.map .whole, c')
          | none => .error .malformed
        else .error .malformed

/-- A quoted scalar, behind its opening mark, up to and with its closing one.  `held` is what was
read of it. -/
def quotedFrom (mark : Char) : Nat → Cursor → List Piece → Except Failure (List Piece × Cursor)
  | 0, _, _ => .error .malformed
  | n + 1, c, held =>
    match c.rest with
    | [] => .error .malformed
    | ch :: r =>
      if ch = mark then
        -- Two single marks in a row stand for one and do not close.
        if mark = '\'' ∧ r.head? = some '\'' then
          quotedFrom mark n (c.forward 2) (.whole '\'' :: held)
        else .ok (held.reverse, c.next)
      else if ch = '\\' ∧ mark = '"' then
        match escape c r with
        | .ok (ps, c') => quotedFrom mark n c' (ps.reverse ++ held)
        | .error f => .error f
      else if isGap ch then
        let (blanks, c1) := c.span fun d => d == ' ' || d == '\t'
        if c1.atBreak then
          let (first, c2) := c1.lineBreak
          match quotedBreaks (c2.rest.length + 1) c2 [] with
          | some (more, c3) => quotedFrom mark n c3 (((fold first more).map .whole).reverse ++ held)
          | none => .error .malformed
        else quotedFrom mark n c1 ((blanks.map .whole).reverse ++ held)
      else quotedFrom mark n c.next (.whole ch :: held)

/-! ## Block scalars -/

/-- What becomes of the line ends behind a block scalar. -/
inductive Chomp where
  | clip
  | strip
  | keep
  deriving DecidableEq, Repr

/-- The signs behind the mark of a block scalar: what becomes of its last line ends, and how much
deeper than the surrounding block it is indented. -/
def blockHeader (c : Cursor) : Option (Chomp × Option Nat × Cursor) :=
  let chomp? (ch : Char) : Option Chomp :=
    if ch = '+' then some .keep else if ch = '-' then some .strip else none
  let depth? (ch : Char) : Option Nat :=
    if '1' ≤ ch ∧ ch ≤ '9' then some (ch.toNat - 48) else none
  let (chomp, step, c1) :=
    match (c.peek 0).bind chomp? with
    | some k =>
      match (c.peek 1).bind depth? with
      | some d => (k, some d, c.forward 2)
      | none => (k, none, c.next)
    | none =>
      match (c.peek 0).bind depth? with
      | some d =>
        match (c.peek 1).bind chomp? with
        | some k => (k, some d, c.forward 2)
        | none => (.clip, some d, c.next)
      | none => (.clip, none, c)
  if (c1.peek 0).all fun ch => isBreak ch || ch == ' ' then
    let c2 := c1.skip (· == ' ')
    let c3 := if c2.peek 0 = some '#' then c2.skip (fun ch => !isBreak ch) else c2
    if c3.atLineEnd then some (chomp, step, c3.lineBreak.2) else none
  else none

/-- The blank lines before a block scalar, and the deepest column among them and the first line. -/
def blockIndent : Nat → Cursor → List Char → Nat → List Char × Nat × Cursor
  | 0, c, held, deepest => (held.reverse, deepest, c)
  | n + 1, c, held, deepest =>
    match c.peek 0 with
    | some ch =>
      if ch = ' ' then
        let c' := c.next
        blockIndent n c' held (max deepest c'.column)
      else if isBreak ch then
        let (b, c') := c.lineBreak
        blockIndent n c' (b.reverse ++ held) deepest
      else (held.reverse, deepest, c)
    | none => (held.reverse, deepest, c)

/-- The blank lines inside a block scalar, and the indentation of the line after them. -/
def blockBreaks (indent : Nat) : Nat → Cursor → List Char → List Char × Cursor
  | 0, c, held => (held.reverse, c)
  | n + 1, c, held =>
    let c1 := c.skipBlanks (indent - c.column)
    if c1.atBreak then
      let (b, c2) := c1.lineBreak
      blockBreaks indent n c2 (b.reverse ++ held)
    else (held.reverse, c1)

/-- The lines of a block scalar: its text without the last line end, that line end, the blank lines
behind it, and the place behind them.  `held` is what was read of the text. -/
def blockLines (folded : Bool) (indent : Nat) :
    Nat → Cursor → List Char → List Char → List Char → List Char × List Char × List Char × Cursor
  | 0, c, held, last, breaks => (held.reverse, last, breaks, c)
  | n + 1, c, held, last, breaks =>
    if c.column = indent ∧ c.rest ≠ [] then
      let flush := !(c.peek 0).any fun ch => ch == ' ' || ch == '\t'
      let (body, c1) := c.span (fun ch => !isBreak ch)
      let (b, c2) := c1.lineBreak
      let (more, c3) := blockBreaks indent (c2.rest.length + 1) c2 []
      let held' := (breaks ++ body).reverse ++ held
      if c3.column = indent ∧ c3.rest ≠ [] then
        let flushNext := !(c3.peek 0).any fun ch => ch == ' ' || ch == '\t'
        -- A line that begins with a blank is not joined to the line on either side.
        let joint :=
          if folded && b == ['\n'] && flush && flushNext then (if more.isEmpty then [' '] else [])
          else b
        blockLines folded indent n c3 (joint.reverse ++ held') [] more
      else (held'.reverse, b, more, c3)
    else (held.reverse, last, breaks, c)

/-- A block scalar, behind its mark.  `around` is the indentation of the surrounding block. -/
def blockText (folded : Bool) (around : Int) (c : Cursor) : Option (List Char × Cursor) :=
  match blockHeader c with
  | none => none
  | some (chomp, step, c1) =>
    let least := (max (around + 1) 1).toNat
    let size := c1.rest.length + 1
    let (breaks, indent, c2) :=
      match step with
      | none =>
        let (held, deepest, c') := blockIndent size c1 [] 0
        (held, max least deepest, c')
      | some d =>
        let indent := least + d - 1
        let (held, c') := blockBreaks indent size c1 []
        (held, indent, c')
    let (text, last, more, c3) := blockLines folded indent size c2 [] [] breaks
    let ending := match chomp with
      | .clip => last
      | .strip => []
      | .keep => last ++ more
    some (text ++ ending, c3)

end NullAccess.Yaml
