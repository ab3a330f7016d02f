import NullAccess.Yaml.Tag
import NullAccess.Yaml.Text
import NullAccess.Yaml.Token

/-!
# Cutting a YAML text into tokens

The lexer walks over the text with a stack of indentations.  A scalar may turn out to be a key when
a colon follows it on its line; the place where its tokens begin is therefore remembered, and the
announcement of the key is put there later.  Where the text cannot be cut any further, a token says
so, so that what stands before it is still judged first.
-/

namespace NullAccess.Yaml

/-- A place where a key may have begun. -/
structure KeyStart where
  /-- The number of tokens before it. -/
  tokens : Nat
  /-- Whether nothing but a key may stand there. -/
  required : Bool
  index : Nat
  line : Nat
  column : Nat
  deriving Repr

/-- The state of the lexer. -/
structure Lexer where
  cursor : Cursor
  /-- The number of open brackets and braces. -/
  flow : Nat := 0
  indent : Int := -1
  /-- The indentations around the current one, innermost first. -/
  indents : List Int := []
  /-- Whether a key may begin here. -/
  keyAllowed : Bool := true
  /-- Where a key may have begun, for each level of brackets, innermost first. -/
  keys : List (Option KeyStart) := [none]
  /-- The tokens so far, latest first. -/
  tokens : List Token := []
  /-- What handles stand for, the declared ones first. -/
  handles : List (String × String) := [("!", "!"), ("!!", standardTags)]
  /-- The handles that a directive has declared. -/
  declared : List String := []
  /-- Whether a directive has given the version. -/
  versioned : Bool := false
  deriving Repr

namespace Lexer

def emit (x : Lexer) (t : Token) : Lexer := { x with tokens := t :: x.tokens }

/-- Puts a token behind the first `n` tokens. -/
def insertAt (x : Lexer) (n : Nat) (t : Token) : Lexer :=
  -- Tokens are held latest first, so the place is counted from the other end.
  let later := x.tokens.length - n
  { x with tokens := x.tokens.take later ++ t :: x.tokens.drop later }

def skip (x : Lexer) (n : Nat) : Lexer := { x with cursor := x.cursor.forward n }

def peek (x : Lexer) (k : Nat) : Option Char := x.cursor.peek k

/-- Closes the blocks that are indented deeper than a column. -/
def unwindFrom : Nat → Lexer → Int → Lexer
  | 0, x, _ => x
  | n + 1, x, column =>
    if column < x.indent then
      unwindFrom n
        ({ x with indent := x.indents.head?.getD (-1), indents := x.indents.tail }.emit .blockEnd)
        column
    else x

def unwind (x : Lexer) (column : Int) : Lexer :=
  if x.flow = 0 then unwindFrom (x.indents.length + 1) x column else x

/-- Begins a block at a column, if that is deeper than the current one. -/
def deepen (x : Lexer) (column : Nat) : Option Lexer :=
  if x.indent < column then
    some { x with indents := x.indent :: x.indents, indent := column }
  else none

/-- Forgets keys that can no longer be keys, because they are on another line or too long.  A place
where only a key may stand is then an error. -/
def dropStale (x : Lexer) : Option Lexer := do
  let keys ← x.keys.mapM fun k =>
    match k with
    | none => some none
    | some s =>
      if s.line ≠ x.cursor.line ∨ s.index + 1024 < x.cursor.index then
        if s.required then none else some none
      else some (some s)
  return { x with keys }

/-- Forgets the key of this level. -/
def dropKey (x : Lexer) : Option Lexer :=
  match x.keys with
  | some s :: rest => if s.required then none else some { x with keys := none :: rest }
  | _ => some x

/-- Remembers that a key may begin here. -/
def saveKey (x : Lexer) : Option Lexer :=
  if x.keyAllowed then
    let start : KeyStart :=
      { tokens := x.tokens.length, required := x.flow = 0 && x.indent == x.cursor.column,
        index := x.cursor.index, line := x.cursor.line, column := x.cursor.column }
    x.dropKey.map fun y => { y with keys := some start :: y.keys.tail }
  else some x

def skipGaps : Nat → Lexer → Lexer
  | 0, x => x
  | n + 1, x =>
    let c := x.cursor.skip (· == ' ')
    let c := if c.peek 0 = some '#' then c.skip (fun ch => !isBreak ch) else c
    if c.atBreak then
      skipGaps n { x with cursor := c.lineBreak.2, keyAllowed := x.keyAllowed || x.flow == 0 }
    else { x with cursor := c }

/-- A line that divides documents or gives a directive: all blocks are closed before it. -/
def closeAll (x : Lexer) : Option Lexer :=
  ((x.unwind (-1)).dropKey).map fun y => { y with keyAllowed := false }

def openFlow (x : Lexer) (t : Token) : Option Lexer :=
  x.saveKey.map fun y =>
    ({ y with flow := y.flow + 1, keys := none :: y.keys, keyAllowed := true }.emit t).skip 1

def closeFlow (x : Lexer) (t : Token) : Option Lexer :=
  if x.flow = 0 then none
  else
    x.dropKey.map fun y =>
      ({ y with flow := y.flow - 1, keys := y.keys.tail, keyAllowed := false }.emit t).skip 1

def blockEntry (x : Lexer) : Option Lexer :=
  if x.flow = 0 then
    if !x.keyAllowed then none
    else
      let y := match x.deepen x.cursor.column with
        | some y => y.emit .blockSequenceStart
        | none => x
      y.dropKey.map fun z => ({ z with keyAllowed := true }.emit .blockEntry).skip 1
  else x.dropKey.map fun z => ({ z with keyAllowed := true }.emit .blockEntry).skip 1

def explicitKey (x : Lexer) : Option Lexer :=
  if x.flow = 0 ∧ !x.keyAllowed then none
  else
    let y := match (if x.flow = 0 then x.deepen x.cursor.column else none) with
      | some y => y.emit .blockMappingStart
      | none => x
    y.dropKey.map fun z => ({ z with keyAllowed := z.flow == 0 }.emit .key).skip 1

def value (x : Lexer) : Option Lexer :=
  match x.keys with
  | some s :: rest =>
    -- What was read before turns out to be a key, and perhaps the first of a mapping.
    let y := { x with keys := none :: rest, keyAllowed := false }.insertAt s.tokens .key
    let z := match (if y.flow = 0 then y.deepen s.column else none) with
      | some z => z.insertAt s.tokens .blockMappingStart
      | none => y
    some ((z.emit .value).skip 1)
  | _ =>
    if x.flow = 0 ∧ !x.keyAllowed then none
    else
      let y := match (if x.flow = 0 then x.deepen x.cursor.column else none) with
        | some y => y.emit .blockMappingStart
        | none => x
      y.dropKey.map fun z => ({ z with keyAllowed := z.flow == 0 }.emit .value).skip 1

def plainScalar (x : Lexer) : Option Lexer :=
  x.saveKey.map fun y =>
    let (text, broke, c) :=
      plainFrom (y.flow != 0) (y.indent + 1) (y.cursor.rest.length + 1) y.cursor [] [] false
    { y with cursor := c, keyAllowed := broke }.emit (.scalar text .plain)

def quotedScalar (x : Lexer) (mark : Char) : Except Failure Lexer :=
  match x.saveKey with
  | none => .error .malformed
  | some y =>
    (quotedFrom mark (y.cursor.rest.length + 1) y.cursor.next []).map fun (pieces, c) =>
      let text := pieces.map fun
        | .whole ch => ch
        | .half => '\ufffd'
      let style : Style := if pieces.contains .half then .broken else .quoted
      { y with cursor := c, keyAllowed := false }.emit (.scalar text style)

def blockScalar (x : Lexer) (folded : Bool) : Option Lexer := do
  let y ← x.dropKey
  let (text, c) ← blockText folded y.indent y.cursor.next
  return { y with cursor := c, keyAllowed := true }.emit (.scalar text .quoted)

/-- A character that may stand directly behind the name of an anchor or an alias. -/
def endsName (ch : Char) : Bool :=
  isGap ch || ['?', ':', ',', ']', '}', '%', '@', '\x60'].contains ch

/-- A character that has a meaning of its own at the beginning of a scalar. -/
def isIndicator (ch : Char) : Bool :=
  isFlowMark ch || "-?:#&*!|>'\"%@\x60".toList.contains ch

def named (x : Lexer) (t : String → Token) : Option Lexer := do
  let y ← x.saveKey
  let (name, c) := y.cursor.next.span isNameSign
  if name.isEmpty || !(c.peek 0).all endsName then none
  else return { y with cursor := c, keyAllowed := false }.emit (t (String.ofList name))

/-- The kind that a tag names, if its handle stands for something. -/
def kindOf (x : Lexer) : WrittenTag → Option (Option Kind)
  | .open => some none
  | .full text => some (if text = "!" then none else some (.ofTag text))
  | .short handle suffix =>
    (x.handles.find? (·.1 == handle)).map fun (_, stands) => some (.ofTag (stands ++ suffix))

def tag (x : Lexer) : Option Lexer := do
  let y ← x.saveKey
  let (written, c) ← writtenTag y.cursor
  let kind ← y.kindOf written
  return { y with cursor := c, keyAllowed := false }.emit (.tag kind)

/-- A directive.  The version is given once and begins with 1, and a handle is declared once. -/
def takeDirective (x : Lexer) : Option Lexer := do
  let y ← x.closeAll
  let (d, c) ← Yaml.directive y.cursor
  let z := { y with cursor := c }.emit .directive
  match d with
  | .version major =>
    if y.versioned || major != 1 then none else some { z with versioned := true }
  | .handle name stands =>
    if y.declared.contains name then none
    else some { z with declared := name :: z.declared, handles := (name, stands) :: z.handles }
  | .other => some z

def startsPlain (x : Lexer) (ch : Char) : Bool :=
  !(isGap ch || isIndicator ch) ||
    (!x.cursor.gapAt 1 && (ch == '-' || (x.flow == 0 && (ch == '?' || ch == ':'))))

def stepPlain (x : Lexer) (ch : Char) : Option Lexer :=
  -- A sign that has no meaning of its own in its place falls through to the plain scalars.
  if ch = '%' ∧ x.cursor.column = 0 then x.takeDirective
  else if x.cursor.column = 0 ∧ x.cursor.atDivider then
    x.closeAll.map fun y =>
      (y.emit (if ch = '-' then .documentStart else .documentEnd)).skip 3
  else if ch = '[' then x.openFlow .flowSequenceStart
  else if ch = '{' then x.openFlow .flowMappingStart
  else if ch = ']' then x.closeFlow .flowSequenceEnd
  else if ch = '}' then x.closeFlow .flowMappingEnd
  else if ch = ',' then
    x.dropKey.map fun y => ({ y with keyAllowed := true }.emit .flowEntry).skip 1
  else if ch = '-' ∧ x.cursor.gapAt 1 then x.blockEntry
  else if ch = '?' ∧ (x.flow ≠ 0 ∨ x.cursor.gapAt 1) then x.explicitKey
  else if ch = ':' ∧ (x.flow ≠ 0 ∨ x.cursor.gapAt 1) then x.value
  else if ch = '*' then x.named .alias
  else if ch = '&' then x.named .anchor
  else if ch = '!' then x.tag
  else if ch = '|' ∧ x.flow = 0 then x.blockScalar false
  else if ch = '>' ∧ x.flow = 0 then x.blockScalar true
  else if x.startsPlain ch then x.plainScalar
  else none

def step (x : Lexer) (ch : Char) : Except Failure Lexer :=
  if ch = '\'' ∨ ch = '"' then x.quotedScalar ch
  else (x.stepPlain ch).elim (.error .malformed) .ok

/-- The tokens so far, with the reason why there are no more. -/
def stopped (x : Lexer) (why : Failure) : List Token := (x.emit (.stop why)).tokens.reverse

def run : Nat → Lexer → List Token
  | 0, x => x.stopped .malformed
  | n + 1, x =>
    match (skipGaps (x.cursor.rest.length + 1) x).dropStale with
    | none => x.stopped .malformed
    | some y =>
      let z := y.unwind y.cursor.column
      match z.peek 0 with
      | none =>
        match z.closeAll with
        | none => z.stopped .malformed
        | some w => w.tokens.reverse
      | some ch =>
        match z.step ch with
        | .ok w => run n w
        | .error f => z.stopped f

end Lexer

/-- The tokens of a YAML text.  A mark of the byte order at its beginning is passed over. -/
def tokens (t : List Char) : List Token :=
  if t.all isPrintable then
    let c : Cursor := { rest := t }
    let start := if c.peek 0 = some '\ufeff' then c.next else c
    Lexer.run (2 * t.length + 2) { cursor := start }
  else [.stop .malformed]

end NullAccess.Yaml
