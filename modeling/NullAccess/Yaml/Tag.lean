import NullAccess.Text.Digit
import NullAccess.Yaml.Cursor

/-!
# Tags and directives

A tag names the kind of a value.  It is written in full between angle brackets, or as a handle and a
suffix; a directive at the beginning of a document says what a handle stands for, or which version
of the language the document is written in.  A reading that fails has no result.
-/

namespace NullAccess.Yaml

def isNameSign (c : Char) : Bool := c.isAlphanum || c == '-' || c == '_'

def isTagSign (c : Char) : Bool := c.isAlphanum || "-;/?:@&=+$,_.!~*'()[]".toList.contains c

namespace Cursor

/-- Whether the text ends, or a blank or a line end stands here. -/
def atBlank (c : Cursor) : Bool := (c.peek 0).all fun ch => ch == ' ' || isBreak ch

end Cursor

/-- The bytes that are written as two hexadecimal digits behind a percent sign. -/
def tagBytes : Nat → Cursor → List UInt8 → Option (List UInt8 × Cursor)
  | 0, c, held => some (held.reverse, c)
  | n + 1, c, held =>
    match c.rest with
    | '%' :: h :: l :: _ =>
      match Text.hexValue? h, Text.hexValue? l with
      | some x, some y => tagBytes n (c.forward 3) (UInt8.ofNat (16 * x + y) :: held)
      | _, _ => none
    | '%' :: _ => none
    | _ => some (held.reverse, c)

/-- The characters of a tag.  `held` is what was read of it, latest first. -/
def tagChars : Nat → Cursor → List Char → Option (List Char × Cursor)
  | 0, _, _ => none
  | n + 1, c, held =>
    match c.rest with
    | '%' :: _ =>
      match tagBytes c.rest.length c [] with
      | some (bytes, c') =>
        match String.fromUTF8? (ByteArray.mk bytes.toArray) with
        | some s => tagChars n c' (s.toList.reverse ++ held)
        | none => none
      | none => none
    | ch :: _ => if isTagSign ch then tagChars n c.next (ch :: held) else some (held.reverse, c)
    | [] => some (held.reverse, c)

def tagText (c : Cursor) : Option (String × Cursor) :=
  (tagChars (c.rest.length + 1) c []).bind fun (t, c') =>
    if c'.index = c.index then none else some (String.ofList t, c')

/-- The handle of a tag: a mark, or a name between two of them. -/
def tagHandle (c : Cursor) : Option (String × Cursor) :=
  if c.peek 0 ≠ some '!' then none
  else if c.peek 1 = some ' ' then some ("!", c.next)
  else
    let (name, c') := c.next.span isNameSign
    if c'.peek 0 = some '!' then some ("!" ++ String.ofList name ++ "!", c'.next) else none

/-- A tag as it is written. -/
inductive WrittenTag where
  /-- The tag that says nothing. -/
  | open
  | full (text : String)
  | short (handle suffix : String)
  deriving DecidableEq, Repr

/-- The tag at a mark.  A blank has to follow it. -/
def writtenTag (c : Cursor) : Option (WrittenTag × Cursor) :=
  let read : Option (WrittenTag × Cursor) :=
    if c.peek 1 = some '<' then
      (tagText (c.forward 2)).bind fun (text, c') =>
        if c'.peek 0 = some '>' then some (.full text, c'.next) else none
    else if c.gapAt 1 then some (.open, c.next)
    else if ((c.rest.drop 1).takeWhile fun ch => ch != ' ' && !isBreak ch).contains '!' then do
      let (handle, c1) ← tagHandle c
      let (suffix, c2) ← tagText c1
      return (.short handle suffix, c2)
    else (tagText c.next).map fun (suffix, c') => (.short "!" suffix, c')
  read.filter fun (_, c') => c'.atBlank

/-- A directive. -/
inductive Directive where
  /-- The version of the language, of which only the first number counts. -/
  | version (major : Nat)
  /-- What a handle stands for. -/
  | handle (name stands : String)
  | other
  deriving DecidableEq, Repr

/-- Digits, of which there has to be one. -/
def directiveNumber (c : Cursor) : Option (Nat × Cursor) :=
  let (digits, c') := c.span Char.isDigit
  (Text.readDigits? digits).map fun n => (n, c')

def directiveBody (name : String) (c : Cursor) : Option (Directive × Cursor) :=
  let start := c.skip (· == ' ')
  if name = "YAML" then do
    let (major, c1) ← directiveNumber start
    let (_, c2) ← if c1.peek 0 = some '.' then directiveNumber c1.next else none
    if c2.atBlank then some (.version major, c2) else none
  else if name = "TAG" then do
    let (handle, c1) ← tagHandle start
    if c1.peek 0 ≠ some ' ' then none
    else
      let (stands, c2) ← tagText (c1.skip (· == ' '))
      if c2.atBlank then some (.handle handle stands, c2) else none
  else some (.other, c.skip fun ch => !isBreak ch)

def directive (c : Cursor) : Option (Directive × Cursor) := do
  let (name, c1) := c.next.span isNameSign
  if name.isEmpty || !c1.atBlank then none
  else
    let (d, c2) ← directiveBody (String.ofList name) c1
    let c3 := c2.skip (· == ' ')
    let c4 := if c3.peek 0 = some '#' then c3.skip (fun ch => !isBreak ch) else c3
    if c4.atLineEnd then some (d, c4.lineBreak.2) else none

end NullAccess.Yaml
