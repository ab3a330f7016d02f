import NullAccess.Json.Basic
import NullAccess.Text.Digit

/-!
# Reading JSON

The standard grammar, with the three further number words `NaN`, `Infinity` and `-Infinity`.  A
later field of an object replaces an earlier one of the same name.  Each reader takes a bound on
the number of steps and returns what it left unread; the length of the text is bound enough, and for
a string the text itself serves as the bound.

A reading may be confined, as that of a file is: then only so many brackets may be open at once, and
no integer may have too many digits.  The text is read from left to right, and the first flaw that
is met ends the reading.

A numeric escape may name half a character.  Two halves in a row make a character; a half on its own
makes the string no text.
-/

namespace NullAccess.Json

/-- Why a text is not read to its end. -/
inductive Flaw where
  /-- It breaks a rule of the grammar. -/
  | malformed
  /-- Too many brackets are open at once. -/
  | tooDeep
  /-- An integer has too many digits. -/
  | longNumeral
  deriving DecidableEq, Repr

def isSpace (c : Char) : Bool := c == ' ' || c == '\t' || c == '\n' || c == '\r'

def skip (t : List Char) : List Char := t.dropWhile isSpace

def readHex4 : List Char → Option (Nat × List Char)
  | a :: b :: c :: d :: r => do
    let w ← Text.hexValue? a
    let x ← Text.hexValue? b
    let y ← Text.hexValue? c
    let z ← Text.hexValue? d
    some (4096 * w + 256 * x + 16 * y + z, r)
  | _ => none

def unescape? : Char → Option Char
  | '"' => some '"'
  | '\\' => some '\\'
  | '/' => some '/'
  | 'n' => some '\n'
  | 'r' => some '\r'
  | 't' => some '\t'
  | 'b' => some '\x08'
  | 'f' => some '\x0c'
  | _ => none

/-- The character of a numeric escape, after `\u`; none for half a character.  Two escapes that are
halves of one character make that character. -/
def readUnicode (t : List Char) : Option (Option Char × List Char) :=
  match readHex4 t with
  | none => none
  | some (high, r) =>
    if 0xD800 ≤ high ∧ high < 0xDC00 then
      match r with
      | '\\' :: 'u' :: r' =>
        match readHex4 r' with
        | some (low, r'') =>
          if 0xDC00 ≤ low ∧ low < 0xE000 then
            some (some (Char.ofNat (0x10000 + 1024 * (high - 0xD800) + (low - 0xDC00))), r'')
          else some (none, r)
        | none => none
      | _ => some (none, r)
    else if 0xDC00 ≤ high ∧ high < 0xE000 then some (none, r)
    else some (some (Char.ofNat high), r)

/-- The characters of a string up to its closing quote, with none for half a character.  There are
at most as many steps as characters in `bound`. -/
def readChars : (bound : List Char) → List Char → Option (List (Option Char) × List Char)
  | [], _ => none
  | _ :: n, t =>
    match t with
    | [] => none
    | '"' :: r => some ([], r)
    | '\\' :: 'u' :: r =>
      (readUnicode r).bind fun (c, r') => (readChars n r').map fun (cs, rest) => (c :: cs, rest)
    | '\\' :: e :: r =>
      (unescape? e).bind fun c => (readChars n r).map fun (cs, rest) => (some c :: cs, rest)
    | c :: r =>
      -- A backslash that comes here is the last character of the text.
      if c.toNat < 0x20 ∨ c = '\\' then none
      else (readChars n r).map fun (cs, rest) => (some c :: cs, rest)

/-- Whether all characters of a string are whole. -/
def isText (cs : List (Option Char)) : Bool := cs.all Option.isSome

/-- The string of characters, with a replacement for each half. -/
def textOf (cs : List (Option Char)) : String := String.ofList (cs.map (·.getD '\ufffd'))

def ofChars (cs : List (Option Char)) : Json := if isText cs then str (textOf cs) else broken

/-- The digits of an integer part: no zero before another digit. -/
def readWhole (t : List Char) : Option (List Char × List Char) :=
  match t with
  | '0' :: r => some (['0'], r)
  | c :: _ =>
    if c.isDigit then some (t.takeWhile Char.isDigit, t.dropWhile Char.isDigit) else none
  | [] => none

/-- The digits after a point, if a point with a digit stands here. -/
def readFraction (t : List Char) : List Char × List Char :=
  match t with
  | '.' :: r =>
    let ds := r.takeWhile Char.isDigit
    if ds.isEmpty then ([], t) else (ds, r.dropWhile Char.isDigit)
  | _ => ([], t)

def readExponent (t : List Char) : Option Int × List Char :=
  match t with
  | e :: r =>
    if e = 'e' ∨ e = 'E' then
      let (negative, ds) := Text.splitSign r
      let size := ds.takeWhile Char.isDigit
      match Text.readDigits? size with
      | none => (none, t)
      | some n => (some (if negative then -(n : Int) else n), ds.dropWhile Char.isDigit)
    else (none, t)
  | [] => (none, t)

def digitsValue (ds : List Char) : Nat := ds.foldl (fun v c => 10 * v + (c.toNat - 48)) 0

/-- The integer that digits denote.  In a confined reading they may not be too many. -/
def readInteger (confined negative : Bool) (whole : List Char) : Except Flaw Json :=
  if confined && !Text.isWritable (digitsValue whole) then .error .longNumeral
  else
    let n : Int := digitsValue whole
    .ok (int (if negative then -n else n))

def splitMinus : List Char → Bool × List Char
  | '-' :: r => (true, r)
  | t => (false, t)

/-- A number.  It is an integer when it has neither point nor exponent. -/
def readNumber (confined : Bool) (t : List Char) : Except Flaw (Json × List Char) :=
  let (negative, r) := splitMinus t
  match readWhole r with
  | none => .error .malformed
  | some (whole, afterWhole) =>
    let (fraction, afterFraction) := readFraction afterWhole
    let (exponent, rest) := readExponent afterFraction
    if fraction.isEmpty ∧ exponent.isNone then
      (readInteger confined negative whole).map fun v => (v, rest)
    else
      .ok (real (.finite ⟨negative, digitsValue (whole ++ fraction),
        exponent.getD 0 - fraction.length⟩), rest)

def after? (word : String) (t : List Char) : Option (List Char) :=
  if word.toList.isPrefixOf t then some (t.drop word.length) else none

def readWord (t : List Char) : Option (Json × List Char) :=
  let words : List (String × Json) :=
    [("null", null), ("true", bool true), ("false", bool false), ("NaN", real .undefined),
     ("Infinity", real (.infinite false)), ("-Infinity", real (.infinite true))]
  words.findSome? fun (w, v) => (after? w t).map fun r => (v, r)

mutual

/-- A value, after white space was skipped.  `room` is the number of brackets that may still be
opened, and none if the reading is not confined. -/
def readValue : Nat → (room : Option Nat) → List Char → Except Flaw (Json × List Char)
  | 0, _, _ => .error .malformed
  | n + 1, room, t =>
    match t with
    | '"' :: r =>
      match readChars r r with
      | some (cs, rest) => .ok (ofChars cs, rest)
      | none => .error .malformed
    | '[' :: r =>
      -- The bracket itself is one too many, whatever stands behind it.
      if room = some 0 then .error .tooDeep
      else
        match skip r with
        | ']' :: rest => .ok (arr [], rest)
        | first =>
          (readItems n (room.map (· - 1)) first).map fun (items, rest) => (arr items, rest)
    | '{' :: r =>
      if room = some 0 then .error .tooDeep
      else
        match skip r with
        | '}' :: rest => .ok (obj [], rest)
        | first =>
          (readFields n (room.map (· - 1)) [] first).map fun (fields, rest) => (obj fields, rest)
    | _ =>
      match readWord t with
      | some found => .ok found
      | none => readNumber room.isSome t

/-- The elements of an array, from the first one to the closing bracket. -/
def readItems : Nat → (room : Option Nat) → List Char → Except Flaw (List Json × List Char)
  | 0, _, _ => .error .malformed
  | n + 1, room, t =>
    match readValue n room t with
    | .error flaw => .error flaw
    | .ok (v, r) =>
      match skip r with
      | ']' :: rest => .ok ([v], rest)
      | ',' :: r' => (readItems n room (skip r')).map fun (vs, rest) => (v :: vs, rest)
      | _ => .error .malformed

/-- The fields of an object, from the first one to the closing brace, added to those already
read. -/
def readFields : Nat → (room : Option Nat) → List (String × Json) → List Char →
    Except Flaw (List (String × Json) × List Char)
  | 0, _, _, _ => .error .malformed
  | n + 1, room, held, t =>
    match t with
    | '"' :: r =>
      match readChars r r with
      | none => .error .malformed
      | some (name, r1) =>
        match skip r1 with
        | ':' :: r2 =>
          match readValue n room (skip r2) with
          | .error flaw => .error flaw
          | .ok (v, r3) =>
            -- A name that is no text spoils the value of its field.
            let fields := setField (textOf name) (if isText name then v else broken) held
            match skip r3 with
            | '}' :: rest => .ok (fields, rest)
            | ',' :: r4 => readFields n room fields (skip r4)
            | _ => .error .malformed
        | _ => .error .malformed
    | _ => .error .malformed

end

/-- The value that a text denotes, if the whole text is one value with white space around it. -/
def read (room : Option Nat) (t : List Char) : Except Flaw Json :=
  match readValue (t.length + 1) room (skip t) with
  | .error flaw => .error flaw
  | .ok (v, rest) => if (skip rest).isEmpty then .ok v else .error .malformed

/-- The value that a text denotes, whatever its size. -/
def parse? (t : List Char) : Option Json := (read none t).toOption

/-- The greatest number of brackets that may be open at once in a file. -/
def maxNesting : Nat := 985

def parseFile (t : List Char) : Except Flaw Json := read (some maxNesting) t

/-! ## Numbers that can be written -/

mutual

/-- Whether every integer in a value has an admissible number of digits. -/
def isWritable : Json → Bool
  | int n => Text.isWritable n.natAbs
  | arr items => areWritable items
  | obj fields => areWritableFields fields
  | _ => true

def areWritable : List Json → Bool
  | [] => true
  | v :: rest => v.isWritable && areWritable rest

def areWritableFields : List (String × Json) → Bool
  | [] => true
  | (_, v) :: rest => v.isWritable && areWritableFields rest

end

end NullAccess.Json
