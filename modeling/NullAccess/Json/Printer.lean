import NullAccess.Decimal.Shortest
import NullAccess.Json.Basic

/-!
# Canonical JSON text

One value, one text: fields in the order of their names, two blanks of indentation per level, a
line for every element, a final line feed.  Only what JSON requires is escaped, so other characters
stand for themselves.
-/

namespace NullAccess.Json

def hexDigit (n : Nat) : Char := if n < 10 then Char.ofNat (48 + n) else Char.ofNat (87 + n)

def escape (c : Char) : List Char :=
  if c = '"' then ['\\', '"']
  else if c = '\\' then ['\\', '\\']
  else if c = '\n' then ['\\', 'n']
  else if c = '\r' then ['\\', 'r']
  else if c = '\t' then ['\\', 't']
  else if c = '\x08' then ['\\', 'b']
  else if c = '\x0c' then ['\\', 'f']
  else if c.toNat < 0x20 then
    ['\\', 'u', '0', '0', hexDigit (c.toNat / 16), hexDigit (c.toNat % 16)]
  else [c]

def quote (s : String) : List Char := '"' :: s.toList.flatMap escape ++ ['"']

def renderInt : Int → List Char
  | .ofNat n => Nat.toDigits 10 n
  | .negSucc n => '-' :: Nat.toDigits 10 (n + 1)

/-- A number that is not an integer: the shortest decimal that denotes the same double. -/
def renderReal : RealNumber → List Char
  | .finite d =>
    match d.toBinary? with
    | some b => b.text
    | none => (if d.negative then "-Infinity" else "Infinity").toList
  | .infinite negative => (if negative then "-Infinity" else "Infinity").toList
  | .undefined => "NaN".toList

def newline (n : Nat) : List Char := '\n' :: List.replicate (2 * n) ' '

def sortFields {α : Type} (fields : List (String × α)) : List (String × α) :=
  fields.mergeSort fun a b => !decide (b.1 < a.1)

/-- Texts of elements between brackets: nothing between them when there are none, otherwise each on
a line of level `n + 1` and the closing bracket on one of level `n`. -/
def bracket (n : Nat) (opening closing : Char) : List (List Char) → List Char
  | [] => [opening, closing]
  | first :: rest =>
    opening :: newline (n + 1) ++ first ++
      rest.flatMap (fun t => ',' :: newline (n + 1) ++ t) ++ newline n ++ [closing]

mutual

/-- The text of a value that stands at level `n`. -/
def renderAt (n : Nat) : Json → List Char
  | .null => ['n', 'u', 'l', 'l']
  | .bool true => ['t', 'r', 'u', 'e']
  | .bool false => ['f', 'a', 'l', 's', 'e']
  | .int k => renderInt k
  | .real r => renderReal r
  | .str s => quote s
  | .broken => quote "\ufffd"
  | .arr items => bracket n '[' ']' (renderItems (n + 1) items)
  | .obj fields =>
    bracket n '{' '}' ((sortFields (renderFields (n + 1) fields)).map fun (name, t) =>
      quote name ++ ':' :: ' ' :: t)

def renderItems (n : Nat) : List Json → List (List Char)
  | [] => []
  | v :: rest => renderAt n v :: renderItems n rest

def renderFields (n : Nat) : List (String × Json) → List (String × List Char)
  | [] => []
  | (name, v) :: rest => (name, renderAt n v) :: renderFields n rest

end

def canonical (v : Json) : String := String.ofList (renderAt 0 v ++ ['\n'])

end NullAccess.Json
