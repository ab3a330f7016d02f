import NullAccess.Text.Unseen

/-!
# Quoted text

A text in a message stands in quotation marks, and every character in it that would not show is
written as an escape.
-/

namespace NullAccess.Text

def hexDigits : Nat → Nat → List Char
  | 0, _ => []
  | k + 1, n => hexDigits k (n / 16) ++ [Nat.digitChar (n % 16)]

def codeEscape (c : Char) : List Char :=
  if c.toNat < 0x100 then '\\' :: 'x' :: hexDigits 2 c.toNat
  else if c.toNat < 0x10000 then '\\' :: 'u' :: hexDigits 4 c.toNat
  else '\\' :: 'U' :: hexDigits 8 c.toNat

def showChar (mark c : Char) : List Char :=
  if c = mark ∨ c = '\\' then ['\\', c]
  else if c = '\n' then ['\\', 'n']
  else if c = '\r' then ['\\', 'r']
  else if c = '\t' then ['\\', 't']
  else if isUnseen c then codeEscape c
  else [c]

/-- A text in quotation marks: single ones, unless only double ones avoid an escape. -/
def showQuoted (s : String) : String :=
  let t := s.toList
  let mark := if t.contains '\'' && !t.contains '"' then '"' else '\''
  String.ofList (mark :: t.flatMap (showChar mark) ++ [mark])

end NullAccess.Text
