import NullAccess.Pattern.Mode

/-!
# Signs and classes of written patterns

A written pattern is a list of signs: characters, and characters behind a backslash.  This module
reads what a backslash introduces, and the classes of characters that stand in brackets.
-/

namespace NullAccess.Pattern

/-- A sign of a written pattern. -/
inductive Sign where
  | plain (c : Char)
  /-- A character behind a backslash. -/
  | escaped (c : Char)
  deriving DecidableEq, Repr

/-- The signs of a text.  A backslash at the end introduces nothing. -/
def signs? : List Char → Option (List Sign)
  | [] => some []
  | '\\' :: c :: r => (signs? r).map (.escaped c :: ·)
  | ['\\'] => none
  | c :: r => (signs? r).map (.plain c :: ·)

/-- The digits at the head of some signs, at most `n` of them, and the rest. -/
def takeDigits (isDigit : Char → Bool) : Nat → List Sign → List Char × List Sign
  | 0, t => ([], t)
  | n + 1, .plain c :: r =>
    if isDigit c then
      let (digits, rest) := takeDigits isDigit n r
      (c :: digits, rest)
    else ([], .plain c :: r)
  | _ + 1, t => ([], t)

def isOctal (c : Char) : Bool := '0' ≤ c && c ≤ '7'

def valueIn (base : Nat) (digits : List Char) : Nat :=
  digits.foldl (fun v c => base * v + (Text.hexValue? c).getD 0) 0

/-- The code that is written in exactly `n` hexadecimal digits. -/
def readCode (n : Nat) (t : List Sign) : Option (Nat × List Sign) :=
  let (digits, rest) := takeDigits (fun c => (Text.hexValue? c).isSome) n t
  let code := valueIn 16 digits
  if digits.length = n ∧ code ≤ 0x10FFFF then some (code, rest) else none

def maxOctal : Nat := 0o377

/-- The code that an octal digit and up to two more denote. -/
def readOctal (first : Char) (t : List Sign) : Option (Nat × List Sign) :=
  let (digits, rest) := takeDigits isOctal 2 t
  let code := valueIn 8 (first :: digits)
  if code ≤ maxOctal then some (code, rest) else none

def namedClass? (m : Mode) : Char → Option (Char → Bool)
  | 'd' => some m.isDecimal
  | 'D' => some (!m.isDecimal ·)
  | 's' => some m.isBlank
  | 'S' => some (!m.isBlank ·)
  | 'w' => some m.isWord
  | 'W' => some (!m.isWord ·)
  | _ => none

def namedControl? : Char → Option Nat
  | 'a' => some 0x07
  | 't' => some 0x09
  | 'n' => some 0x0A
  | 'v' => some 0x0B
  | 'f' => some 0x0C
  | 'r' => some 0x0D
  | _ => none

/-- The code of the character that a backslash and a letter or a sign stand for: a control
character, a character given by its code, or a sign that stands for itself.  Other letters and the
digits stand for no character. -/
def readEscapedCode (c : Char) (rest : List Sign) : Option (Nat × List Sign) :=
  match namedControl? c with
  | some code => some (code, rest)
  | none =>
    match c with
    | 'x' => readCode 2 rest
    | 'u' => readCode 4 rest
    | 'U' => readCode 8 rest
    | _ => if c.isAlphanum then none else some (c.toNat, rest)

/-- An item of a class in brackets. -/
inductive ClassItem where
  | code (n : Nat)
  | range (lo hi : Nat)
  | named (p : Char → Bool)

/-- Whether a character or one of its variants is in one of the items. -/
def Mode.admits (m : Mode) (items : List ClassItem) (c : Char) : Bool :=
  let codes := m.variants c.toNat
  items.any fun
    | .code n => codes.contains n
    | .range lo hi => codes.any fun v => lo ≤ v && v ≤ hi
    | .named p => p c

/-- The item that a sign and what follows it stand for, not yet a range. -/
def readClassItem (m : Mode) : List Sign → Option (ClassItem × List Sign)
  | [] => none
  | .plain c :: r => some (.code c.toNat, r)
  | .escaped c :: r =>
    match namedClass? m c with
    | some p => some (.named p, r)
    | none =>
      if c = 'b' then some (.code 0x08, r)
      else
        ((if isOctal c then readOctal c r else readEscapedCode c r)).map fun (n, rest) =>
          (.code n, rest)

/-- The items of a class up to its closing bracket, which stands for itself where nothing was read
before it.  The bound is the number of signs, because each item takes one. -/
def readClassItems (m : Mode) : Nat → List ClassItem → List Sign →
    Option (List ClassItem × List Sign)
  | 0, _, _ => none
  | n + 1, held, t =>
    match t, held with
    | .plain ']' :: r, _ :: _ => some (held, r)
    | _, _ =>
      match readClassItem m t with
      | none => none
      | some (item, .plain '-' :: .plain ']' :: r) => some (.code '-'.toNat :: item :: held, r)
      | some (item, .plain '-' :: r) =>
        match item, readClassItem m r with
        | .code lo, some (.code hi, rest) =>
          if lo ≤ hi then readClassItems m n (.range lo hi :: held) rest else none
        | _, _ => none
      | some (item, r) => readClassItems m n (item :: held) r

/-- A class in brackets, after its opening bracket. -/
def readClass (m : Mode) (t : List Sign) : Option (Pattern × List Sign) :=
  let (negated, body) := match t with
    | .plain '^' :: r => (true, r)
    | _ => (false, t)
  (readClassItems m (body.length + 1) [] body).map fun (items, rest) =>
    (one fun c => m.admits items c != negated, rest)

end NullAccess.Pattern
