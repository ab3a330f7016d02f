import NullAccess.Text.Blank

/-!
# Decimal digits and written integers

A decimal digit of any script has a value from 0 to 9; each script's ten digits are consecutive.
Some further characters, such as superscripts and circled figures, count as digits without being
decimal, so no integer can be written with them.
-/

namespace NullAccess.Text

/-- The zero of every script whose digits are decimal. -/
def zeros : List Nat :=
  [0x30, 0x660, 0x6F0, 0x7C0, 0x966, 0x9E6, 0xA66, 0xAE6, 0xB66, 0xBE6, 0xC66, 0xCE6, 0xD66, 0xDE6,
   0xE50, 0xED0, 0xF20, 0x1040, 0x1090, 0x17E0, 0x1810, 0x1946, 0x19D0, 0x1A80, 0x1A90, 0x1B50,
   0x1BB0, 0x1C40, 0x1C50, 0xA620, 0xA8D0, 0xA900, 0xA9D0, 0xA9F0, 0xAA50, 0xABF0, 0xFF10,
   0x104A0, 0x10D30, 0x11066, 0x110F0, 0x11136, 0x111D0, 0x112F0, 0x11450, 0x114D0, 0x11650,
   0x116C0, 0x11730, 0x118E0, 0x11950, 0x11C50, 0x11D50, 0x11DA0, 0x16A60, 0x16AC0, 0x16B50,
   0x1D7CE, 0x1D7D8, 0x1D7E2, 0x1D7EC, 0x1D7F6, 0x1E140, 0x1E2F0, 0x1E950, 0x1FBF0]

def digitValue? (c : Char) : Option Nat :=
  (zeros.find? fun z => z ≤ c.toNat && c.toNat < z + 10).map (c.toNat - ·)

/-- A decimal digit of some script. -/
def isDecimal (c : Char) : Bool := (digitValue? c).isSome

/-- The ranges of digits that are not decimal. -/
def figureRanges : List (Nat × Nat) :=
  [(0xB2, 0xB3), (0xB9, 0xB9), (0x1369, 0x1371), (0x19DA, 0x19DA), (0x2070, 0x2070),
   (0x2074, 0x2079), (0x2080, 0x2089), (0x2460, 0x2468), (0x2474, 0x247C), (0x2488, 0x2490),
   (0x24EA, 0x24EA), (0x24F5, 0x24FD), (0x24FF, 0x24FF), (0x2776, 0x277E), (0x2780, 0x2788),
   (0x278A, 0x2792), (0x10A40, 0x10A43), (0x10E60, 0x10E68), (0x11052, 0x1105A),
   (0x1F100, 0x1F10A)]

def isFigure (c : Char) : Bool :=
  isDecimal c || figureRanges.any fun (lo, hi) => lo ≤ c.toNat && c.toNat ≤ hi

/-- The number that a run of decimal digits denotes, reading from a value already held. -/
def readDigitsFrom (held : Nat) : List Char → Option Nat
  | [] => some held
  | c :: r => (digitValue? c).bind fun d => readDigitsFrom (10 * held + d) r

/-- The number that a non-empty run of decimal digits denotes. -/
def readDigits? (t : List Char) : Option Nat :=
  if t.isEmpty then none else readDigitsFrom 0 t

def hexValue? (c : Char) : Option Nat :=
  if '0' ≤ c ∧ c ≤ '9' then some (c.toNat - 48)
  else if 'a' ≤ c ∧ c ≤ 'f' then some (c.toNat - 87)
  else if 'A' ≤ c ∧ c ≤ 'F' then some (c.toNat - 55)
  else none

/-- The greatest number of digits of a decimal numeral.  A longer one denotes no number. -/
def maxDigits : Nat := 4300

/-- The number that a run of decimal digits of admissible length denotes. -/
def readNumeral? (t : List Char) : Option Nat :=
  if maxDigits < t.length then none else readDigits? t

/-- Whether a number can be written, that is, has an admissible number of digits. -/
def isWritable (n : Nat) : Bool := n < Nat.pow 10 maxDigits

def splitSign : List Char → Bool × List Char
  | '-' :: r => (true, r)
  | '+' :: r => (false, r)
  | t => (false, t)

def digitIn? (base : Nat) (c : Char) : Option Nat :=
  ((digitValue? c).or (hexValue? c)).filter (· < base)

/-- The text without the zero and the letter that may announce a numeral to a base. -/
def dropBaseMark (base : Nat) (t : List Char) : List Char :=
  match t with
  | '0' :: mark :: r =>
    let announced := match base with
      | 2 => mark == 'b' || mark == 'B'
      | 8 => mark == 'o' || mark == 'O'
      | 16 => mark == 'x' || mark == 'X'
      | _ => false
    if announced then r else t
  | _ => t

/-- The integer that a numeral to a base denotes.  White space around it does not count, and a
decimal one has to be of admissible length. -/
def readSigned? (base : Nat) (t : List Char) : Option Int :=
  let (negative, body) := splitSign (trimSpace t)
  let digits := dropBaseMark base body
  if digits.isEmpty || (base == 10 && maxDigits < digits.length) then none
  else
    (digits.foldlM (fun v c => (digitIn? base c).map (base * v + ·)) 0).map fun n =>
      if negative then -(n : Int) else n

end NullAccess.Text
