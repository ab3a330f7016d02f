import NullAccess.Pattern.Search
import NullAccess.Text.Base64
import NullAccess.Text.Lines
import NullAccess.Yaml.Failure
import NullAccess.Yaml.Kind
import NullAccess.Yaml.Node

/-!
# Scalars

A scalar without quotation marks and without a tag is taken for null, a truth value, a number or a
date when it is written like one, and for a text otherwise.  What a scalar of a kind denotes is
another question: `2025-02-30` is written like a date and denotes none.
-/

namespace NullAccess.Yaml

open Pattern

/-! ## The kind of a plain scalar -/

def wholly (a : Pattern) (t : List Char) : Bool := ((a ++ stop).matchStart? t).isSome

def sign? : Pattern := opt (oneOf "+-")

def digitRun : Pattern := many (one fun c => c.isDigit || c == '_')

/-- Sixtieths, as in `1:30`. -/
def sixtieths : Pattern :=
  some1 (chr ':' ++ opt (one fun c => '0' ≤ c && c ≤ '5') ++ one Char.isDigit)

def leadingDigit : Pattern := one fun c => '1' ≤ c && c ≤ '9'

/-- An integer, to the base two, eight, ten or sixteen, or with sixtieths. -/
def intForm : Pattern :=
  sign? ++
    ((lit "0b" ++ some1 (oneOf "01_")) <|> (chr '0' ++ some1 (oneOf "01234567_")) <|>
      (chr '0' <|> (leadingDigit ++ digitRun)) <|>
      (lit "0x" ++ some1 (one fun c => (Text.hexValue? c).isSome || c == '_')) <|>
      (leadingDigit ++ digitRun ++ sixtieths))

def exponent? : Pattern := opt (oneOf "eE" ++ oneOf "+-" ++ some1 (one Char.isDigit))

def realForm : Pattern :=
  (sign? ++ one Char.isDigit ++ digitRun ++ chr '.' ++ digitRun ++ exponent?) <|>
    (chr '.' ++ one Char.isDigit ++ digitRun ++ exponent?) <|>
    (sign? ++ one Char.isDigit ++ digitRun ++ sixtieths ++ chr '.' ++ digitRun) <|>
    (sign? ++ anyOf [".inf", ".Inf", ".INF"]) <|> anyOf [".nan", ".NaN", ".NAN"]

def twoDigits : Pattern := one Char.isDigit ++ one Char.isDigit

def shortNumber : Pattern := one Char.isDigit ++ opt (one Char.isDigit)

/-- The time of day behind a date, kept under the numbers 4 to 9: hour, minute, second, and the
sign, hour and minute of the offset. -/
def timeForm : Pattern :=
  (oneOf "Tt" <|> some1 (oneOf " \t")) ++ group 4 shortNumber ++ chr ':' ++ group 5 twoDigits ++
    chr ':' ++ group 6 twoDigits ++ opt (chr '.' ++ many (one Char.isDigit)) ++
    opt (many (oneOf " \t") ++
      (chr 'Z' <|>
        (group 7 (oneOf "+-") ++ group 8 shortNumber ++ opt (chr ':' ++ group 9 twoDigits))))

/-- A date, possibly with a time of day; year, month and day are kept under the numbers 1 to 3. -/
def dateForm : Pattern :=
  group 1 (twoDigits ++ twoDigits) ++ chr '-' ++ group 2 shortNumber ++ chr '-' ++
    group 3 shortNumber ++ opt timeForm

/-- A date alone, which needs all its digits. -/
def bareDate : Pattern := twoDigits ++ twoDigits ++ chr '-' ++ twoDigits ++ chr '-' ++ twoDigits

def datedTime : Pattern :=
  twoDigits ++ twoDigits ++ chr '-' ++ shortNumber ++ chr '-' ++ shortNumber ++ timeForm

def truths : List String × List String :=
  (["yes", "Yes", "YES", "true", "True", "TRUE", "on", "On", "ON"],
    ["no", "No", "NO", "false", "False", "FALSE", "off", "Off", "OFF"])

def plainKind (t : List Char) : Kind :=
  if t.isEmpty || wholly (anyOf ["~", "null", "Null", "NULL"]) t then .null
  else if wholly (anyOf (truths.1 ++ truths.2)) t then .bool
  else if wholly realForm t then .real
  else if wholly intForm t then .int
  else if wholly (lit "<<") t then .merge
  else if wholly (bareDate <|> datedTime) t then .date
  else if wholly (chr '=') t then .default
  else .text

/-! ## What scalars denote -/

def truthOf (t : List Char) : Except Failure Bool :=
  let w := (String.ofList t).toLower
  if truths.1.contains w then .ok true
  else if truths.2.contains w then .ok false
  else .error .noTruth

/-- The text of a number without underscores: whether it is negative, and what stands behind its
sign.  A number has at least one character. -/
def splitNumber (t : List Char) : Except Failure (Bool × List Char) :=
  match t.filter (· != '_') with
  | [] => .error .noDigits
  | '-' :: r => .ok (true, r)
  | '+' :: r => .ok (false, r)
  | bare => .ok (false, bare)

/-- The integer that digits denote, with the marks of their base.  Sixty of each place behind a
colon make one of the place before it. -/
def countOf (digits : List Char) : Except Failure Int :=
  let read (n? : Option Int) : Except Failure Int := n?.elim (.error .noValue) .ok
  match digits with
  | [] => .error .noDigits
  | ['0'] => .ok 0
  | '0' :: 'b' :: r => read (Text.readSigned? 2 r)
  | '0' :: 'x' :: r => read (Text.readSigned? 16 r)
  | '0' :: _ => read (Text.readSigned? 8 digits)
  | _ =>
    read (((Text.splitOn ':' digits).mapM (Text.readSigned? 10)).map fun places =>
      places.foldl (fun v n => 60 * v + n) 0)

def intOf (t : List Char) : Except Failure Int :=
  (splitNumber t).bind fun (negative, digits) =>
    (countOf digits).map fun n => if negative then -n else n

/-- The exponent of a decimal: nothing, or a letter, a sign and digits. -/
def exponentOf? : List Char → Option Int
  | [] => some 0
  | 'e' :: r =>
    let (negative, digits) := Text.splitSign r
    (Text.readDigits? digits).map fun n => if negative then -(n : Int) else n
  | _ => none

/-- The number that a decimal in lower case denotes.  White space around it does not count. -/
def decimalOf? (t : List Char) : Option RealNumber :=
  let (negative, body) := Text.splitSign (Text.trimSpace t)
  let word := String.ofList body
  if word = "inf" ∨ word = "infinity" then some (.infinite negative)
  else if word = "nan" then some .undefined
  else
    let whole := body.takeWhile Text.isDecimal
    let (fraction, rest) := match body.dropWhile Text.isDecimal with
      | '.' :: r => (r.takeWhile Text.isDecimal, r.dropWhile Text.isDecimal)
      | r => ([], r)
    (Text.readDigits? (whole ++ fraction)).bind fun digits =>
      (exponentOf? rest).map fun e => .finite ⟨negative, digits, e - fraction.length⟩

/-- The decimal `60 · v + p`. -/
def sixtyfold (v p : Decimal) : Decimal :=
  let least := min v.exponent p.exponent
  let size (d : Decimal) : Int :=
    let n : Int := d.digits * Nat.pow 10 (d.exponent - least).toNat
    if d.negative then -n else n
  let sum := 60 * size v + size p
  ⟨sum < 0, sum.natAbs, least⟩

/-- The number of some places of which each counts sixty of the next. -/
def placesOf : List RealNumber → RealNumber
  | [] => .finite ⟨false, 0, 0⟩
  | first :: rest =>
    rest.foldl
      (fun v p =>
        match v, p with
        | .finite a, .finite b => .finite (sixtyfold a b)
        | _, _ => .undefined)
      first

def negate : RealNumber → RealNumber
  | .finite d => .finite { d with negative := !d.negative }
  | .infinite negative => .infinite !negative
  | .undefined => .undefined

def realOf (t : List Char) : Except Failure RealNumber :=
  (splitNumber (t.map Char.toLower)).bind fun (negative, body) =>
    let size? :=
      if String.ofList body = ".inf" then some (.infinite false)
      else if String.ofList body = ".nan" then some .undefined
      else ((Text.splitOn ':' body).mapM decimalOf?).map placesOf
    match size? with
    | some r => .ok (if negative then negate r else r)
    | none => .error .noValue

def daysIn (year month : Nat) : Nat :=
  if month = 2 then
    if year % 4 = 0 ∧ (year % 100 ≠ 0 ∨ year % 400 = 0) then 29 else 28
  else if month = 4 ∨ month = 6 ∨ month = 9 ∨ month = 11 then 30
  else 31

/-- Whether a match of the form of dates names a date that exists, and a time that exists if there
is one. -/
def isDate (m : Match) : Bool :=
  let number (k : Nat) : Nat := (Text.readDigits? (m.group k)).getD 0
  1 ≤ number 1 && 1 ≤ number 2 && number 2 ≤ 12 && 1 ≤ number 3 &&
    number 3 ≤ daysIn (number 1) (number 2) && number 4 < 24 && number 5 < 60 && number 6 < 60 &&
    60 * number 8 + number 9 < 24 * 60

def dateOf (t : List Char) : Except Failure Node :=
  match (dateForm ++ stop).matchStart? t with
  | none => .error .noDate
  | some m => if isDate m then .ok (.date (String.ofList t)) else .error .noValue

def bytesOf (t : List Char) : Except Failure Node :=
  if t.all (·.toNat < 128) then (Text.Base64.decode? t).elim (.error .malformed) (.ok ∘ .bytes)
  else .error .malformed

/-- What a scalar of a kind denotes; `sound` says that its text is whole. -/
def scalarValue (kind : Kind) (t : List Char) (sound : Bool) : Except Failure Node :=
  match kind with
  | .null => .ok .null
  | .bool => (truthOf t).map .bool
  | .int => (intOf t).map .int
  | .real => (realOf t).map .real
  | .text => .ok (if sound then .text (String.ofList t) else .broken)
  | .bytes => bytesOf t
  | .date => dateOf t
  | _ => .error .malformed

end NullAccess.Yaml
