import NullAccess.Json.Basic
import NullAccess.Text.Digit
import NullAccess.Text.Lines

/-!
# Reading records from JSON

A record takes its fields from an object, leniently: a field that is missing takes its default, a
field that the record does not have is passed over, and a scalar of a near kind is converted.  A
value that does not fit gives no record.
-/

namespace NullAccess.Json

/-- A text field takes only a string. -/
def toText? : Json → Option String
  | str s => some s
  | _ => none

/-- The integer that a bare numeral denotes: ASCII digits that do not begin with a needless zero,
behind a minus sign if it is negative.  Sign and digits together have an admissible length. -/
def bareInt? (t : List Char) : Option Int :=
  let (negative, digits) := match t with
    | '-' :: r => (true, r)
    | _ => (false, t)
  if Text.maxDigits < t.length || !digits.all Char.isDigit ||
      (digits.head? == some '0' && digits != ['0']) then none
  else (Text.readDigits? digits).map fun n => if negative then -(n : Int) else n

/-- The text without the zeros that it begins with, and the underscores among them; the last
character stays.  Behind them only digits, a minus sign or a point may follow. -/
def dropZeros? (t : List Char) : Option (List Char) :=
  match t with
  | '0' :: r =>
    match r.dropWhile fun c => c == '0' || c == '_' with
    | [] => t.getLast?.map ([·])
    | rest@('.' :: _) =>
      ((t.take (t.length - rest.length)).getLast?).map (· :: rest)
    | rest@(d :: _) => if d.isDigit || d == '-' then some rest else none
  | d :: _ => if d.isDigit || d == '-' then some t else none
  | [] => none

/-- The text without a point and zeros behind it, of which there has to be one. -/
def dropFraction (t : List Char) : List Char :=
  let zeros := (t.dropWhile (· != '.')).drop 1
  if !zeros.isEmpty && zeros.all (· == '0') then t.takeWhile (· != '.') else t

/-- The text without its underscores, if each stands alone inside it. -/
def dropUnderscores (t : List Char) : List Char :=
  if t.head? == some '_' || t.getLast? == some '_' || Text.holds ['_', '_'] t then t
  else t.filter (· != '_')

/-- The integer that a string denotes.  White space around it, a plus sign, zeros before it and a
fraction of zeros do not count, and underscores may group its digits. -/
def textToInt? (s : String) : Option Int :=
  let t := Text.trimSpace s.toList
  let unsigned := match t with
    | '+' :: '-' :: _ => []
    | '+' :: r => r
    | _ => t
  (dropZeros? unsigned).bind fun r => bareInt? (dropUnderscores (dropFraction r))

/-- The integer that a number denotes, if it has no fraction and fits in 64 bits. -/
def realToInt? : RealNumber → Option Int
  | .finite d =>
    (d.toBinary?.bind Binary.toInt?).filter fun n => n.natAbs < Nat.pow 2 63
  | _ => none

/-- A whole-number field takes an integer, a number without a fraction, a truth value as 0 or 1, or
the digits of an integer. -/
def toInt? : Json → Option Int
  | int n => some n
  | bool b => some (if b then 1 else 0)
  | real r => realToInt? r
  | str s => textToInt? s
  | _ => none

def intToBool? (n : Int) : Option Bool :=
  if n = 0 then some false else if n = 1 then some true else none

def wordToBool? (s : String) : Option Bool :=
  let w := s.toLower
  if ["1", "on", "t", "true", "y", "yes"].contains w then some true
  else if ["0", "off", "f", "false", "n", "no"].contains w then some false
  else none

/-- A truth-value field takes a truth value, 0 or 1, or one of the usual words. -/
def toBool? : Json → Option Bool
  | bool b => some b
  | int n => intToBool? n
  | real r => (realToInt? r).bind intToBool?
  | str s => wordToBool? s
  | _ => none

variable {α : Type}

/-- A list field takes only an array, and each element has to fit. -/
def toList? (f : Json → Option α) : Json → Option (List α)
  | arr items => items.mapM f
  | _ => none

/-- A map field takes only an object, and each value has to fit. -/
def toMap? (f : Json → Option α) : Json → Option (List (String × α))
  | obj fields => fields.mapM fun (name, v) => (f v).map fun a => (name, a)
  | _ => none

def orNull (f : Json → Option α) : Json → Option (Option α)
  | null => some none
  | v => (f v).map some

/-- A field that has to be there. -/
def need (fields : List (String × Json)) (name : String) (f : Json → Option α) : Option α :=
  (field? name fields).bind f

/-- A field with a default. -/
def want (fields : List (String × Json)) (name : String) (f : Json → Option α) (default : α) :
    Option α :=
  match field? name fields with
  | none => some default
  | some v => f v

/-- A record is read from the fields of an object. -/
def record (f : List (String × Json) → Option α) : Json → Option α
  | obj fields => f fields
  | _ => none

end NullAccess.Json
