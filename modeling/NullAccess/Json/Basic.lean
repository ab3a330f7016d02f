import NullAccess.Decimal.Basic

/-!
# JSON values

Numbers with a point or an exponent keep the decimal that was written, so that a value can be
compared and printed without rounding it twice.
-/

namespace NullAccess

/-- A number that is not written as an integer. -/
inductive RealNumber where
  | finite (d : Decimal)
  | infinite (negative : Bool)
  | undefined
  deriving DecidableEq, Repr, Inhabited

/-- A JSON value.  The fields of an object keep their order; a name occurs once. -/
inductive Json where
  | null
  | bool (b : Bool)
  | int (n : Int)
  | real (r : RealNumber)
  | str (s : String)
  /-- A string with half a character in it, which is therefore no text.  A field whose name is such
  a string has this value too, whatever it was. -/
  | broken
  | arr (items : List Json)
  | obj (fields : List (String × Json))
  deriving Repr, Inhabited

namespace Json

mutual

def decEq (a b : Json) : Decidable (a = b) :=
  match a with
  | null =>
    match b with
    | null => isTrue rfl
    | bool _ | int _ | real _ | str _ | broken | arr _ | obj _ => isFalse nofun
  | bool x =>
    match b with
    | bool y => if h : x = y then isTrue (h ▸ rfl) else isFalse (by simp [h])
    | null | int _ | real _ | str _ | broken | arr _ | obj _ => isFalse nofun
  | int x =>
    match b with
    | int y => if h : x = y then isTrue (h ▸ rfl) else isFalse (by simp [h])
    | null | bool _ | real _ | str _ | broken | arr _ | obj _ => isFalse nofun
  | real x =>
    match b with
    | real y => if h : x = y then isTrue (h ▸ rfl) else isFalse (by simp [h])
    | null | bool _ | int _ | str _ | broken | arr _ | obj _ => isFalse nofun
  | str x =>
    match b with
    | str y => if h : x = y then isTrue (h ▸ rfl) else isFalse (by simp [h])
    | null | bool _ | int _ | real _ | broken | arr _ | obj _ => isFalse nofun
  | broken =>
    match b with
    | broken => isTrue rfl
    | null | bool _ | int _ | real _ | str _ | arr _ | obj _ => isFalse nofun
  | arr xs =>
    match b with
    | arr ys =>
      match decEqItems xs ys with
      | isTrue h => isTrue (h ▸ rfl)
      | isFalse h => isFalse (by simp [h])
    | null | bool _ | int _ | real _ | str _ | broken | obj _ => isFalse nofun
  | obj xs =>
    match b with
    | obj ys =>
      match decEqFields xs ys with
      | isTrue h => isTrue (h ▸ rfl)
      | isFalse h => isFalse (by simp [h])
    | null | bool _ | int _ | real _ | str _ | broken | arr _ => isFalse nofun

def decEqItems (xs ys : List Json) : Decidable (xs = ys) :=
  match xs, ys with
  | [], [] => isTrue rfl
  | [], _ :: _ => isFalse nofun
  | _ :: _, [] => isFalse nofun
  | x :: xs, y :: ys =>
    match decEq x y, decEqItems xs ys with
    | isTrue h, isTrue h' => isTrue (by rw [h, h'])
    | isFalse h, _ => isFalse (by simp [h])
    | _, isFalse h => isFalse (by simp [h])

def decEqFields (xs ys : List (String × Json)) : Decidable (xs = ys) :=
  match xs, ys with
  | [], [] => isTrue rfl
  | [], _ :: _ => isFalse nofun
  | _ :: _, [] => isFalse nofun
  | (m, x) :: xs, (n, y) :: ys =>
    if hn : m = n then
      match decEq x y, decEqFields xs ys with
      | isTrue h, isTrue h' => isTrue (by rw [hn, h, h'])
      | isFalse h, _ => isFalse (by simp [h])
      | _, isFalse h => isFalse (by simp [h])
    else isFalse (by simp [hn])

end

instance : DecidableEq Json := decEq

/-- The fields with one more: the value of a name that is there already is replaced in its
place. -/
def setField (name : String) (v : Json) : List (String × Json) → List (String × Json)
  | [] => [(name, v)]
  | (n, w) :: rest => if n = name then (n, v) :: rest else (n, w) :: setField name v rest

def field? (name : String) (fields : List (String × Json)) : Option Json :=
  (fields.find? (·.1 == name)).map (·.2)

def get? (v : Json) (name : String) : Option Json :=
  match v with
  | obj fields => field? name fields
  | _ => none

def strs (xs : List String) : Json := arr (xs.map str)

def ofOption {α : Type} (f : α → Json) : Option α → Json
  | none => null
  | some a => f a

end Json

end NullAccess
