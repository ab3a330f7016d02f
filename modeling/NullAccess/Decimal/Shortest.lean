import NullAccess.Decimal.Basic

/-!
# The shortest decimal that reads back

Among the decimals that are rounded to a given binary number, the ones with the fewest digits are
wanted, and of these the nearest.  On the grid of decimals with a given last place, if any point
lies in the interval of numbers that round to the binary number, then one of the two neighbours of
the number itself does, so it is enough to look at those two.
-/

namespace NullAccess.Binary

def fractionLe (x y : Nat × Nat) : Bool := x.1 * y.2 ≤ y.1 * x.2

/-- The least and greatest number that are rounded to a positive binary number, in quarters of its
last place. -/
def quarters (b : Binary) : Nat × Nat :=
  let low := if b.mantissa = Nat.pow 2 52 ∧ -1074 < b.exponent then 4 * b.mantissa - 1
    else 4 * b.mantissa - 2
  (low, 4 * b.mantissa + 2)

/-- Whether the decimal `n · 10 ^ k` is rounded to the binary number. -/
def admits (b : Binary) (n : Nat) (k : Int) : Bool :=
  let d : Decimal := ⟨false, n, k⟩
  let (low, high) := b.quarters
  let lowest := scale low 4 b.exponent
  let highest := scale high 4 b.exponent
  let point := d.fraction
  if b.mantissa % 2 = 0 then fractionLe lowest point && fractionLe point highest
  else !fractionLe point lowest && !fractionLe highest point

/-- The neighbour on the grid `10 ^ k` that is rounded to the number, the nearer one if both are. -/
def neighbour? (b : Binary) (k : Int) : Option Nat :=
  let (num, den) := scale b.mantissa 1 b.exponent
  let (num, den) :=
    if 0 ≤ k then (num, den * Nat.pow 10 k.toNat) else (num * Nat.pow 10 (-k).toNat, den)
  let below := num / den
  let nearest := roundDiv num den
  if nearest ≠ 0 ∧ b.admits nearest k then some nearest
  else if below ≠ 0 ∧ b.admits below k then some below
  else if b.admits (below + 1) k then some (below + 1)
  else none

/-- The first grid with a hit, from the coarsest to the finest of `n`. -/
def shortestFrom (b : Binary) : Nat → Int → Option (Nat × Int)
  | 0, _ => none
  | n + 1, k =>
    match b.neighbour? k with
    | some d => some (d, k)
    | none => shortestFrom b n (k - 1)

/-- The number of decimal places before the point of a positive number, at most one too many. -/
def leading (b : Binary) : Int :=
  let (num, den) := scale b.mantissa 1 b.exponent
  if den ≤ num then ((Nat.toDigits 10 (num / den)).length : Int)
  else 1 - ((Nat.toDigits 10 (den / num)).length : Int)

/-- The digits of the shortest decimal, without trailing zeros, and the place of the point: the
number is `0.d₁d₂… · 10 ^ point`. -/
def shortest (b : Binary) : List Char × Int :=
  match b.shortestFrom 20 (b.leading + 1) with
  | none => (['0'], 1)
  | some (d, k) =>
    let digits := Nat.toDigits 10 d
    let kept := (digits.reverse.dropWhile (· == '0')).reverse
    (kept, k + digits.length)

/-- The decimal text of the number.  The point is written where it stands when it is at most sixteen
places to the right and at most four zeros to the left of the first digit; otherwise an exponent of
at least two digits is written. -/
def text (b : Binary) : List Char :=
  let sign := if b.negative then ['-'] else []
  if b.mantissa = 0 then sign ++ ['0', '.', '0']
  else
    let (digits, point) := b.shortest
    let n := digits.length
    sign ++
      if 0 < point ∧ point ≤ 16 then
        let p := point.toNat
        if n ≤ p then digits ++ List.replicate (p - n) '0' ++ ['.', '0']
        else digits.take p ++ '.' :: digits.drop p
      else if -4 < point ∧ point ≤ 0 then
        '0' :: '.' :: List.replicate (-point).toNat '0' ++ digits
      else
        let e := point - 1
        let size := Nat.toDigits 10 e.natAbs
        let padded := if size.length < 2 then '0' :: size else size
        digits.take 1 ++ (if n ≤ 1 then [] else '.' :: digits.drop 1) ++
          'e' :: (if e < 0 then '-' else '+') :: padded

end NullAccess.Binary
