/-!
# Decimals

A number as it is written, and the binary number of double precision that is nearest to it.
-/

namespace NullAccess

/-- The decimal `± digits · 10 ^ exponent`. -/
structure Decimal where
  negative : Bool
  digits : Nat
  exponent : Int
  deriving DecidableEq, Repr, Inhabited

/-- The binary number `± mantissa · 2 ^ exponent`. -/
structure Binary where
  negative : Bool
  mantissa : Nat
  exponent : Int
  deriving DecidableEq, Repr, Inhabited

/-- The quotient rounded to the nearest integer, a half to the even neighbour. -/
def roundDiv (num den : Nat) : Nat :=
  let q := num / den
  let r := num % den
  if 2 * r < den then q
  else if den < 2 * r then q + 1
  else if q % 2 = 0 then q else q + 1

/-- The fraction `num / den` times `2 ^ k`, as a fraction. -/
def scale (num den : Nat) (k : Int) : Nat × Nat :=
  if 0 ≤ k then (num * Nat.pow 2 k.toNat, den) else (num, den * Nat.pow 2 (-k).toNat)

namespace Decimal

/-- The absolute value as a fraction. -/
def fraction (d : Decimal) : Nat × Nat :=
  if 0 ≤ d.exponent then (d.digits * Nat.pow 10 d.exponent.toNat, 1)
  else (d.digits, Nat.pow 10 (-d.exponent).toNat)

/-- Whether the exponent alone shows that the number is far below the least positive one of double
precision, which is above `10 ^ (-324)`. -/
def isTiny (d : Decimal) : Bool := d.exponent < -400 - d.digits.log2

/-- Whether the exponent alone shows that the number, unless it is zero, is far above the greatest
one of double precision, which is below `10 ^ 309`. -/
def isHuge (d : Decimal) : Bool := 400 < d.exponent

/-- The nearest number of double precision: 53 bits of mantissa and a least exponent of -1074.
There is none when the number is too large. -/
def toBinary? (d : Decimal) : Option Binary :=
  if d.digits = 0 ∨ d.isTiny then some ⟨d.negative, 0, 0⟩
  else if d.isHuge then none
  else
    let (num, den) := d.fraction
    let guess : Int := (num.log2 : Int) - den.log2
    let (n1, d1) := scale num den (-guess)
    let top : Int := if n1 < d1 then guess - 1 else guess
    let least : Int := max (top - 52) (-1074)
    let (n2, d2) := scale num den (-least)
    let m := roundDiv n2 d2
    let (m, e) := if m = Nat.pow 2 53 then (Nat.pow 2 52, least + 1) else (m, least)
    if 971 < e then none else some ⟨d.negative, m, e⟩

end Decimal

namespace Binary

def toInt? (b : Binary) : Option Int :=
  let size? : Option Nat :=
    if 0 ≤ b.exponent then some (b.mantissa * Nat.pow 2 b.exponent.toNat)
    else
      let den := Nat.pow 2 (-b.exponent).toNat
      if b.mantissa % den = 0 then some (b.mantissa / den) else none
  size?.map fun n => if b.negative then -(n : Int) else n

end Binary

end NullAccess
