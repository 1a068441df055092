/-!
# Binary fractions of 53 bits

The numbers that settings can hold: `mantissa · 2 ^ exponent` with a mantissa below `2 ^ 53`, the
two infinities, and no number. `Binary64.ofDecimal` reads a decimal and rounds it to the nearest
such number, a tie to the even mantissa, in exact integer arithmetic.
-/

namespace ShaderInclude

/-- A power of two. -/
def twoTo (n : Nat) : Nat := Nat.pow 2 n

/-- A power of ten. -/
def tenTo (n : Nat) : Nat := Nat.pow 10 n

/-- A binary fraction of 53 bits, an infinity, or no number. -/
inductive Binary64 where
  | finite (negative : Bool) (mantissa : Nat) (exponent : Int)
  | infinite (negative : Bool)
  | nan
deriving DecidableEq

namespace Binary64

/-- The least exponent. -/
def minExponent : Int := -1074

/-- The greatest exponent. -/
def maxExponent : Int := 971

/-- Zero with a sign. -/
def zero (negative : Bool) : Binary64 := finite negative 0 minExponent

/-- The quotient rounded to the nearest integer, a tie to the even one. -/
def roundDiv (num den : Nat) : Nat :=
  let q := num / den
  let twice := 2 * (num % den)
  if twice < den ∨ twice = den ∧ q % 2 = 0 then q else q + 1

/-- `num / den · 2 ^ (-e)` as a fraction. -/
def scaled (num den : Nat) (e : Int) : Nat × Nat :=
  if e < 0 then (num * twoTo e.natAbs, den) else (num, den * twoTo e.natAbs)

/-- The number nearest to a positive fraction. -/
def ofFraction (negative : Bool) (num den : Nat) : Binary64 :=
  let guess := max minExponent ((num.log2 : Int) - den.log2 - 53)
  let (n, d) := scaled num den guess
  let e := if n / d < twoTo 53 then guess else guess + 1
  let (n, d) := scaled num den e
  let m := roundDiv n d
  let (m, e) := if m = twoTo 53 then (twoTo 52, e + 1) else (m, e)
  if e > maxExponent then infinite negative else finite negative m e

/-- The number nearest to `digits · 10 ^ exponent`. Decimals whose size is far out of range are
decided by their number of digits alone. -/
def ofDecimal (negative : Bool) (digits : Nat) (exponent : Int) : Binary64 :=
  let magnitude := ((Nat.toDigits 10 digits).length : Int) + exponent
  if digits = 0 ∨ magnitude < -330 then zero negative
  else if magnitude > 310 then infinite negative
  else if exponent < 0 then ofFraction negative digits (tenTo exponent.natAbs)
  else ofFraction negative (digits * tenTo exponent.natAbs) 1

/-- Whether the number is zero of either sign. -/
def isZero : Binary64 → Bool
  | finite _ m _ => m = 0
  | _ => false

end Binary64

end ShaderInclude
