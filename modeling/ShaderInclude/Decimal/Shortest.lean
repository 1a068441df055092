import ShaderInclude.Decimal.Binary64
import ShaderInclude.Text.Basic

/-!
# The shortest decimal that reads back

A number is written with the fewest digits that round to it again. The reals that round to
`m · 2 ^ e` form an interval, whose ends belong to it if `m` is even. `shortest` walks from coarse
powers of ten to finer ones and stops at the first whose multiples next to the number, one below
and one above, meet the interval; of two hits it takes the nearer.

Numbers from `10 ^ (-4)` to below `10 ^ 16` are written with a point, all others with an exponent
of at least two digits.
-/

namespace ShaderInclude

namespace Decimal

/-- The fraction `m · 2 ^ e`, in quarters, against multiples of `10 ^ t`: both sides of a
comparison brought to integers. -/
structure Grid where
  /-- What a quarter of the last binary place counts. -/
  quarter : Nat
  /-- What one step of the decimal grid counts. -/
  step : Nat

/-- The grid of `10 ^ t` for numbers with binary exponent `e`. -/
def Grid.at (e t : Int) : Grid :=
  ⟨twoTo (e - 2).toNat * tenTo (-t).toNat, tenTo t.toNat * twoTo (2 - e).toNat⟩

/-- Whether the multiple `c` of the grid rounds to the number with mantissa `m`. The gap below a
power of two is half as wide, unless the exponent is the least. -/
def Grid.hits (g : Grid) (m : Nat) (least : Bool) (c : Nat) : Bool :=
  let low := (if m = twoTo 52 ∧ !least then 4 * m - 1 else 4 * m - 2) * g.quarter
  let high := (4 * m + 2) * g.quarter
  let x := c * g.step
  (low < x && x < high) || (m % 2 = 0 && (x = low || x = high))

/-- The multiple of the grid nearest to the number among the two next to it that round to it. -/
def Grid.nearest? (g : Grid) (m : Nat) (least : Bool) : Option Nat :=
  let value := 4 * m * g.quarter
  let below := value / g.step
  match g.hits m least below, g.hits m least (below + 1) with
  | true, true =>
    let twice := 2 * (value % g.step)
    if twice < g.step ∨ twice = g.step ∧ below % 2 = 0 then some below else some (below + 1)
  | true, false => some below
  | false, true => some (below + 1)
  | false, false => none

/-- The digits and the power of ten of the shortest decimal, searched from `10 ^ t` downward over
at most `steps` powers. -/
def search (m : Nat) (e : Int) : (steps : Nat) → (t : Int) → Nat × Int
  | 0, t => (0, t)
  | steps + 1, t =>
    match (Grid.at e t).nearest? m (e = Binary64.minExponent) with
    | some c => (c, t)
    | none => search m e steps (t - 1)

/-- The digits and the power of ten of the shortest decimal for `m · 2 ^ e`, where `m` is not
zero. -/
def shortest (m : Nat) (e : Int) : Nat × Int :=
  search m e 24 (((m.log2 : Int) + e) * 30103 / 100000 + 2)

/-- Digits without their trailing zeros. -/
def significant (digits : Text) : Text := (digits.reverse.dropWhile (· = '0')).reverse

/-- The exponent part of a number: a sign and at least two digits. -/
def exponentText (e : Int) : Text :=
  let digits := Nat.toDigits 10 e.natAbs
  'e' :: (if e < 0 then '-' else '+') :: (if digits.length < 2 then '0' :: digits else digits)

/-- Digits with a point after the first `place` of them, zeros filled in on both sides. -/
def pointText (digits : Text) (place : Int) : Text :=
  if place ≤ 0 then '0' :: '.' :: List.replicate (-place).toNat '0' ++ digits
  else
    let n := place.toNat
    let fraction := digits.drop n
    digits.take n ++ List.replicate (n - digits.length) '0' ++ '.' ::
      (if fraction = [] then ['0'] else fraction)

/-- A positive number in writing. -/
def positiveText (m : Nat) (e : Int) : Text :=
  let (c, t) := shortest m e
  let all := Nat.toDigits 10 c
  let exponent := (all.length : Int) - 1 + t
  let digits := significant all
  if -4 ≤ exponent ∧ exponent < 16 then pointText digits (exponent + 1)
  else
    digits.take 1 ++ (if digits.length > 1 then '.' :: digits.drop 1 else []) ++
      exponentText exponent

end Decimal

/-- A number in writing. -/
def Binary64.text : Binary64 → Text
  | nan => ['n', 'a', 'n']
  | infinite negative => (if negative then ['-'] else []) ++ ['i', 'n', 'f']
  | finite negative m e =>
    (if negative then ['-'] else []) ++
      (if m = 0 then ['0', '.', '0'] else Decimal.positiveText m e)

end ShaderInclude
