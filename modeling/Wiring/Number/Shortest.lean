import Wiring.Number.Binary64

/-!
The shortest decimal digits that read back as a given binary64 number, and of those
the ones nearest to it. The reals that round to the number form an interval, whose
ends belong to it exactly if the significand is even. Grids of 1, 2, up to 17 digits
are tried in turn; on each only the two neighbours of the number can be the nearest
point of the interval.
-/

namespace Wiring

/-- A positive decimal `digits * 10 ^ exponent`. -/
structure Decimal where
  digits : Nat
  exponent : Int
deriving DecidableEq, Repr

namespace Decimal

/-- The same decimal without zeros at the end of its digits; `fuel` bounds how many
of them are dropped. -/
def dropZeros : Nat → Decimal → Decimal
  | 0, d => d
  | fuel + 1, d =>
    if d.digits ≠ 0 ∧ d.digits % 10 = 0 then dropZeros fuel ⟨d.digits / 10, d.exponent + 1⟩
    else d

end Decimal

namespace Binary64

/-- A positive number as a fraction together with the interval of the reals that
round to it, all over one denominator. -/
structure Rounding where
  low : Nat
  value : Nat
  high : Nat
  denominator : Nat
  closed : Bool

/-- The interval of a positive finite number. Below a power of two the numbers lie
twice as close, so there the lower end is only a quarter of a place away. -/
def rounding (x : Binary64) : Rounding :=
  let m := x.significand
  let below := if x.fraction = 0 ∧ 1 < x.exponentField then 1 else 2
  let up := Nat.pow 2 (x.scale - 2).toNat
  { low := (4 * m - below) * up
    value := 4 * m * up
    high := (4 * m + 2) * up
    denominator := Nat.pow 2 (2 - x.scale).toNat
    closed := m % 2 = 0 }

/-- Whether `num / den` lies in the interval. -/
def Rounding.contains (r : Rounding) (num den : Nat) : Bool :=
  let n := num * r.denominator
  if r.closed then r.low * den ≤ n && n ≤ r.high * den
  else r.low * den < n && n < r.high * den

/-- The nearer of the two neighbours of the value on the grid of multiples of
`10 ^ place`, if it lies in the interval; of two equally near ones the even. -/
def Rounding.onGrid? (r : Rounding) (place : Int) : Option Decimal :=
  let up := Nat.pow 10 place.toNat
  let down := Nat.pow 10 (-place).toNat
  let num := r.value * down
  let den := r.denominator * up
  let nearest := roundDiv num den
  let floor := num / den
  let other := if nearest = floor then floor + 1 else floor
  if nearest ≠ 0 ∧ r.contains (nearest * up) down then some ⟨nearest, place⟩
  else if other ≠ 0 ∧ r.contains (other * up) down then some ⟨other, place⟩
  else none

/-- The exponent of the first decimal digit of `num / den`. -/
def leadingExponent (num den : Nat) : Int :=
  if den ≤ num then ((Nat.toDigits 10 (num / den)).length : Int) - 1
  else -((Nat.toDigits 10 ((den + num - 1) / num - 1)).length : Int)

/-- The first grid with a hit, starting with `count` digits; `fuel` bounds how many
grids are tried. -/
def Rounding.search (r : Rounding) (leading : Int) : Nat → Nat → Decimal
  | _, 0 => ⟨r.value / r.denominator, 0⟩
  | count, fuel + 1 =>
    match r.onGrid? (leading - count + 1) with
    | some d => d
    | none => r.search leading (count + 1) fuel

/-- The shortest decimal that reads back as the magnitude of a finite nonzero
number. -/
def shortest (x : Binary64) : Decimal :=
  let r := x.rounding
  (r.search (leadingExponent r.value r.denominator) 1 20).dropZeros 20

end Binary64

end Wiring
