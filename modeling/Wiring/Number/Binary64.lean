/-!
Binary floating point numbers of 64 bits, given by their bit pattern: one sign
bit, eleven exponent bits and fifty-two fraction bits. A finite number is
`significand * 2 ^ scale` with its sign. All arithmetic here is on `Nat` and exact,
so `ofRatio` rounds once.
-/

namespace Wiring

/-- A binary64 number. Two numbers are the same value of this type exactly if
their bits agree; comparison as numbers is `Binary64.numericEq`. -/
structure Binary64 where
  bits : UInt64
deriving DecidableEq, Repr, Inhabited

namespace Binary64

/-- The bit pattern with a given sign and a given exponent-and-fraction part. -/
def ofParts (negative : Bool) (magnitude : Nat) : Binary64 :=
  ⟨UInt64.ofNat ((if negative then Nat.pow 2 63 else 0) + magnitude)⟩

def isNegative (x : Binary64) : Bool := Nat.pow 2 63 ≤ x.bits.toNat

/-- Exponent and fraction bits, which order the numbers of one sign. -/
def magnitude (x : Binary64) : Nat := x.bits.toNat % Nat.pow 2 63

def exponentField (x : Binary64) : Nat := x.magnitude / Nat.pow 2 52

def fraction (x : Binary64) : Nat := x.magnitude % Nat.pow 2 52

/-- The magnitude of the two infinities. What lies above it is not a number. -/
def infinite : Nat := 2047 * Nat.pow 2 52

def isNaN (x : Binary64) : Bool := infinite < x.magnitude

def isInfinite (x : Binary64) : Bool := x.magnitude == infinite

def isZero (x : Binary64) : Bool := x.magnitude == 0

/-- Comparison as numbers: nothing equals a NaN, and the two zeros are equal. -/
def numericEq (x y : Binary64) : Bool :=
  !x.isNaN && !y.isNaN && (x == y || (x.isZero && y.isZero))

def neg (x : Binary64) : Binary64 := ofParts (!x.isNegative) x.magnitude

def zero (negative : Bool) : Binary64 := ofParts negative 0

def infinity (negative : Bool) : Binary64 := ofParts negative infinite

/-- The quiet NaN with an otherwise empty fraction. -/
def nan : Binary64 := ofParts false (infinite + Nat.pow 2 51)

/-- The integer `m` such that a finite number is `± m * 2 ^ scale`. -/
def significand (x : Binary64) : Nat :=
  if x.exponentField = 0 then x.fraction else Nat.pow 2 52 + x.fraction

/-- The power of two that scales the significand. -/
def scale (x : Binary64) : Int :=
  if x.exponentField = 0 then -1074 else (x.exponentField : Int) - 1075

/-- Quotient rounded to the nearest integer, a half to the even neighbour. -/
def roundDiv (num den : Nat) : Nat :=
  let q := num / den
  let r := num % den
  if 2 * r < den then q
  else if den < 2 * r then q + 1
  else if q % 2 = 0 then q else q + 1

/-- The integer part of the binary logarithm of `num / den`. -/
def log2Ratio (num den : Nat) : Int :=
  let guess := (Nat.log2 num : Int) - Nat.log2 den
  let reached : Bool :=
    if 0 ≤ guess then den * Nat.pow 2 guess.toNat ≤ num
    else den ≤ num * Nat.pow 2 (-guess).toNat
  if reached then guess else guess - 1

/-- The number nearest to `num / den`. The significand is rounded at the place
that leaves fifty-three bits, or at the last place a subnormal number has; a carry
runs into the exponent by itself. -/
def ofRatio (negative : Bool) (num den : Nat) : Binary64 :=
  if num = 0 then zero negative
  else
    let place := max (log2Ratio num den - 52) (-1074)
    let rounded :=
      if 0 ≤ place then roundDiv num (den * Nat.pow 2 place.toNat)
      else roundDiv (num * Nat.pow 2 (-place).toNat) den
    ofParts negative (min infinite (rounded + (place + 1074).toNat * Nat.pow 2 52))

/-- The number nearest to `digits * 10 ^ exponent`. As ten lies above eight, a large
`3 * exponent + log2 digits` means overflow for a positive exponent and a very
negative one means zero for a negative exponent; neither computes the power. -/
def ofDecimal (negative : Bool) (digits : Nat) (exponent : Int) : Binary64 :=
  if digits = 0 then zero negative
  else
    let size : Int := 3 * exponent + Nat.log2 digits
    if 0 ≤ exponent then
      if 1100 < size then infinity negative
      else ofRatio negative (digits * Nat.pow 10 exponent.toNat) 1
    else
      if size < -1200 then zero negative
      else ofRatio negative digits (Nat.pow 10 (-exponent).toNat)

/-- Only finite numbers and infinities come from a ratio. -/
theorem isNaN_ofParts_of_le (negative : Bool) {m : Nat} (h : m ≤ infinite) :
    (ofParts negative m).isNaN = false := by
  have hm : m < 2 ^ 63 := by
    simp only [infinite, Nat.pow_eq] at h
    omega
  have hbits : ((if negative then 2 ^ 63 else 0) + m) % 2 ^ 64 % 2 ^ 63 = m := by
    cases negative <;> simp <;> omega
  simp only [isNaN, magnitude, ofParts, Nat.pow_eq, UInt64.toNat_ofNat', hbits,
    decide_eq_false_iff_not]
  omega

theorem isNaN_ofRatio (negative : Bool) (num den : Nat) :
    (ofRatio negative num den).isNaN = false := by
  unfold ofRatio
  split
  · exact isNaN_ofParts_of_le negative (Nat.zero_le _)
  · exact isNaN_ofParts_of_le negative (Nat.min_le_left _ _)

theorem isNaN_ofDecimal (negative : Bool) (digits : Nat) (exponent : Int) :
    (ofDecimal negative digits exponent).isNaN = false := by
  unfold ofDecimal
  split
  · exact isNaN_ofParts_of_le negative (Nat.zero_le _)
  · dsimp only
    split
    · split
      · exact isNaN_ofParts_of_le negative (Nat.le_refl _)
      · exact isNaN_ofRatio _ _ _
    · split
      · exact isNaN_ofParts_of_le negative (Nat.zero_le _)
      · exact isNaN_ofRatio _ _ _

end Binary64

end Wiring
