import Wiring.Number.Shortest

/-!
How a decimal is laid out as text. The digits are always the shortest ones; a layout
decides which exponents are written positionally, whether a whole number keeps a
fraction of zero, and the texts of the values that are not finite.
-/

namespace Wiring

/-- The decisions that tell the written forms of floating point numbers apart. -/
structure Layout where
  /-- Exponents of the first digit that are written without an exponent part. -/
  positional : Int → Bool
  /-- What follows the digits of a whole number in positional form. -/
  wholeEnd : String
  infinity : String
  nan : String

namespace Layout

/-- The form used where a value is shown: the fraction is always written, and an
exponent part appears from `1e16` on and below `1e-4`. -/
def shown : Layout where
  positional e := -4 ≤ e && e < 16
  wholeEnd := ".0"
  infinity := "inf"
  nan := "NaN"

/-- The form used in keys and messages: never an exponent part, and `1` for one. -/
def plain : Layout where
  positional _ := true
  wholeEnd := ""
  infinity := "inf"
  nan := "NaN"

/-- The form of a number in structured text: an exponent part from `1e16` on and
below `1e-5`. -/
def structured : Layout where
  positional e := -5 ≤ e && e < 16
  wholeEnd := ".0"
  infinity := ".inf"
  nan := ".nan"

/-- The digits of a positive decimal with the point put in its place. -/
def positionalText (wholeEnd : String) (d : Decimal) : List Char :=
  let digits := Nat.toDigits 10 d.digits
  if 0 ≤ d.exponent then
    digits ++ List.replicate d.exponent.toNat '0' ++ wholeEnd.toList
  else
    let places := (-d.exponent).toNat
    if places < digits.length then
      digits.take (digits.length - places) ++ '.' :: digits.drop (digits.length - places)
    else
      '0' :: '.' :: (List.replicate (places - digits.length) '0' ++ digits)

/-- One digit before the point and the exponent of the first digit after the rest. -/
def exponentText (d : Decimal) (leading : Int) : List Char :=
  let mantissa := match Nat.toDigits 10 d.digits with
    | [] => []
    | [c] => [c]
    | c :: cs => c :: '.' :: cs
  mantissa ++ 'e' :: (toString leading).toList

def write (layout : Layout) (x : Binary64) : String :=
  if x.isNaN then layout.nan
  else
    let sign := if x.isNegative then ['-'] else []
    let body :=
      if x.isInfinite then layout.infinity.toList
      else if x.isZero then '0' :: layout.wholeEnd.toList
      else
        let d := x.shortest
        let leading := d.exponent + (Nat.toDigits 10 d.digits).length - 1
        if layout.positional leading then positionalText layout.wholeEnd d
        else exponentText d leading
    String.ofList (sign ++ body)

end Layout

end Wiring
