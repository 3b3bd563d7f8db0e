import Wiring.Number.Binary64

/-!
Numbers read from text. Digits are taken from the front of a character list; a
decimal fraction is the value of all its digits together with the place of its point.
-/

namespace Wiring.Number

def digitValue (c : Char) : Nat := c.toNat - '0'.toNat

/-- The value of decimal digits written one after the other. -/
def digitsValue (cs : List Char) : Nat :=
  cs.foldl (fun value c => 10 * value + digitValue c) 0

def hexValue? (c : Char) : Option Nat :=
  if c.isDigit then some (digitValue c)
  else if 'a' ≤ c ∧ c ≤ 'f' then some (c.toNat - 'a'.toNat + 10)
  else if 'A' ≤ c ∧ c ≤ 'F' then some (c.toNat - 'A'.toNat + 10)
  else none

/-- The value of a nonempty text of digits in a base of at most sixteen. -/
def digitsInBase? (base : Nat) (cs : List Char) : Option Nat :=
  if cs.isEmpty then none
  else cs.foldl (fun value? c => do
    let value ← value?
    let digit ← hexValue? c
    if digit < base then some (base * value + digit) else none) (some 0)

/-- The digits at the front of a text, and what follows them. -/
def spanDigits (cs : List Char) : List Char × List Char :=
  (cs.takeWhile Char.isDigit, cs.dropWhile Char.isDigit)

/-- The number nearest to the decimal with the given digits before and after the
point, times a power of ten. -/
def ofDigits (negative : Bool) (whole fraction : List Char) (exponent : Int) : Binary64 :=
  Binary64.ofDecimal negative (digitsValue (whole ++ fraction)) (exponent - fraction.length)

theorem isNaN_ofDigits (negative : Bool) (whole fraction : List Char) (exponent : Int) :
    (ofDigits negative whole fraction exponent).isNaN = false :=
  Binary64.isNaN_ofDecimal _ _ _

/-- The exponent part of a number, which must fill the rest of the text. -/
def exponentPart? : List Char → Option Int
  | [] => some 0
  | mark :: cs =>
    if mark ≠ 'e' ∧ mark ≠ 'E' then none
    else
      let (negative, digits) := match cs with
        | '-' :: ds => (true, ds)
        | '+' :: ds => (false, ds)
        | ds => (false, ds)
      if digits.isEmpty ∨ ¬ digits.all Char.isDigit then none
      else some (if negative then -(digitsValue digits : Int) else digitsValue digits)

/-- A decimal number without a sign: digits, a point with further digits, an
exponent. There must be a digit before or after the point. -/
def unsigned? (negative : Bool) (cs : List Char) : Option Binary64 := do
  let (whole, rest) := spanDigits cs
  let (fraction, rest) := match rest with
    | '.' :: ds => spanDigits ds
    | ds => ([], ds)
  if whole.isEmpty ∧ fraction.isEmpty then none
  else
    let exponent ← exponentPart? rest
    return ofDigits negative whole fraction exponent

/-- A number with an optional sign, or one of the words for infinity and NaN in any
case. -/
def binary64? (text : String) : Option Binary64 :=
  let (negative, cs) := match text.toList with
    | '-' :: cs => (true, cs)
    | '+' :: cs => (false, cs)
    | cs => (false, cs)
  let word := cs.map Char.toLower
  if word = "inf".toList ∨ word = "infinity".toList then some (Binary64.infinity negative)
  else if word = "nan".toList then some Binary64.nan
  else unsigned? negative cs

end Wiring.Number
