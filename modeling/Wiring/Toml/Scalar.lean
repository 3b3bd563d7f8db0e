import Wiring.Number.Reading

/-!
Numbers, truth values and dates in configuration text. Only how they are spelled is
checked: integers must fit into 64 bits, floats must not be too large, and dates must
exist.
-/

namespace Wiring.Toml

/-- Digits at the front of a text, which single underscores may separate. There must be
one at least. -/
def takeDigits? (isDigit : Char → Bool) : List Char → Option (List Char × List Char)
  | [] => none
  | [c] => if isDigit c then some ([c], []) else none
  | c :: d :: cs =>
    if !isDigit c then none
    else if d == '_' then
      match takeDigits? isDigit cs with
      | some (digits, rest) => some (c :: digits, rest)
      | none => some ([c], d :: cs)
    else
      match takeDigits? isDigit (d :: cs) with
      | some (digits, rest) => some (c :: digits, rest)
      | none => some ([c], d :: cs)

/-- Decimal digits without a zero in front. -/
def takeDecimal? : List Char → Option (List Char × List Char)
  | '0' :: cs => some (['0'], cs)
  | cs => takeDigits? Char.isDigit cs

/-- A sign at the front of a text: whether it is negative, and what follows it. -/
def skipSign : List Char → Bool × List Char
  | '-' :: cs => (true, cs)
  | '+' :: cs => (false, cs)
  | cs => (false, cs)

/-- What follows an integer in the notation of a base. -/
def takeBased? (base : Nat) (cs : List Char) : Option (List Char) := do
  let (digits, rest) ← takeDigits? (fun c => (Number.hexValue? c).any (· < base)) cs
  let n ← Number.digitsInBase? base digits
  if n < Nat.pow 2 63 then return rest else none

/-- What follows an integer. -/
def takeInteger? : List Char → Option (List Char)
  | '0' :: 'x' :: cs => takeBased? 16 cs
  | '0' :: 'o' :: cs => takeBased? 8 cs
  | '0' :: 'b' :: cs => takeBased? 2 cs
  | cs => do
    let (isNegative, cs) := skipSign cs
    let (digits, rest) ← takeDecimal? cs
    let n := Number.digitsValue digits
    if n < Nat.pow 2 63 ∨ (isNegative ∧ n = Nat.pow 2 63) then return rest else none

def takeExponent? (cs : List Char) : Option (Int × List Char) :=
  match cs with
  | mark :: cs =>
    if mark == 'e' || mark == 'E' then do
      let (isNegative, cs) := skipSign cs
      let (digits, rest) ← takeDigits? Char.isDigit cs
      let n : Int := Number.digitsValue digits
      return (if isNegative then -n else n, rest)
    else none
  | [] => none

/-- The digits of a float after its point. -/
def takeFraction? : List Char → Option (List Char × List Char)
  | '.' :: cs => takeDigits? Char.isDigit cs
  | _ => none

/-- What follows a float with a fraction or an exponent, or one of the words for infinity
and NaN. A positive number must not be too large. -/
def takeFloat? (cs : List Char) : Option (List Char) :=
  let (isNegative, cs) := skipSign cs
  match cs with
  | 'i' :: 'n' :: 'f' :: rest => some rest
  | 'n' :: 'a' :: 'n' :: rest => some rest
  | cs => do
    let (whole, rest) ← takeDecimal? cs
    let (fraction, exponent, rest) ←
      match takeFraction? rest with
      | some (fraction, rest) =>
        let (exponent, rest) := (takeExponent? rest).getD (0, rest)
        some (fraction, exponent, rest)
      | none => (takeExponent? rest).map fun (exponent, rest) => ([], exponent, rest)
    let x := Number.ofDigits isNegative whole fraction exponent
    if x.isInfinite && !isNegative then none else return rest

/-- A number of exactly some digits at the front of a text. -/
def takeFixed? (count : Nat) (cs : List Char) : Option (Nat × List Char) :=
  let digits := cs.take count
  if digits.length = count ∧ digits.all Char.isDigit then
    some (Number.digitsValue digits, cs.drop count)
  else none

/-- What follows a character. -/
def takeChar? (expected : Char) : List Char → Option (List Char)
  | c :: cs => if c = expected then some cs else none
  | [] => none

def daysOfMonth (year month : Nat) : Nat :=
  let isLeap := year % 4 == 0 && (year % 100 != 0 || year % 400 == 0)
  if month = 2 then if isLeap then 29 else 28
  else if month = 4 ∨ month = 6 ∨ month = 9 ∨ month = 11 then 30
  else 31

/-- What follows a date. -/
def takeDate? (cs : List Char) : Option (List Char) := do
  let (year, rest) ← takeFixed? 4 cs
  let rest ← takeChar? '-' rest
  let (month, rest) ← takeFixed? 2 rest
  let rest ← takeChar? '-' rest
  let (day, rest) ← takeFixed? 2 rest
  if 1 ≤ month ∧ month ≤ 12 ∧ 1 ≤ day ∧ day ≤ daysOfMonth year month then return rest else none

/-- What follows a time of day. A leap second is admitted. -/
def takeTime? (cs : List Char) : Option (List Char) := do
  let (hour, rest) ← takeFixed? 2 cs
  let rest ← takeChar? ':' rest
  let (minute, rest) ← takeFixed? 2 rest
  let rest ← takeChar? ':' rest
  let (second, rest) ← takeFixed? 2 rest
  if hour < 24 ∧ minute < 60 ∧ second ≤ 60 then
    match rest with
    | '.' :: c :: cs =>
      if c.isDigit then return cs.dropWhile Char.isDigit else return rest
    | _ => return rest
  else none

/-- What follows the offset of a time from universal time. -/
def takeOffset? (cs : List Char) : Option (List Char) :=
  match cs with
  | c :: cs =>
    if c == 'Z' || c == 'z' then some cs
    else if c == '+' || c == '-' then do
      let (hour, rest) ← takeFixed? 2 cs
      let rest ← takeChar? ':' rest
      let (minute, rest) ← takeFixed? 2 rest
      if hour < 24 ∧ minute < 60 then return rest else none
    else none
  | [] => none

/-- What follows a date, a time, or both. -/
def takeMoment? (cs : List Char) : Option (List Char) :=
  match takeDate? cs with
  | none => takeTime? cs
  | some rest =>
    match rest with
    | c :: more =>
      if c == 'T' || c == 't' || c == ' ' then
        match takeTime? more with
        | some after => some ((takeOffset? after).getD after)
        | none => some rest
      else some rest
    | [] => some []

/-- What follows a number, a truth value or a date. -/
def takeScalar? (cs : List Char) : Option (List Char) :=
  match cs with
  | 't' :: 'r' :: 'u' :: 'e' :: rest => some rest
  | 'f' :: 'a' :: 'l' :: 's' :: 'e' :: rest => some rest
  | _ => (takeMoment? cs).or ((takeFloat? cs).or (takeInteger? cs))

end Wiring.Toml
