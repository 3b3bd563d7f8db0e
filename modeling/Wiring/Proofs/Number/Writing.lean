import Wiring.Number.Layout
import Wiring.Proofs.Number.Digits
import Wiring.Proofs.Number.Shortest

/-!
Numbers as they are written without an exponent part: digits with a point or none, behind a
sign. Such a text spells one rational number. What is written of a number with a point spells
its shortest decimal, so different numbers are written differently, and the two zeros are by
their signs.
-/

namespace Wiring

namespace Number

/-- A text of digits, with a point behind the first of them or later or without one, spells
a rational number. -/
inductive Spells : List Char → ℚ → Prop where
  | whole {digits : List Char} (hdigits : ∀ c ∈ digits, c.isDigit) (hne : digits ≠ []) :
      Spells digits (digitsValue digits)
  | fraction {digits fraction : List Char} (hdigits : ∀ c ∈ digits, c.isDigit)
      (hne : digits ≠ []) :
      Spells (digits ++ '.' :: fraction)
        (digitsValue (digits ++ fraction) / 10 ^ fraction.length)

namespace Spells

variable {cs : List Char} {p q : ℚ}

theorem takeWhile_digits {digits : List Char} (hdigits : ∀ c ∈ digits, c.isDigit)
    (fraction : List Char) :
    (digits ++ '.' :: fraction).takeWhile Char.isDigit = digits := by
  rw [List.takeWhile_append_of_pos hdigits, List.takeWhile_cons_of_neg (by decide),
    List.append_nil]

/-- Digits alone have no point among them. -/
theorem digits_ne_fraction {digits : List Char} (hdigits : ∀ c ∈ digits, c.isDigit)
    (front fraction : List Char) : digits ≠ front ++ '.' :: fraction := by
  rintro rfl
  have hpoint : '.'.isDigit = true := hdigits '.' (by simp)
  cases hpoint

theorem unique (hp : Spells cs p) (hq : Spells cs q) : p = q := by
  cases hp with
  | whole hdigits _ =>
    cases hq with
    | whole => rfl
    | fraction => exact absurd rfl (digits_ne_fraction hdigits _ _)
  | @fraction digits fraction hdigits _ =>
    generalize hcs : digits ++ '.' :: fraction = cs at hq
    cases hq with
    | whole hdigits' _ => exact absurd hcs.symm (digits_ne_fraction hdigits' _ _)
    | @fraction digits' fraction' hdigits' _ =>
      have hfront := congrArg (List.takeWhile Char.isDigit) hcs
      rw [takeWhile_digits hdigits, takeWhile_digits hdigits'] at hfront
      subst hfront
      obtain rfl : fraction = fraction' := by simpa using hcs
      rfl

theorem exists_head (hspells : Spells cs q) : ∃ c, cs.head? = some c ∧ c.isDigit := by
  cases hspells with
  | whole hdigits hne =>
    obtain ⟨c, rest, rfl⟩ := List.exists_cons_of_ne_nil hne
    exact ⟨c, rfl, hdigits c List.mem_cons_self⟩
  | fraction hdigits hne =>
    obtain ⟨c, rest, rfl⟩ := List.exists_cons_of_ne_nil hne
    exact ⟨c, rfl, hdigits c List.mem_cons_self⟩

end Spells

theorem digitsValue_append_zeros (cs : List Char) (n : ℕ) :
    digitsValue (cs ++ List.replicate n '0') = digitsValue cs * 10 ^ n := by
  induction n with
  | zero => simp
  | succ n ih =>
    rw [List.replicate_succ', ← List.append_assoc, digitsValue, List.foldl_append,
      ← digitsValue, ih, pow_succ]
    change 10 * (digitsValue cs * 10 ^ n) + 0 = _
    ring

theorem digitsValue_zeros_append (n : ℕ) (cs : List Char) :
    digitsValue (List.replicate n '0' ++ cs) = digitsValue cs := by
  induction n with
  | zero => rfl
  | succ n ih => exact ih

/-! Signs. -/

/-- A sign is told from what follows it. -/
theorem sign_append_inj {a b : Bool} {cs ds : List Char} (hcs : cs.head? ≠ some '-')
    (hds : ds.head? ≠ some '-')
    (hsame : (if a then ['-'] else []) ++ cs = (if b then ['-'] else []) ++ ds) :
    a = b ∧ cs = ds := by
  cases a <;> cases b
  case false.false => exact ⟨rfl, hsame⟩
  case false.true =>
    obtain rfl : cs = '-' :: ds := hsame
    exact absurd rfl hcs
  case true.false =>
    obtain rfl : '-' :: cs = ds := hsame
    exact absurd rfl hds
  case true.true => exact ⟨rfl, List.cons_inj_right '-' |>.mp hsame⟩

theorem isDigit_of_mem_toDigits {n : ℕ} {c : Char} (hc : c ∈ Nat.toDigits 10 n) :
    c.isDigit = true :=
  Nat.isDigit_of_mem_toDigits (by decide) (by decide) hc

theorem head_toDigits (n : ℕ) : ∃ c, (Nat.toDigits 10 n).head? = some c ∧ c.isDigit = true :=
  (Spells.whole (fun _ hc => isDigit_of_mem_toDigits hc) Nat.toDigits_ne_nil).exists_head

theorem head_ne_minus_of_isDigit {cs : List Char}
    (hcs : ∃ c, cs.head? = some c ∧ c.isDigit = true) : cs.head? ≠ some '-' := by
  obtain ⟨c, hhead, hdigit⟩ := hcs
  rw [hhead]
  rintro ⟨⟩
  cases hdigit

theorem toList_toString_int (z : ℤ) :
    (toString z).toList =
      (if decide (z < 0) then ['-'] else []) ++ Nat.toDigits 10 z.natAbs := by
  rcases Int.lt_or_le z 0 with hz | hz
  · obtain ⟨n, rfl⟩ := Int.eq_negSucc_of_lt_zero hz
    rw [decide_eq_true hz]
    exact Yaml.toList_toString_neg n.succ_ne_zero
  · obtain ⟨n, rfl⟩ := Int.eq_ofNat_of_zero_le hz
    rw [Yaml.toList_toString_natCast]
    simp

/-- Different integers are written differently. -/
theorem toString_int_inj {z w : ℤ} (hsame : toString z = toString w) : z = w := by
  have hlists := congrArg String.toList hsame
  rw [toList_toString_int, toList_toString_int] at hlists
  obtain ⟨hsign, hmagnitude⟩ := sign_append_inj (head_ne_minus_of_isDigit (head_toDigits _))
    (head_ne_minus_of_isDigit (head_toDigits _)) hlists
  have hvalue := congrArg digitsValue hmagnitude
  rw [digitsValue_toDigits, digitsValue_toDigits] at hvalue
  rw [decide_eq_decide] at hsign
  omega

end Number

namespace Layout

open Number

/-! The three places of the point: behind all digits, among them and in front of them. -/

theorem spells_whole (n k : ℕ) :
    Spells (Nat.toDigits 10 n ++ List.replicate k '0') (n * 10 ^ k) := by
  have hdigits : ∀ c ∈ Nat.toDigits 10 n ++ List.replicate k '0', c.isDigit := by
    intro c hc
    rcases List.mem_append.mp hc with hc | hc
    · exact isDigit_of_mem_toDigits hc
    · rw [List.eq_of_mem_replicate hc]
      rfl
  have hspells := Spells.whole hdigits (by simp)
  rwa [digitsValue_append_zeros, digitsValue_toDigits, Nat.cast_mul, Nat.cast_pow,
    Nat.cast_ofNat] at hspells

theorem spells_point_among {n k : ℕ} (hlt : k < (Nat.toDigits 10 n).length) :
    Spells ((Nat.toDigits 10 n).take ((Nat.toDigits 10 n).length - k) ++
      '.' :: (Nat.toDigits 10 n).drop ((Nat.toDigits 10 n).length - k)) (n / 10 ^ k) := by
  have hfront : (Nat.toDigits 10 n).take ((Nat.toDigits 10 n).length - k) ≠ [] := by
    rw [Ne, List.take_eq_nil_iff, not_or]
    exact ⟨by omega, Nat.toDigits_ne_nil⟩
  have hspells : Spells ((Nat.toDigits 10 n).take ((Nat.toDigits 10 n).length - k) ++
      '.' :: (Nat.toDigits 10 n).drop ((Nat.toDigits 10 n).length - k)) _ :=
    .fraction (fun c hc => isDigit_of_mem_toDigits (List.mem_of_mem_take hc)) hfront
  rw [List.take_append_drop, digitsValue_toDigits, List.length_drop] at hspells
  rwa [Nat.sub_sub_self hlt.le] at hspells

theorem spells_point_in_front {n k : ℕ} (hle : (Nat.toDigits 10 n).length ≤ k) :
    Spells ('0' :: '.' ::
      (List.replicate (k - (Nat.toDigits 10 n).length) '0' ++ Nat.toDigits 10 n))
      (n / 10 ^ k) := by
  obtain ⟨zeros, rfl⟩ := Nat.exists_eq_add_of_le' hle
  have hspells : Spells (['0'] ++ '.' ::
      (List.replicate zeros '0' ++ Nat.toDigits 10 n)) _ :=
    .fraction (by simp) (by simp)
  have hsame : ['0'] ++ (List.replicate zeros '0' ++ Nat.toDigits 10 n) =
      List.replicate (zeros + 1) '0' ++ Nat.toDigits 10 n := rfl
  rw [hsame, digitsValue_zeros_append, digitsValue_toDigits, List.length_append,
    List.length_replicate] at hspells
  rwa [Nat.add_sub_cancel]

theorem spells_positionalText (d : Decimal) : Spells (positionalText "" d) d.value := by
  obtain ⟨n, exponent⟩ := d
  rw [positionalText, Decimal.value]
  dsimp only
  split
  · rename_i hwhole
    obtain ⟨k, rfl⟩ := Int.eq_ofNat_of_zero_le hwhole
    simpa using spells_whole n k
  · rename_i hneg
    obtain ⟨k, rfl⟩ : ∃ k : ℕ, exponent = -k := ⟨(-exponent).toNat, by omega⟩
    have hvalue : (n : ℚ) * 10 ^ (-(k : ℤ)) = n / 10 ^ k := by
      rw [zpow_neg, zpow_natCast, div_eq_mul_inv]
    rw [hvalue, neg_neg, Int.toNat_natCast]
    split
    · exact spells_point_among ‹_›
    · exact spells_point_in_front (Nat.le_of_not_lt ‹_›)

/-- The text of a number in the plain layout, without its sign. -/
def plainMagnitude (x : Binary64) : List Char :=
  if x.isInfinite then "inf".toList
  else if x.isZero then ['0']
  else positionalText "" x.shortest

theorem write_plain {x : Binary64} (hx : x.isNaN = false) :
    plain.write x =
      String.ofList ((if x.isNegative then ['-'] else []) ++ plainMagnitude x) := by
  simp [write, hx, plain, plainMagnitude]

/-- What a finite number is written as without its sign spells zero or its shortest decimal. -/
theorem spells_plainMagnitude {x : Binary64} (hfinite : x.isInfinite = false) :
    Spells (plainMagnitude x) (if x.isZero then 0 else x.shortest.value) := by
  have hzero : Spells ['0'] (digitsValue ['0']) := .whole (by simp) (by simp)
  rw [plainMagnitude, hfinite, if_neg Bool.false_ne_true]
  split
  · simpa [digitsValue, digitValue] using hzero
  · exact spells_positionalText x.shortest

theorem plainMagnitude_infinite {x : Binary64} (hinfinite : x.isInfinite = true) :
    plainMagnitude x = "inf".toList := by
  rw [plainMagnitude, if_pos hinfinite]

theorem head_plainMagnitude (x : Binary64) : (plainMagnitude x).head? ≠ some '-' := by
  cases hinfinite : x.isInfinite with
  | true =>
    rw [plainMagnitude_infinite hinfinite]
    decide
  | false => exact head_ne_minus_of_isDigit (spells_plainMagnitude hinfinite).exists_head

/-- Words are not digits. -/
theorem plainMagnitude_ne {x y : Binary64} (hx : x.isInfinite = true)
    (hy : y.isInfinite = false) : plainMagnitude x ≠ plainMagnitude y := by
  intro hsame
  obtain ⟨c, hhead, hdigit⟩ := (spells_plainMagnitude hy).exists_head
  rw [← hsame, plainMagnitude_infinite hx] at hhead
  cases hhead
  cases hdigit

theorem magnitude_eq_of_plainMagnitude {x y : Binary64}
    (hsame : plainMagnitude x = plainMagnitude y) : x.magnitude = y.magnitude := by
  cases hx : x.isInfinite <;> cases hy : y.isInfinite
  case true.true =>
    rw [Binary64.isInfinite, beq_iff_eq] at hx hy
    rw [hx, hy]
  case true.false => exact absurd hsame (plainMagnitude_ne hx hy)
  case false.true => exact absurd hsame.symm (plainMagnitude_ne hy hx)
  case false.false =>
    have hxspells := spells_plainMagnitude hx
    have hvalue := (hsame ▸ hxspells).unique (spells_plainMagnitude hy)
    cases hxzero : x.isZero <;> cases hyzero : y.isZero <;> simp only [hxzero, hyzero] at hvalue
    case false.false => exact Binary64.magnitude_eq_of_shortest hxzero hyzero hvalue
    case false.true => exact absurd hvalue (Binary64.shortest_pos hxzero).ne'
    case true.false => exact absurd hvalue.symm (Binary64.shortest_pos hyzero).ne'
    case true.true =>
      rw [Binary64.isZero, beq_iff_eq] at hxzero hyzero
      rw [hxzero, hyzero]

/-- In the plain layout different numbers are written differently. -/
theorem plain_write_inj {x y : Binary64} (hx : x.isNaN = false) (hy : y.isNaN = false)
    (hsame : plain.write x = plain.write y) : x = y := by
  rw [write_plain hx, write_plain hy] at hsame
  obtain ⟨hsign, htext⟩ := sign_append_inj (head_plainMagnitude x) (head_plainMagnitude y)
    (String.ofList_injective hsame)
  exact Binary64.eq_of_parts hsign (magnitude_eq_of_plainMagnitude htext)

end Layout

end Wiring
