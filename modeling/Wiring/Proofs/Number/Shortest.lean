import Mathlib.Algebra.Order.Field.Power
import Mathlib.Algebra.Order.Field.Rat
import Mathlib.Tactic.FieldSimp
import Mathlib.Tactic.Linarith
import Mathlib.Tactic.Positivity
import Mathlib.Tactic.Ring
import Wiring.Number.Shortest

/-!
The shortest decimal of a number tells it from all others. The numbers of one sign are
counted by their magnitude, and between two neighbours stands the middle where rounding
turns from one to the other. The interval of a number reaches from middle to middle. Two
intervals share a middle at most, and of two neighbours only the even one takes it. The
search for a short decimal never leaves the interval, and at the latest with eighteen
digits it finds one in it.
-/

namespace Wiring

/-- A multiple of a power with an integer exponent, written as a ratio of natural numbers. -/
theorem ratio_toNat (b c : ℕ) (z : ℤ) :
    ((c * b ^ z.toNat : ℕ) : ℚ) / (b ^ (-z).toNat : ℕ) = c * (b : ℚ) ^ z := by
  push_cast
  rcases Int.le_total 0 z with hz | hz
  · obtain ⟨n, rfl⟩ := Int.eq_ofNat_of_zero_le hz
    simp
  · obtain ⟨n, hn⟩ := Int.eq_ofNat_of_zero_le (Int.neg_nonneg_of_nonpos hz)
    obtain rfl : z = -(n : ℤ) := by omega
    simp [div_eq_mul_inv]

namespace Decimal

/-- The rational number that a decimal is. -/
def value (d : Decimal) : ℚ := d.digits * 10 ^ d.exponent

theorem value_dropZeros (fuel : ℕ) (d : Decimal) : (d.dropZeros fuel).value = d.value := by
  induction fuel generalizing d with
  | zero => rfl
  | succ fuel ih =>
    rw [dropZeros]
    split
    · rename_i hzero
      have hdigits : d.digits = 10 * (d.digits / 10) := by omega
      have hcast : (d.digits : ℚ) = 10 * (d.digits / 10 : ℕ) := by exact_mod_cast hdigits
      have hpow : (10 : ℚ) ^ (d.exponent + 1) = 10 ^ d.exponent * 10 :=
        zpow_add_one₀ (by norm_num) d.exponent
      rw [ih, value, value, hcast, hpow]
      ring
    · rfl

end Decimal

namespace Binary64

/-! Magnitudes and the middles between them. -/

/-- The significand of the numbers of a magnitude. -/
def significandAt (k : ℕ) : ℕ := if k / 2 ^ 52 = 0 then k % 2 ^ 52 else 2 ^ 52 + k % 2 ^ 52

/-- A quarter of the distance from a magnitude to the next one, as a power of two. -/
def quarterAt (k : ℕ) : ℚ := 2 ^ ((max (k / 2 ^ 52) 1 : ℕ) - 1077 : ℤ)

/-- The middle between the numbers of a magnitude and of the next one. -/
def middle (k : ℕ) : ℚ := (4 * significandAt k + 2) * quarterAt k

theorem quarterAt_pos (k : ℕ) : 0 < quarterAt k := by
  exact zpow_pos two_pos _

/-- How many quarters it is from a magnitude down to the middle before it. -/
def quartersBelow (k : ℕ) : ℕ := if k % 2 ^ 52 = 0 ∧ 1 < k / 2 ^ 52 then 1 else 2

theorem quartersBelow_le {k : ℕ} (hk : 0 < k) : quartersBelow k ≤ 4 * significandAt k := by
  unfold quartersBelow significandAt
  split <;> split <;> omega

/-- Further magnitudes of an exponent are a place above the one before. -/
theorem middle_pred_of_later {k : ℕ} (hlater : 0 < k % 2 ^ 52) :
    middle (k - 1) = (4 * significandAt k - quartersBelow k) * quarterAt k := by
  have hfield : (k - 1) / 2 ^ 52 = k / 2 ^ 52 := by omega
  have hfraction : (k - 1) % 2 ^ 52 = k % 2 ^ 52 - 1 := by omega
  have hsignificand : significandAt k = significandAt (k - 1) + 1 := by
    rw [significandAt, significandAt, hfield, hfraction]
    split <;> omega
  have hbelow : quartersBelow k = 2 := if_neg (by omega)
  rw [middle, quarterAt, quarterAt, hfield, hsignificand, hbelow]
  push_cast
  ring

/-- The first magnitude of an exponent is half a place above the one before, or a whole one if
that is subnormal. -/
theorem middle_pred_of_first {k : ℕ} (hk : 0 < k) (hfirst : k % 2 ^ 52 = 0) :
    middle (k - 1) = (4 * significandAt k - quartersBelow k) * quarterAt k := by
  have hfield : (k - 1) / 2 ^ 52 = k / 2 ^ 52 - 1 := by omega
  have hfraction : (k - 1) % 2 ^ 52 = 2 ^ 52 - 1 := by omega
  have hsignificand : significandAt k = 2 ^ 52 := by
    rw [significandAt, if_neg (by omega), hfirst, Nat.add_zero]
  rcases Nat.lt_or_ge 1 (k / 2 ^ 52) with hnormal | hleast
  · have hexponent : ((max (k / 2 ^ 52) 1 : ℕ) - 1077 : ℤ) =
        1 + ((max ((k - 1) / 2 ^ 52) 1 : ℕ) - 1077 : ℤ) := by omega
    have hdouble : quarterAt k = 2 * quarterAt (k - 1) := by
      rw [quarterAt, quarterAt, hexponent, zpow_one_add₀ two_ne_zero]
    have hbefore : significandAt (k - 1) = 2 ^ 53 - 1 := by
      rw [significandAt, if_neg (by omega), hfraction]
      norm_num
    have hbelow : quartersBelow k = 1 := if_pos ⟨hfirst, hnormal⟩
    rw [middle, hdouble, hsignificand, hbefore, hbelow]
    push_cast
    ring
  · have hsame : quarterAt k = quarterAt (k - 1) := by
      have hexponent : max (k / 2 ^ 52) 1 = max ((k - 1) / 2 ^ 52) 1 := by omega
      rw [quarterAt, quarterAt, hexponent]
    have hbefore : significandAt (k - 1) = 2 ^ 52 - 1 := by
      rw [significandAt, if_pos (by omega), hfraction]
    have hbelow : quartersBelow k = 2 := if_neg (by omega)
    rw [middle, hsame, hsignificand, hbefore, hbelow]
    push_cast
    ring

theorem middle_pred {k : ℕ} (hk : 0 < k) :
    middle (k - 1) = (4 * significandAt k - quartersBelow k) * quarterAt k := by
  rcases Nat.eq_zero_or_pos (k % 2 ^ 52) with hfirst | hlater
  · exact middle_pred_of_first hk hfirst
  · exact middle_pred_of_later hlater

theorem middle_lt_succ (k : ℕ) : middle k < middle (k + 1) := by
  have hpred := middle_pred k.succ_pos
  rw [Nat.succ_sub_one] at hpred
  rw [hpred, middle]
  have hquarter := quarterAt_pos (k + 1)
  have hbelow : (0 : ℚ) ≤ quartersBelow (k + 1) := by positivity
  nlinarith

theorem middle_strictMono : StrictMono middle := strictMono_nat_of_lt_succ middle_lt_succ

/-! Intervals. -/

namespace Rounding

variable (r : Rounding)

def start : ℚ := r.low / r.denominator

def center : ℚ := r.value / r.denominator

def stop : ℚ := r.high / r.denominator

/-- A number lies in the interval. -/
structure Has (q : ℚ) : Prop where
  start_le : r.start ≤ q
  le_stop : q ≤ r.stop
  closed_of_end : q = r.start ∨ q = r.stop → r.closed = true

variable {r} {num den : ℕ}

theorem has_of_contains (hr : 0 < r.denominator) (hden : 0 < den)
    (hcontains : r.contains num den = true) : r.Has (num / den) := by
  have hr' : (0 : ℚ) < r.denominator := by exact_mod_cast hr
  have hden' : (0 : ℚ) < den := by exact_mod_cast hden
  rw [contains] at hcontains
  split at hcontains
  · rename_i hclosed
    rw [Bool.and_eq_true, decide_eq_true_eq, decide_eq_true_eq] at hcontains
    obtain ⟨hlow, hhigh⟩ := hcontains
    constructor
    · rw [start, div_le_div_iff₀ hr' hden']
      exact_mod_cast hlow
    · rw [stop, div_le_div_iff₀ hden' hr']
      exact_mod_cast hhigh
    · exact fun _ => hclosed
  · rw [Bool.and_eq_true, decide_eq_true_eq, decide_eq_true_eq] at hcontains
    obtain ⟨hlow, hhigh⟩ := hcontains
    have hstart : r.start < num / den := by
      rw [start, div_lt_div_iff₀ hr' hden']
      exact_mod_cast hlow
    have hstop : (num / den : ℚ) < r.stop := by
      rw [stop, div_lt_div_iff₀ hden' hr']
      exact_mod_cast hhigh
    refine ⟨hstart.le, hstop.le, ?_⟩
    rintro (hend | hend)
    · exact absurd hend hstart.ne'
    · exact absurd hend hstop.ne

theorem contains_of_between (hr : 0 < r.denominator) (hden : 0 < den)
    (hstart : r.start < num / den) (hstop : (num / den : ℚ) < r.stop) :
    r.contains num den = true := by
  have hr' : (0 : ℚ) < r.denominator := by exact_mod_cast hr
  have hden' : (0 : ℚ) < den := by exact_mod_cast hden
  rw [start, div_lt_div_iff₀ hr' hden'] at hstart
  rw [stop, div_lt_div_iff₀ hden' hr'] at hstop
  have hlow : r.low * den < num * r.denominator := by exact_mod_cast hstart
  have hhigh : num * r.denominator < r.high * den := by exact_mod_cast hstop
  rw [contains]
  split
  · simp [hlow.le, hhigh.le]
  · simp [hlow, hhigh]

end Rounding

/-! Grids. -/

/-- Rounding misses a ratio by a half at most. -/
theorem roundDiv_near (num : ℕ) {den : ℕ} (hden : 0 < den) :
    |(roundDiv num den : ℚ) - num / den| ≤ 1 / 2 := by
  have hden' : (0 : ℚ) < den := by exact_mod_cast hden
  have hratio : (num : ℚ) / den = (num / den : ℕ) + (num % den : ℕ) / den := by
    have hsplit : (num : ℚ) = den * (num / den : ℕ) + (num % den : ℕ) := by
      exact_mod_cast (Nat.div_add_mod num den).symm
    rw [div_eq_iff hden'.ne', add_mul, div_mul_cancel₀ _ hden'.ne']
    linarith
  have hrest : (0 : ℚ) ≤ (num % den : ℕ) / den := by positivity
  rw [hratio, roundDiv]
  by_cases hsmall : 2 * (num % den) < den
  · have hhalf : ((num % den : ℕ) : ℚ) / den ≤ 1 / 2 := by
      rw [div_le_div_iff₀ hden' two_pos]
      exact_mod_cast (by omega : num % den * 2 ≤ 1 * den)
    rw [if_pos hsmall, abs_le]
    constructor <;> linarith
  · have hhalf : 1 / 2 ≤ ((num % den : ℕ) : ℚ) / den := by
      rw [div_le_div_iff₀ two_pos hden']
      exact_mod_cast (by omega : 1 * den ≤ num % den * 2)
    have hlast : ((num % den : ℕ) : ℚ) / den ≤ 1 := by
      rw [div_le_one hden']
      exact_mod_cast (Nat.mod_lt num hden).le
    rw [if_neg hsmall]
    by_cases hlarge : den < 2 * (num % den)
    · rw [if_pos hlarge, abs_le]
      push_cast
      constructor <;> linarith
    · have hmiddle : ((num % den : ℕ) : ℚ) / den = 1 / 2 := by
        rw [div_eq_div_iff hden'.ne' two_ne_zero]
        exact_mod_cast (by omega : num % den * 2 = 1 * den)
      rw [if_neg hlarge, hmiddle]
      split
      · norm_num
      · push_cast
        norm_num

namespace Rounding

variable {r : Rounding} {place : ℤ}

theorem onGrid?_has (hr : 0 < r.denominator) {d : Decimal} (hd : r.onGrid? place = some d) :
    r.Has d.value := by
  have hpoint (digits : ℕ)
      (hcontains : r.contains (digits * 10 ^ place.toNat) (10 ^ (-place).toNat) = true) :
      r.Has (Decimal.value ⟨digits, place⟩) := by
    rw [Decimal.value, ← Nat.cast_ofNat, ← ratio_toNat]
    exact has_of_contains hr (Nat.pow_pos (by omega)) hcontains
  unfold onGrid? at hd
  extract_lets up down num den nearest floor other at hd
  split at hd
  · rename_i hnearest
    cases hd
    exact hpoint _ hnearest.2
  · split at hd
    · rename_i hother
      cases hd
      exact hpoint _ hother.2
    · cases hd

/-- A grid that is narrow enough has a point in the interval. -/
theorem onGrid?_isSome (hr : 0 < r.denominator) (hpositive : 0 < r.start)
    (hbelow : 10 ^ place < 2 * (r.center - r.start))
    (habove : 10 ^ place < 2 * (r.stop - r.center)) : (r.onGrid? place).isSome := by
  have hr' : (0 : ℚ) < r.denominator := by exact_mod_cast hr
  have hup : (0 : ℚ) < 10 ^ place := zpow_pos (by norm_num) place
  unfold onGrid?
  extract_lets up down num den nearest floor other
  have hdown : 0 < down := Nat.pow_pos (by omega)
  have hden : 0 < den := Nat.mul_pos hr (Nat.pow_pos (by omega))
  have hpoint : ((nearest * up : ℕ) : ℚ) / down = Decimal.value ⟨nearest, place⟩ :=
    ratio_toNat 10 nearest place
  have hscaled : (num : ℚ) / den * 10 ^ place = r.center := by
    have hratio : ((1 * up : ℕ) : ℚ) / down = (1 : ℕ) * (10 : ℕ) ^ place := ratio_toNat 10 1 place
    have hup' : (0 : ℚ) < up := by exact_mod_cast Nat.pow_pos (by omega)
    have hdown' : (0 : ℚ) < down := by exact_mod_cast hdown
    rw [Nat.one_mul, Nat.cast_one, one_mul, Nat.cast_ofNat] at hratio
    rw [← hratio, Nat.cast_mul, Nat.cast_mul, center]
    field_simp
  have hnear : |Decimal.value ⟨nearest, place⟩ - r.center| ≤ 10 ^ place / 2 := by
    have hround := roundDiv_near num hden
    rw [Decimal.value, ← hscaled, ← sub_mul, abs_mul, abs_of_pos hup]
    nlinarith
  obtain ⟨hleft, hright⟩ := abs_le.mp hnear
  have hcontains : r.contains (nearest * up) down = true := by
    apply contains_of_between hr hdown
    · rw [hpoint]
      linarith
    · rw [hpoint]
      linarith
  have hne : nearest ≠ 0 := by
    intro hzero
    rw [hzero, Decimal.value, Nat.cast_zero, zero_mul] at hleft
    linarith
  rw [if_pos ⟨hne, hcontains⟩]
  rfl

/-- A search that comes to a grid with a hit ends in the interval. -/
theorem search_has (hr : 0 < r.denominator) (leading : ℤ) {count last fuel : ℕ}
    (hhit : (r.onGrid? (leading - last + 1)).isSome) (hle : count ≤ last)
    (hlt : last < count + fuel) : r.Has (r.search leading count fuel).value := by
  induction fuel generalizing count with
  | zero => omega
  | succ fuel ih =>
    rw [search]
    split
    · rename_i d hd
      exact onGrid?_has hr hd
    · rename_i hnone
      have hne : count ≠ last := by
        rintro rfl
        rw [hnone] at hhit
        cases hhit
      exact ih (by omega) (by omega)

end Rounding

theorem lt_pow_length_toDigits (n : ℕ) : n < 10 ^ (Nat.toDigits 10 n).length :=
  (Nat.length_toDigits_le_iff (by decide) Nat.length_toDigits_pos).mp le_rfl

theorem pow_length_toDigits_le {n : ℕ} (hn : 0 < n) :
    10 ^ ((Nat.toDigits 10 n).length - 1) ≤ n := by
  rcases Nat.eq_zero_or_pos ((Nat.toDigits 10 n).length - 1) with hone | hmore
  · rw [hone, pow_zero]
    exact hn
  · by_contra hlt
    have hshort := (Nat.length_toDigits_le_iff (by decide) hmore).mpr (Nat.lt_of_not_le hlt)
    omega

/-- The first decimal digit of a ratio does not stand too high. -/
theorem leadingExponent_le {num den : ℕ} (hnum : 0 < num) (hden : 0 < den) :
    (10 : ℚ) ^ leadingExponent num den ≤ num / den := by
  have hden' : (0 : ℚ) < den := by exact_mod_cast hden
  rw [leadingExponent]
  split
  · have hpow := pow_length_toDigits_le (Nat.div_pos ‹_› hden)
    have hexponent : ((Nat.toDigits 10 (num / den)).length : ℤ) - 1 =
        ((Nat.toDigits 10 (num / den)).length - 1 : ℕ) := by
      rw [Nat.cast_sub Nat.length_toDigits_pos, Nat.cast_one]
    rw [hexponent, zpow_natCast, le_div_iff₀ hden']
    exact_mod_cast (Nat.le_div_iff_mul_le hden).mp hpow
  · have hpow := lt_pow_length_toDigits ((den + num - 1) / num - 1)
    generalize (Nat.toDigits 10 ((den + num - 1) / num - 1)).length = length at hpow ⊢
    have hceil : (den + num - 1) / num ≤ 10 ^ length := by omega
    have hmul : den ≤ num * 10 ^ length := by
      have hsplit := Nat.div_add_mod (den + num - 1) num
      have hrest := Nat.mod_lt (den + num - 1) hnum
      have hgrow := Nat.mul_le_mul_left num hceil
      omega
    rw [zpow_neg, zpow_natCast, ← one_div, div_le_div_iff₀ (by positivity) hden', one_mul]
    exact_mod_cast hmul

/-! Numbers. -/

theorem significandAt_lt (k : ℕ) : significandAt k < 2 ^ 53 := by
  unfold significandAt
  split <;> omega

theorem significandAt_pos {k : ℕ} (hk : 0 < k) : 0 < significandAt k := by
  unfold significandAt
  split <;> omega

theorem significandAt_parity (k : ℕ) : significandAt k % 2 = k % 2 := by
  unfold significandAt
  split <;> omega

section

variable {x y : Binary64}

theorem isZero_eq_false_iff : x.isZero = false ↔ 0 < x.magnitude := by
  rw [isZero, beq_eq_false_iff_ne, Nat.pos_iff_ne_zero]

theorem two_pow_scale (x : Binary64) : (2 : ℚ) ^ (x.scale - 2) = quarterAt x.magnitude := by
  have hexponent : x.scale - 2 = ((max (x.magnitude / 2 ^ 52) 1 : ℕ) : ℤ) - 1077 := by
    rw [scale, exponentField, Nat.pow_eq]
    split <;> omega
  rw [quarterAt, hexponent]

/-- A number of quarters over the denominator of an interval. -/
theorem quarters_div_denominator (x : Binary64) (c : ℕ) :
    ((c * 2 ^ (x.scale - 2).toNat : ℕ) : ℚ) / x.rounding.denominator =
      c * quarterAt x.magnitude := by
  have hdenominator : x.rounding.denominator = 2 ^ (-(x.scale - 2)).toNat := by
    rw [neg_sub]
    rfl
  rw [hdenominator, ratio_toNat, Nat.cast_ofNat, two_pow_scale]

theorem denominator_pos (x : Binary64) : 0 < x.rounding.denominator := Nat.pow_pos (by decide)

theorem start_rounding (hx : x.isZero = false) : x.rounding.start = middle (x.magnitude - 1) := by
  have hk := isZero_eq_false_iff.mp hx
  have hcast : ((4 * significandAt x.magnitude - quartersBelow x.magnitude : ℕ) : ℚ) =
      4 * significandAt x.magnitude - quartersBelow x.magnitude := by
    rw [Nat.cast_sub (quartersBelow_le hk), Nat.cast_mul, Nat.cast_ofNat]
  rw [middle_pred hk, ← hcast]
  exact quarters_div_denominator x _

theorem center_rounding (x : Binary64) :
    x.rounding.center = 4 * significandAt x.magnitude * quarterAt x.magnitude := by
  have hcast : ((4 * significandAt x.magnitude : ℕ) : ℚ) = 4 * significandAt x.magnitude := by
    rw [Nat.cast_mul, Nat.cast_ofNat]
  rw [← hcast]
  exact quarters_div_denominator x _

theorem stop_rounding (x : Binary64) : x.rounding.stop = middle x.magnitude := by
  have hcast : ((4 * significandAt x.magnitude + 2 : ℕ) : ℚ) =
      4 * significandAt x.magnitude + 2 := by
    push_cast
    rfl
  rw [middle, ← hcast]
  exact quarters_div_denominator x _

theorem closed_rounding (x : Binary64) :
    x.rounding.closed = true ↔ x.magnitude % 2 = 0 := by
  rw [← significandAt_parity]
  exact decide_eq_true_iff

theorem start_pos (hx : x.isZero = false) : 0 < x.rounding.start := by
  have hquarter := quarterAt_pos (x.magnitude - 1)
  rw [start_rounding hx, middle]
  positivity

theorem onGrid?_rounding (hx : x.isZero = false) {place : ℤ}
    (hnarrow : (10 : ℚ) ^ place < 2 * quarterAt x.magnitude) :
    (x.rounding.onGrid? place).isSome := by
  have hk := isZero_eq_false_iff.mp hx
  have hquarter := quarterAt_pos x.magnitude
  have hbelow : (1 : ℚ) ≤ quartersBelow x.magnitude := by
    unfold quartersBelow
    split <;> norm_num
  apply Rounding.onGrid?_isSome (denominator_pos x) (start_pos hx)
  · rw [start_rounding hx, center_rounding, middle_pred hk]
    nlinarith
  · rw [stop_rounding, center_rounding, middle]
    nlinarith

/-- The shortest decimal of a number lies in its interval. -/
theorem shortest_has (hx : x.isZero = false) : x.rounding.Has x.shortest.value := by
  have hr := denominator_pos x
  have hvalue : 0 < x.rounding.value := Nat.mul_pos
    (Nat.mul_pos (by decide) (significandAt_pos (isZero_eq_false_iff.mp hx)))
    (Nat.pow_pos (by decide))
  have hleading : (10 : ℚ) ^ leadingExponent x.rounding.value x.rounding.denominator ≤
      x.rounding.center := leadingExponent_le hvalue hr
  rw [center_rounding] at hleading
  rw [shortest, Decimal.value_dropZeros]
  generalize leadingExponent x.rounding.value x.rounding.denominator = leading at hleading ⊢
  -- With eighteen digits the points of the grid lie closer than the ends of the interval.
  have hnarrow : (10 : ℚ) ^ (leading - (18 : ℕ) + 1) < 2 * quarterAt x.magnitude := by
    have hexponent : leading - (18 : ℕ) + 1 = leading - (17 : ℕ) := by omega
    have hquarter := quarterAt_pos x.magnitude
    have hsignificand : (significandAt x.magnitude : ℚ) < 2 ^ 53 := by
      exact_mod_cast significandAt_lt x.magnitude
    rw [hexponent, zpow_sub₀ (by norm_num), zpow_natCast, div_lt_iff₀ (by positivity)]
    nlinarith
  exact Rounding.search_has hr leading (onGrid?_rounding hx hnarrow) (by decide) (by decide)

theorem shortest_pos (hx : x.isZero = false) : 0 < x.shortest.value :=
  (start_pos hx).trans_le (shortest_has hx).start_le

/-- An interval ends where those of all larger magnitudes begin, or before. If both take the
end, the magnitudes would be even neighbours. -/
theorem not_lt_of_has {q : ℚ} (hy : y.isZero = false) (hxq : x.rounding.Has q)
    (hyq : y.rounding.Has q) : ¬ x.magnitude < y.magnitude := by
  intro hlt
  have hstop := hxq.le_stop
  have hstart := hyq.start_le
  rw [stop_rounding] at hstop
  rw [start_rounding hy] at hstart
  have hle : middle x.magnitude ≤ middle (y.magnitude - 1) :=
    middle_strictMono.monotone (by omega)
  have hneighbours : x.magnitude = y.magnitude - 1 :=
    middle_strictMono.injective (le_antisymm hle (hstart.trans hstop))
  have hxeven : x.magnitude % 2 = 0 := by
    refine (closed_rounding x).mp (hxq.closed_of_end (Or.inr ?_))
    rw [stop_rounding]
    exact le_antisymm hstop (hle.trans hstart)
  have hyeven : y.magnitude % 2 = 0 := by
    refine (closed_rounding y).mp (hyq.closed_of_end (Or.inl ?_))
    rw [start_rounding hy]
    exact le_antisymm (hstop.trans hle) hstart
  omega

/-- Numbers of one sign with the same shortest decimal are the same. -/
theorem magnitude_eq_of_shortest (hx : x.isZero = false) (hy : y.isZero = false)
    (hsame : x.shortest.value = y.shortest.value) : x.magnitude = y.magnitude := by
  have hxq := shortest_has hx
  have hyq := shortest_has hy
  rw [hsame] at hxq
  have hxy := not_lt_of_has hy hxq hyq
  have hyx := not_lt_of_has hx hyq hxq
  omega

theorem eq_of_parts (hsign : x.isNegative = y.isNegative)
    (hmagnitude : x.magnitude = y.magnitude) : x = y := by
  obtain ⟨a⟩ := x
  obtain ⟨b⟩ := y
  rw [isNegative, isNegative, decide_eq_decide, Nat.pow_eq] at hsign
  rw [magnitude, magnitude, Nat.pow_eq] at hmagnitude
  have ha := a.toNat_lt
  have hb := b.toNat_lt
  have hbits : a.toNat = b.toNat := by
    dsimp only at hsign hmagnitude
    omega
  rw [UInt64.toNat_inj.mp hbits]

end

end Binary64

end Wiring
