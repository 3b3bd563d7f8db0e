import Wiring.Yaml.Schema

/-!
Integers in structured text and their spellings. An integer is written back in decimal,
so of all its spellings the plain decimal one alone survives: no plus sign, no mark of a
base, and no sign on a zero.
-/

namespace Wiring

namespace Number

theorem digitValue_lt {c : Char} (hc : c.isDigit) : digitValue c < 10 := by
  simp only [Char.isDigit, Bool.and_eq_true, decide_eq_true_eq, ge_iff_le,
    UInt32.le_iff_toNat_le] at hc
  change 48 ≤ c.toNat ∧ c.toNat ≤ 57 at hc
  change c.toNat - 48 < 10
  omega

theorem digitChar_digitValue {c : Char} (hc : c.isDigit) : Nat.digitChar (digitValue c) = c := by
  have hlt := digitValue_lt hc
  simp only [Char.isDigit, Bool.and_eq_true, decide_eq_true_eq, ge_iff_le,
    UInt32.le_iff_toNat_le] at hc
  change 48 ≤ c.toNat ∧ c.toNat ≤ 57 at hc
  have hvalue : digitValue c = c.toNat - 48 := rfl
  apply Char.toNat_inj.mp
  rw [Nat.toNat_digitChar_of_lt_ten hlt, hvalue]
  omega

theorem digitsValue_eq_ofDigitChars (cs : List Char) :
    digitsValue cs = Nat.ofDigitChars 10 cs 0 := by
  rw [Nat.ofDigitChars_eq_foldl]
  rfl

theorem digitsValue_toDigits (n : Nat) : digitsValue (Nat.toDigits 10 n) = n := by
  rw [digitsValue_eq_ofDigitChars, Nat.ofDigitChars_ten_toDigits]

/-- Digits that follow those of a positive number are the last ones of a number. -/
theorem toDigits_append {cs : List Char} (hdigits : ∀ c ∈ cs, c.isDigit) {value : Nat}
    (hvalue : 0 < value) :
    Nat.toDigits 10 value ++ cs =
      Nat.toDigits 10 (cs.foldl (fun value c => 10 * value + digitValue c) value) := by
  induction cs generalizing value with
  | nil => simp
  | cons c cs ih =>
    obtain ⟨hc, hcs⟩ := List.forall_mem_cons.mp hdigits
    have hlt := digitValue_lt hc
    have hnext := Nat.toDigits_append_toDigits (b := 10) (d := digitValue c) (by decide) hvalue hlt
    rw [Nat.toDigits_of_lt_base hlt, digitChar_digitValue hc] at hnext
    have hgrown : 0 < 10 * value + digitValue c := by omega
    have hrest := ih hcs hgrown
    rw [List.foldl_cons, ← hrest, ← hnext, List.append_assoc, List.singleton_append]

/-- Digits are those of their value, unless a zero is put in front of others. -/
theorem toDigits_digitsValue {cs : List Char} (hdigits : ∀ c ∈ cs, c.isDigit) (hne : cs ≠ [])
    (hzero : cs.head? = some '0' → cs = ['0']) : Nat.toDigits 10 (digitsValue cs) = cs := by
  cases cs with
  | nil => exact absurd rfl hne
  | cons c cs =>
    obtain ⟨hc, hcs⟩ := List.forall_mem_cons.mp hdigits
    by_cases hfirst : c = '0'
    · subst hfirst
      rw [hzero rfl]
      rfl
    · have hpositive : 0 < digitValue c := by
        rcases Nat.eq_zero_or_pos (digitValue c) with hnone | hsome
        · have hsame := digitChar_digitValue hc
          rw [hnone] at hsame
          exact absurd hsame.symm hfirst
        · exact hsome
      have hdigit := Nat.toDigits_of_lt_base (digitValue_lt hc)
      rw [digitChar_digitValue hc] at hdigit
      have happend := toDigits_append hcs hpositive
      rw [hdigit, List.singleton_append] at happend
      have hvalue : digitsValue (c :: cs) =
          cs.foldl (fun value c => 10 * value + digitValue c) (digitValue c) := by
        simp [digitsValue]
      rw [hvalue]
      exact happend.symm

/-- Decimal digits have a value in base ten, and nothing else has one. -/
theorem digitsInBase?_ten {cs : List Char} (hdigits : ∀ c ∈ cs, c.isDigit) (hne : cs ≠ []) :
    digitsInBase? 10 cs = some (digitsValue cs) := by
  have hfold : ∀ (cs : List Char) (value : Nat), (∀ c ∈ cs, c.isDigit) →
      cs.foldl (fun value? c => do
        let value ← value?
        let digit ← hexValue? c
        if digit < 10 then some (10 * value + digit) else none) (some value) =
      some (cs.foldl (fun value c => 10 * value + digitValue c) value) := by
    intro cs
    induction cs with
    | nil => exact fun value _ => rfl
    | cons c cs ih =>
      intro value hdigits
      obtain ⟨hc, hcs⟩ := List.forall_mem_cons.mp hdigits
      have hstep := ih (10 * value + digitValue c) hcs
      simpa [List.foldl_cons, hexValue?, hc, digitValue_lt hc] using hstep
  have hempty : cs.isEmpty = false := by simpa using hne
  rw [digitsInBase?, hempty]
  exact hfold cs 0 hdigits

end Number

namespace Yaml

/-- Digits, after a minus sign if they are not just a zero. -/
def IsPlainDecimal (s : String) : Prop :=
  ∃ digits : List Char, (∀ c ∈ digits, c.isDigit) ∧
    (s.toList = digits ∨ (s.toList = '-' :: digits ∧ digits ≠ ['0']))

/-- A text is not digits behind a zero that nothing needs. -/
def HasNoNeedlessZero (cs : List Char) : Prop :=
  ∀ c rest, cs = '0' :: c :: rest → ¬ (c :: rest).all Char.isDigit

theorem magnitude?_of_digits {cs : List Char} (hdigits : ∀ c ∈ cs, c.isDigit) :
    magnitude? cs = Number.digitsInBase? 10 cs := by
  have hmark (c : Char) (hc : c.isDigit = false) (rest : List Char) : cs ≠ '0' :: c :: rest := by
    rintro rfl
    have hdigit := hdigits c (by simp)
    rw [hc] at hdigit
    cases hdigit
  unfold magnitude?
  split
  · exact absurd rfl (hmark 'x' (by decide) _)
  · exact absurd rfl (hmark 'o' (by decide) _)
  · exact absurd rfl (hmark 'b' (by decide) _)
  · rfl

/-- The magnitude of a text without a needless zero is written as that text exactly if the
text is digits. -/
theorem toDigits_magnitude_iff {cs : List Char} {m : Nat} (hm : magnitude? cs = some m)
    (hzero : HasNoNeedlessZero cs) :
    Nat.toDigits 10 m = cs ↔ ∀ c ∈ cs, c.isDigit := by
  constructor
  · rintro rfl
    exact fun c hc => Nat.isDigit_of_mem_toDigits (by decide) (by decide) hc
  · intro hdigits
    have hne : cs ≠ [] := by
      rintro rfl
      simp [magnitude?, Number.digitsInBase?] at hm
    have hfirst : cs.head? = some '0' → cs = ['0'] := by
      intro hhead
      obtain ⟨rest, rfl⟩ := List.head?_eq_some_iff.mp hhead
      cases rest with
      | nil => rfl
      | cons c rest =>
        refine absurd ?_ (hzero c rest rfl)
        exact List.all_eq_true.mpr fun d hd => hdigits d (List.mem_cons_of_mem _ hd)
    rw [magnitude?_of_digits hdigits, Number.digitsInBase?_ten hdigits hne] at hm
    rw [← Option.some.inj hm]
    exact Number.toDigits_digitsValue hdigits hne hfirst

theorem toList_toString_natCast (m : Nat) : (toString (m : Int)).toList = Nat.toDigits 10 m := by
  change (toString m).toList = _
  rw [Nat.toString_eq_ofList_toDigits, String.toList_ofList]

theorem toList_toString_neg {m : Nat} (hm : m ≠ 0) :
    (toString (-(m : Int))).toList = '-' :: Nat.toDigits 10 m := by
  obtain ⟨n, rfl⟩ := Nat.exists_eq_succ_of_ne_zero hm
  change ("-" ++ toString (n + 1)).toList = _
  rw [String.toList_append, Nat.toString_eq_ofList_toDigits, String.toList_ofList]
  simp

theorem takeSign_cases (cs : List Char) :
    (∃ rest, cs = '-' :: rest ∧ takeSign cs = (some '-', rest)) ∨
      (∃ rest, cs = '+' :: rest ∧ takeSign cs = (some '+', rest)) ∨
      (takeSign cs = (none, cs) ∧ ∀ rest, cs ≠ '-' :: rest) := by
  unfold takeSign
  split
  · exact Or.inr (Or.inl ⟨_, rfl, rfl⟩)
  · exact Or.inl ⟨_, rfl, rfl⟩
  · rename_i hminus
    exact Or.inr (Or.inr ⟨rfl, hminus⟩)

/-- An integer is a magnitude behind a minus sign, behind a plus sign or without a sign. -/
theorem integer?_cases {s : String} {k : Int} (hk : integer? s = some k) :
    (∃ cs m, s.toList = '-' :: cs ∧ HasNoNeedlessZero cs ∧ magnitude? cs = some m ∧ k = -m) ∨
      (∃ cs m, s.toList = '+' :: cs ∧ magnitude? cs = some m ∧ k = m) ∨
      ∃ m, (∀ cs, s.toList ≠ '-' :: cs) ∧ HasNoNeedlessZero s.toList ∧
        magnitude? s.toList = some m ∧ k = m := by
  rw [integer?] at hk
  split at hk
  · cases hk
  rename_i hleading
  have hzero : HasNoNeedlessZero (takeSign s.toList).2 := by
    intro c rest hrest hall
    rw [hasLeadingZero, hrest] at hleading
    exact hleading hall
  rcases takeSign_cases s.toList with ⟨cs, hs, hsign⟩ | ⟨cs, hs, hsign⟩ | ⟨hsign, hs⟩
  · rw [hsign] at hk hzero
    obtain ⟨m, hm, rfl⟩ := Option.map_eq_some_iff.mp hk
    obtain ⟨n, hn, hcast⟩ := Option.bind_eq_some_iff.mp hm
    cases hcast
    exact Or.inl ⟨cs, n, hs, hzero, hn, rfl⟩
  · rw [hsign] at hk
    obtain ⟨m, hm, rfl⟩ := Option.map_eq_some_iff.mp hk
    obtain ⟨n, hn, hcast⟩ := Option.bind_eq_some_iff.mp hm
    cases hcast
    exact Or.inr (Or.inl ⟨cs, n, hs, hn, rfl⟩)
  · rw [hsign] at hk hzero
    obtain ⟨m, hm, rfl⟩ := Option.map_eq_some_iff.mp hk
    obtain ⟨n, hn, hcast⟩ := Option.bind_eq_some_iff.mp hm
    cases hcast
    exact Or.inr (Or.inr ⟨n, hs, hzero, hn, rfl⟩)

/-- An integer is written back as it was spelled exactly if that is a plain decimal. -/
theorem toString_integer_iff {s : String} {k : Int} (hk : integer? s = some k) :
    toString k = s ↔ IsPlainDecimal s := by
  have hplus : '+'.isDigit = false := by decide
  have hminus : '-'.isDigit = false := by decide
  have hdigits (m : Nat) : ∀ c ∈ Nat.toDigits 10 m, c.isDigit :=
    fun c hc => Nat.isDigit_of_mem_toDigits (by decide) (by decide) hc
  rw [← String.toList_inj, IsPlainDecimal]
  rcases integer?_cases hk with ⟨cs, m, hs, hzero, hm, rfl⟩ | ⟨cs, m, hs, hm, rfl⟩ |
    ⟨m, hs, hzero, hm, rfl⟩
  · -- A minus sign stays, except on a zero.
    have hiff := toDigits_magnitude_iff hm hzero
    have hplain : (∃ digits : List Char, (∀ c ∈ digits, c.isDigit) ∧
        (s.toList = digits ∨ (s.toList = '-' :: digits ∧ digits ≠ ['0']))) ↔
          Nat.toDigits 10 m = cs ∧ cs ≠ ['0'] := by
      rw [hiff, hs]
      constructor
      · rintro ⟨digits, hall, rfl | ⟨hsame, hne⟩⟩
        · simp [hminus] at hall
        · obtain rfl : cs = digits := by simpa using hsame
          exact ⟨hall, hne⟩
      · rintro ⟨hall, hne⟩
        exact ⟨cs, hall, Or.inr ⟨rfl, hne⟩⟩
    rw [hplain, hs]
    by_cases hm0 : m = 0
    · subst hm0
      have hnot : (toString (-((0 : Nat) : Int))).toList ≠ '-' :: cs := by
        intro hsame
        have hfirst := congrArg List.head? hsame
        cases hfirst
      refine iff_of_false hnot ?_
      rintro ⟨rfl, hne⟩
      exact hne rfl
    · rw [toList_toString_neg hm0, List.cons.injEq]
      constructor
      · rintro ⟨-, rfl⟩
        refine ⟨rfl, fun hdigit => hm0 ?_⟩
        have hvalue := congrArg (fun digits => Nat.ofDigitChars 10 digits 0) hdigit
        rwa [Nat.ofDigitChars_ten_toDigits] at hvalue
      · rintro ⟨hsame, -⟩
        exact ⟨rfl, hsame⟩
  · -- A plus sign is dropped.
    rw [toList_toString_natCast, hs]
    refine iff_of_false (fun hsame => ?_) ?_
    · have hfirst := hdigits m '+' (by simp [hsame])
      rw [hplus] at hfirst
      cases hfirst
    · rintro ⟨digits, hall, rfl | ⟨hsame, -⟩⟩
      · simp [hplus] at hall
      · simp at hsame
  · -- Without a sign there are only digits to compare.
    rw [toList_toString_natCast, toDigits_magnitude_iff hm hzero]
    constructor
    · exact fun hall => ⟨s.toList, hall, Or.inl rfl⟩
    · rintro ⟨digits, hall, rfl | ⟨hsame, -⟩⟩
      · exact hall
      · exact absurd hsame (hs digits)

/-- A plain scalar that is an integer is one of those that can be stored. -/
theorem integer?_of_plainValue? {s : String} {k : Int}
    (hvalue : plainValue? s = some (.number (.int k))) : integer? s = some k := by
  unfold plainValue? at hvalue
  split at hvalue
  · cases hvalue
  split at hvalue
  · cases hvalue
  obtain ⟨value?, hinteger, hvalue⟩ := Option.bind_eq_some_iff.mp hvalue
  cases value? with
  | some value =>
    cases hvalue
    unfold integerValue? at hinteger
    split at hinteger
    · rename_i n hn
      split at hinteger
      · cases hinteger
        exact hn
      · split at hinteger <;> cases hinteger
    · cases hinteger
  | none =>
    dsimp only at hvalue
    split at hvalue
    · cases hvalue
    · split at hvalue <;> cases hvalue

end Yaml

end Wiring
