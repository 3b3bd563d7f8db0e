import Wiring.Proofs.Expression.Canonical

/-!
Integers as expressions. The decimal text of an integer is the token of its digits, behind a
minus sign if it is negative. The token has no sign, so the digits alone decide whether they
are a number: they are one below 2^63. That holds for the digits of every word of 64 bits but
the least, whose opposite is no word.
-/

namespace Wiring.Expression

/-- Digits are a number as long as their value is a positive word or zero. -/
theorem wholeToken_toDigits (n : Nat) :
    wholeToken (Nat.toDigits 10 n) = if n < 2 ^ 63 then .int (Int64.ofNat n) else .unknown := by
  rw [wholeToken, Number.digitsValue_toDigits]
  rfl

theorem lexes_wholeToken (n : Nat) :
    Lexes (Nat.toDigits 10 n) [wholeToken (Nat.toDigits 10 n)] := by
  apply lexes_digits Nat.toDigits_ne_nil
  intro c hc
  exact Nat.isDigit_of_mem_toDigits (by decide) (by decide) hc

theorem lex_toString_natCast (n : Nat) :
    lex (toString (n : Int)).toList = [wholeToken (Nat.toDigits 10 n)] := by
  rw [Yaml.toList_toString_natCast]
  exact (lexes_wholeToken n).lex_eq

theorem lex_toString_neg {n : Nat} (hn : n ≠ 0) :
    lex (toString (-(n : Int))).toList = [.minus, wholeToken (Nat.toDigits 10 n)] := by
  rw [Yaml.toList_toString_neg hn]
  exact (Lexes.mark (c := '-') (by decide) (lexes_wholeToken n)).lex_eq

theorem derives_atom_iff (a : Atom) (e : Expression) :
    Derives a.tokens e ↔ e = .atom a.scalar := by
  constructor
  · intro h
    exact h.unique ⟨.atom a, rfl, rfl⟩
  · rintro rfl
    exact ⟨.atom a, rfl, rfl⟩

theorem not_derives_of_unknown {tokens : List Token} (hmem : .unknown ∈ tokens)
    (e : Expression) : ¬Derives tokens e := by
  intro h
  obtain ⟨last, hrun, -⟩ := (derives_iff_run tokens e).1 h
  rw [Progress.run_unsupported rfl hmem] at hrun
  cases hrun

theorem derives_whole_iff (n : Nat) (e : Expression) :
    Derives [wholeToken (Nat.toDigits 10 n)] e ↔
      n < 2 ^ 63 ∧ e = .atom (.int (Int64.ofNat n)) := by
  rw [wholeToken_toDigits]
  split
  · rename_i hn
    rw [show [Token.int (Int64.ofNat n)] = (Atom.int (Int64.ofNat n)).tokens from rfl,
      derives_atom_iff]
    exact (and_iff_right hn).symm
  · rename_i hn
    refine iff_of_false (not_derives_of_unknown (by simp) e) ?_
    exact fun h => hn h.1

theorem derives_negative_iff (n : Nat) (e : Expression) :
    Derives [.minus, wholeToken (Nat.toDigits 10 n)] e ↔
      n < 2 ^ 63 ∧ e = .atom (.int (-Int64.ofNat n)) := by
  rw [wholeToken_toDigits]
  split
  · rename_i hn
    rw [show [Token.minus, .int (Int64.ofNat n)] = (Atom.negativeInt (Int64.ofNat n)).tokens from
      rfl, derives_atom_iff]
    exact (and_iff_right hn).symm
  · rename_i hn
    refine iff_of_false (not_derives_of_unknown (by simp) e) ?_
    exact fun h => hn h.1

/-- The decimal text of an integer is read as that integer, if it lies between -2^63 and 2^63
and is neither of them, and is refused otherwise. -/
theorem parse_toString_ok_iff (k : Int) (e : Expression) :
    parse (toString k) = .ok e ↔
      ∃ n : Int64, n.toInt = k ∧ -2 ^ 63 < k ∧ e = .atom (.int n) := by
  have hread : parse (toString k) = .ok e ↔ Derives (lex (toString k).toList) e := by
    have hlist := parse_ofList_ok_iff (toString k).toList e
    rwa [String.ofList_toList] at hlist
  rw [hread]
  by_cases hk : k < 0
  · -- A negative integer is the opposite of what its digits say.
    obtain ⟨m, rfl⟩ : ∃ m : Nat, k = -(m : Int) := ⟨k.natAbs, by omega⟩
    rw [lex_toString_neg (by omega), derives_negative_iff]
    constructor
    · rintro ⟨hm, rfl⟩
      refine ⟨-Int64.ofNat m, Int64.toInt_neg_ofNat_of_le (by omega), by omega, rfl⟩
    · rintro ⟨n, hn, hleast, rfl⟩
      have hm : m < 2 ^ 63 := by omega
      refine ⟨hm, congrArg (fun n => Expression.atom (.int n)) ?_⟩
      rw [← Int64.toInt_inj, Int64.toInt_neg_ofNat_of_le (by omega), hn]
  · obtain ⟨m, rfl⟩ : ∃ m : Nat, k = m := ⟨k.natAbs, by omega⟩
    rw [lex_toString_natCast, derives_whole_iff]
    constructor
    · rintro ⟨hm, rfl⟩
      exact ⟨Int64.ofNat m, Int64.toInt_ofNat_of_lt hm, by omega, rfl⟩
    · rintro ⟨n, hn, -, rfl⟩
      have hm : m < 2 ^ 63 := by
        have hlt := n.toInt_lt
        omega
      refine ⟨hm, congrArg (fun n => Expression.atom (.int n)) ?_⟩
      rw [← Int64.toInt_inj, Int64.toInt_ofNat_of_lt hm, hn]

/-- Every word of 64 bits but the least is read from its decimal text. -/
theorem parse_decimal (n : Int64) :
    parse (toString n.toInt) = .ok (.atom (.int n)) ↔ n ≠ Int64.minValue := by
  have hle := n.le_toInt
  have hleast : n ≠ Int64.minValue ↔ -2 ^ 63 < n.toInt := by
    rw [Ne, ← Int64.toInt_inj, Int64.toInt_minValue]
    omega
  rw [parse_toString_ok_iff, hleast]
  constructor
  · rintro ⟨_, _, hbound, _⟩
    exact hbound
  · intro hbound
    exact ⟨n, rfl, hbound, rfl⟩

/-- The digits of the least word are no number, and are refused behind the minus sign. -/
theorem parse_least_refused :
    toString Int64.minValue.toInt = "-9223372036854775808" ∧
      parse "-9223372036854775808" = .error ⟨some .unknown, 1, 20, []⟩ := by
  have htokens : tokens "-9223372036854775808" = [⟨.minus, 0, 1⟩, ⟨.unknown, 1, 20⟩] := by
    decide +kernel
  refine ⟨rfl, ?_⟩
  rw [parse, htokens]
  rfl

end Wiring.Expression
