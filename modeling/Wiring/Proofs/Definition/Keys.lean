import Wiring.Definition.Scalar
import Wiring.Proofs.Number.Writing

/-!
The texts of scalars as keys. A text is its own key, so it can be that of any other scalar.
The words for nothing and for the truth values, the integers and the numbers with a point
are each told apart by their keys, and words are told from numbers by their first character.
What is left is an integer and a number with a point that are written alike.
-/

namespace Wiring.Scalar

/-- If the scalar is a float, it is a number. -/
def NotNaN (k : Scalar) : Prop := ∀ x, k = .float x → x.isNaN = false

def IsText (k : Scalar) : Prop := ∃ s, k = .text s

/-- Two scalars of different kinds have the same key: one of them is the text of the other,
or they are an integer and a float that are written alike. -/
inductive WrittenAlike : Scalar → Scalar → Prop where
  | textOf {k : Scalar} (hk : ¬ k.IsText) : WrittenAlike (.text k.key) k
  | withText {k : Scalar} (hk : ¬ k.IsText) : WrittenAlike k (.text k.key)
  | intFloat {n : Int64} {x : Binary64} (hsame : toString n.toInt = Layout.plain.write x) :
      WrittenAlike (.int n) (.float x)
  | floatInt {n : Int64} {x : Binary64} (hsame : toString n.toInt = Layout.plain.write x) :
      WrittenAlike (.float x) (.int n)

/-- Nothing and the truth values. -/
inductive IsWord : Scalar → Prop where
  | null : IsWord .null
  | bool (b : Bool) : IsWord (.bool b)

inductive IsNumber : Scalar → Prop where
  | int (n : Int64) : IsNumber (.int n)
  | float {x : Binary64} (hx : x.isNaN = false) : IsNumber (.float x)

variable {k l : Scalar}

theorem NotNaN.cases (hk : k.NotNaN) : k.IsWord ∨ k.IsNumber ∨ k.IsText := by
  cases k with
  | null => exact Or.inl .null
  | bool b => exact Or.inl (.bool b)
  | int n => exact Or.inr (Or.inl (.int n))
  | float x => exact Or.inr (Or.inl (.float (hk x rfl)))
  | text s => exact Or.inr (Or.inr ⟨s, rfl⟩)

theorem IsWord.not_isText (hk : k.IsWord) : ¬ k.IsText := by
  rintro ⟨s, rfl⟩
  cases hk

theorem IsNumber.not_isText (hk : k.IsNumber) : ¬ k.IsText := by
  rintro ⟨s, rfl⟩
  cases hk

/-- The characters that words begin with. -/
def wordHeads : List Char := ['N', 'T', 'F']

theorem IsWord.head_key (hk : k.IsWord) : ∃ c, k.key.toList.head? = some c ∧ c ∈ wordHeads := by
  cases hk with
  | null => exact ⟨'N', rfl, by decide⟩
  | bool b =>
    cases b with
    | false => exact ⟨'F', rfl, by decide⟩
    | true => exact ⟨'T', rfl, by decide⟩

theorem not_mem_wordHeads_of_isDigit {c : Char} (hc : c.isDigit = true) : c ∉ wordHeads := by
  intro hmem
  simp only [wordHeads, List.mem_cons, List.not_mem_nil, or_false] at hmem
  rcases hmem with rfl | rfl | rfl <;> cases hc

theorem head_signed (negative : Bool) {cs : List Char}
    (hcs : ∃ c, cs.head? = some c ∧ c ∉ wordHeads) :
    ∃ c, ((if negative then ['-'] else []) ++ cs).head? = some c ∧ c ∉ wordHeads := by
  cases negative with
  | false => exact hcs
  | true => exact ⟨'-', rfl, by decide⟩

theorem head_toString_int (z : Int) :
    ∃ c, (toString z).toList.head? = some c ∧ c ∉ wordHeads := by
  obtain ⟨c, hc, hdigit⟩ := Number.head_toDigits z.natAbs
  rw [Number.toList_toString_int]
  exact head_signed _ ⟨c, hc, not_mem_wordHeads_of_isDigit hdigit⟩

theorem head_plain_write {x : Binary64} (hx : x.isNaN = false) :
    ∃ c, (Layout.plain.write x).toList.head? = some c ∧ c ∉ wordHeads := by
  rw [Layout.write_plain hx, String.toList_ofList]
  apply head_signed
  cases hinfinite : x.isInfinite with
  | true =>
    rw [Layout.plainMagnitude_infinite hinfinite]
    exact ⟨'i', rfl, by decide⟩
  | false =>
    obtain ⟨c, hc, hdigit⟩ := (Layout.spells_plainMagnitude hinfinite).exists_head
    exact ⟨c, hc, not_mem_wordHeads_of_isDigit hdigit⟩

theorem IsNumber.head_key (hk : k.IsNumber) :
    ∃ c, k.key.toList.head? = some c ∧ c ∉ wordHeads := by
  cases hk with
  | int n => exact head_toString_int n.toInt
  | float hx => exact head_plain_write hx

theorem IsWord.key_ne (hk : k.IsWord) (hl : l.IsNumber) : k.key ≠ l.key := by
  obtain ⟨c, hc, hmem⟩ := hk.head_key
  obtain ⟨d, hd, hnot⟩ := hl.head_key
  intro hsame
  rw [hsame, hd] at hc
  cases hc
  exact hnot hmem

theorem IsWord.eq_of_key (hk : k.IsWord) (hl : l.IsWord) (hsame : k.key = l.key) : k = l := by
  rcases hk with _ | (_ | _) <;> rcases hl with _ | (_ | _) <;>
    first | rfl | exact absurd hsame (by decide)

theorem IsNumber.eq_or_writtenAlike (hk : k.IsNumber) (hl : l.IsNumber)
    (hsame : k.key = l.key) : k = l ∨ WrittenAlike k l := by
  cases hk with
  | int n =>
    cases hl with
    | int m => exact Or.inl (congrArg Scalar.int (Int64.toInt_inj.mp (Number.toString_int_inj hsame)))
    | float _ => exact Or.inr (.intFloat hsame)
  | float hx =>
    cases hl with
    | int m => exact Or.inr (.floatInt hsame.symm)
    | float hy => exact Or.inl (congrArg Scalar.float (Layout.plain_write_inj hx hy hsame))

theorem WrittenAlike.key_eq (h : WrittenAlike k l) : k.key = l.key := by
  cases h with
  | textOf | withText => rfl
  | intFloat hsame => exact hsame
  | floatInt hsame => exact hsame.symm

/-- Different scalars share a key in these cases and no others. -/
theorem key_eq_iff (hk : k.NotNaN) (hl : l.NotNaN) :
    k.key = l.key ↔ k = l ∨ WrittenAlike k l := by
  constructor
  · intro hsame
    rcases hk.cases with hkword | hknumber | ⟨s, rfl⟩
    · rcases hl.cases with hlword | hlnumber | ⟨t, rfl⟩
      · exact Or.inl (hkword.eq_of_key hlword hsame)
      · exact absurd hsame (hkword.key_ne hlnumber)
      · obtain rfl : k.key = t := hsame
        exact Or.inr (.withText hkword.not_isText)
    · rcases hl.cases with hlword | hlnumber | ⟨t, rfl⟩
      · exact absurd hsame.symm (hlword.key_ne hknumber)
      · exact hknumber.eq_or_writtenAlike hlnumber hsame
      · obtain rfl : k.key = t := hsame
        exact Or.inr (.withText hknumber.not_isText)
    · by_cases htext : l.IsText
      · obtain ⟨t, rfl⟩ := htext
        exact Or.inl (congrArg Scalar.text hsame)
      · obtain rfl : s = l.key := hsame
        exact Or.inr (.textOf htext)
  · rintro (rfl | halike)
    · rfl
    · exact halike.key_eq

end Wiring.Scalar
