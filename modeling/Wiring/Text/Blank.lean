/-!
White space at the ends of a text, and comparison without regard to case. Tokens
written by hand are read after `trim`; what counts as blank is the Unicode
property White_Space, so a no-break space is blank and a zero-width space is not.
-/

namespace Wiring.Text

/-- The characters that have the Unicode property White_Space. -/
def isBlank (c : Char) : Bool :=
  let n := c.toNat
  (9 ≤ n && n ≤ 13) || n == 0x20 || n == 0x85 || n == 0xA0 || n == 0x1680
    || (0x2000 ≤ n && n ≤ 0x200A) || n == 0x2028 || n == 0x2029 || n == 0x202F
    || n == 0x205F || n == 0x3000

/-- A list of characters without the blanks at its start. -/
def dropBlank (cs : List Char) : List Char := cs.dropWhile isBlank

/-- A list of characters without the blanks at its end. -/
def dropBlankEnd (cs : List Char) : List Char := (dropBlank cs.reverse).reverse

/-- A text without the blanks at its start. -/
def trimStart (s : String) : String := String.ofList (dropBlank s.toList)

/-- A text without the blanks at both of its ends. -/
def trim (s : String) : String := String.ofList (dropBlankEnd (dropBlank s.toList))

def isAllBlank (s : String) : Bool := s.toList.all isBlank

/-- Two texts that differ at most in the case of ASCII letters. -/
def equalsIgnoringCase (a b : String) : Bool :=
  a.toList.map Char.toLower == b.toList.map Char.toLower

/-- The characters of a text up to its first line break. -/
def firstLine (s : String) : String := String.ofList (s.toList.takeWhile (· ≠ '\n'))

theorem isBlank_of_isWhitespace {c : Char} (h : c.isWhitespace) : isBlank c := by
  simp only [Char.isWhitespace, Bool.or_eq_true, decide_eq_true_eq] at h
  rcases h with ((h | h) | h) | h <;> subst h <;> rfl

theorem dropBlank_eq_nil_iff (cs : List Char) :
    dropBlank cs = [] ↔ ∀ c ∈ cs, isBlank c := by
  induction cs with
  | nil => simp [dropBlank]
  | cons c cs ih =>
    unfold dropBlank at ih ⊢
    by_cases h : isBlank c <;> simp [h, ih]

/-- A text is trimmed to nothing exactly if it holds blanks only. -/
theorem trim_eq_empty_iff (s : String) : trim s = "" ↔ isAllBlank s := by
  have rest : dropBlankEnd (dropBlank s.toList) = [] ↔ dropBlank s.toList = [] := by
    constructor
    · intro h
      cases hs : dropBlank s.toList with
      | nil => rfl
      | cons c cs =>
        have hall : ∀ x ∈ (dropBlank s.toList).reverse, isBlank x := by
          apply (dropBlank_eq_nil_iff _).1
          simpa [dropBlankEnd] using h
        have hc : isBlank c := hall c (by simp [hs])
        have hhead : ¬ isBlank c := by
          have := List.head?_dropWhile_not isBlank s.toList
          simp only [dropBlank] at hs
          simpa [hs] using this
        exact absurd hc hhead
    · intro h
      rw [h]
      rfl
  have ends : trim s = "" ↔ dropBlankEnd (dropBlank s.toList) = [] := by
    constructor
    · intro h
      have := congrArg String.toList h
      simpa [trim] using this
    · intro h
      simp [trim, h]
  rw [ends, rest, dropBlank_eq_nil_iff]
  simp [isAllBlank]

end Wiring.Text
