import Mathlib.Algebra.Ring.Int.Defs
import Mathlib.Algebra.Ring.Nat
import Wiring.Proofs.Expression.Grammar
import Wiring.Proofs.Number.Digits
import Wiring.Expression.Lexeme

/-!
How pieces of text are split into tokens. The tokens of a text do not depend on where it
stands, and a piece keeps its tokens in front of anything that cannot go on a word or a
number. A quoted text is one token, whatever stands between its quotes.
-/

namespace Wiring.Expression

theorem tokensAt_cons {c : Char} (hc : isSeparator c = false) (position : Nat) (cs : List Char) :
    tokensAt position (c :: cs) =
      ⟨(Lexeme.read c cs).token, position, position + byteLength (Lexeme.read c cs).text⟩ ::
        tokensAt (position + byteLength (Lexeme.read c cs).text) (Lexeme.read c cs).rest := by
  rw [tokensAt, if_neg (by simp [hc])]

/-- The tokens of characters, without their places. -/
def lex (cs : List Char) : List Token := (tokensAt 0 cs).map SpannedToken.token

theorem map_token_tokensAt (position : Nat) (cs : List Char) :
    (tokensAt position cs).map SpannedToken.token = lex cs := by
  suffices h : ∀ position other : Nat,
      (tokensAt position cs).map SpannedToken.token =
        (tokensAt other cs).map SpannedToken.token from h position 0
  intro position other
  induction position, cs using tokensAt.induct generalizing other with
  | case1 position => simp [tokensAt]
  | case2 position c cs hseparator ih =>
    rw [tokensAt, tokensAt, if_pos hseparator, if_pos hseparator]
    exact ih _
  | case3 position c cs hseparator lexeme hle stop ih =>
    rw [tokensAt, tokensAt, if_neg hseparator, if_neg hseparator]
    exact congrArg (lexeme.token :: ·) (ih _)

@[simp] theorem lex_nil : lex [] = [] := by
  simp [lex, tokensAt]

theorem lex_cons_of_isSeparator {c : Char} (hc : isSeparator c = true) (cs : List Char) :
    lex (c :: cs) = lex cs := by
  rw [lex, tokensAt, if_pos hc, map_token_tokensAt]

theorem lex_cons {c : Char} (hc : isSeparator c = false) (cs : List Char) :
    lex (c :: cs) = (Lexeme.read c cs).token :: lex (Lexeme.read c cs).rest := by
  rw [lex, tokensAt_cons hc, List.map_cons, map_token_tokensAt]

/-- No word and no number goes on with a character. -/
def Breaks (c : Char) : Prop := isNamePart c = false ∧ c ≠ '.'

instance (c : Char) : Decidable (Breaks c) := inferInstanceAs (Decidable (_ ∧ _))

/-- No word and no number goes on with some characters. -/
def Stops (rest : List Char) : Prop := ∀ c ∈ rest.head?, Breaks c

theorem stops_nil : Stops [] := by
  intro c hc
  cases hc

theorem stops_cons {c : Char} (hc : Breaks c) (rest : List Char) : Stops (c :: rest) := by
  intro d hd
  obtain rfl : c = d := Option.some.inj hd
  exact hc

/-- A class of characters that a word or a number goes on with ends at a stop. -/
theorem span_of_stops {inside : Char → Bool}
    (hclass : ∀ c, inside c = true → isNamePart c = true) {body rest : List Char}
    (hbody : ∀ c ∈ body, inside c = true) (hrest : Stops rest) :
    (body ++ rest).takeWhile inside = body ∧ (body ++ rest).dropWhile inside = rest := by
  rw [List.takeWhile_append_of_pos hbody, List.dropWhile_append_of_pos hbody]
  cases rest with
  | nil => simp
  | cons c rest =>
    have hc := (hrest c rfl).1
    have hout : inside c = false := by
      cases h : inside c with
      | false => rfl
      | true => rw [hclass c h] at hc; cases hc
    simp [hout]

/-- A piece of text has some tokens, whatever follows that stops it. -/
def Lexes (text : List Char) (tokens : List Token) : Prop :=
  ∀ rest, Stops rest → lex (text ++ rest) = tokens ++ lex rest

namespace Lexes

variable {text more : List Char} {tokens others : List Token}

theorem lex_eq (h : Lexes text tokens) : lex text = tokens := by
  have hnil := h [] stops_nil
  simpa using hnil

theorem nil : Lexes [] [] := by
  intro rest _
  rfl

theorem append {c : Char} (h : Lexes text tokens) (hc : Breaks c)
    (hmore : Lexes (c :: more) others) : Lexes (text ++ c :: more) (tokens ++ others) := by
  intro rest hrest
  have htail := h (c :: more ++ rest) (stops_cons hc _)
  rw [List.append_assoc, htail, hmore rest hrest, List.append_assoc]

theorem space (h : Lexes text tokens) : Lexes (' ' :: text) tokens := by
  intro rest hrest
  rw [List.cons_append, lex_cons_of_isSeparator (by decide), h rest hrest]

end Lexes

/-! Marks. -/

/-- The characters that are tokens on their own. -/
def marks : List Char := ['-', '(', ')', '[', ']', '\x7b', '\x7d', ',', ':', '.']

theorem read_mark {c : Char} (hc : c ∈ marks) (cs : List Char) :
    isSeparator c = false ∧ Lexeme.read c cs = ⟨markToken c, [c], cs⟩ := by
  have hall : marks.all fun d => decide (isSeparator d = false ∧ isNameStart d = false ∧
      d.isDigit = false ∧ ¬(d = '"' ∨ d = '\'')) := by decide
  have hclass := of_decide_eq_true (List.all_eq_true.mp hall c hc)
  obtain ⟨hseparator, hname, hdigit, hquote⟩ := hclass
  refine ⟨hseparator, ?_⟩
  simp [Lexeme.read, hname, hdigit, hquote]

theorem Lexes.mark {c : Char} (hc : c ∈ marks) {text : List Char} {tokens : List Token}
    (h : Lexes text tokens) : Lexes (c :: text) (markToken c :: tokens) := by
  intro rest hrest
  obtain ⟨hseparator, hread⟩ := read_mark hc (text ++ rest)
  rw [List.cons_append, lex_cons hseparator, hread, h rest hrest]
  rfl

/-! Words. -/

theorem lexes_word {c : Char} (hc : isNameStart c = true) (body : List Char)
    (hbody : ∀ d ∈ body, isNamePart d = true) :
    Lexes (c :: body) [wordToken (c :: body)] := by
  intro rest hrest
  obtain ⟨htake, hdrop⟩ := span_of_stops (fun _ h => h) hbody hrest
  have hseparator : isSeparator c = false := by
    cases hcase : isSeparator c with
    | false => rfl
    | true =>
      simp only [isSeparator, Bool.or_eq_true, beq_iff_eq] at hcase
      rcases hcase with ((rfl | rfl) | rfl) | rfl <;> cases hc
  rw [List.cons_append, lex_cons hseparator, Lexeme.read, if_pos hc, Lexeme.ofName, htake, hdrop]
  rfl

/-! Numbers. -/

theorem isNamePart_of_isDigit {c : Char} (hc : c.isDigit = true) : isNamePart c = true := by
  simp [isNamePart, Char.isAlphanum, hc]

/-- A digit begins neither a word nor a gap. -/
theorem isNameStart_of_isDigit {c : Char} (hc : c.isDigit = true) :
    isSeparator c = false ∧ isNameStart c = false := by
  simp only [Char.isDigit, Bool.and_eq_true, decide_eq_true_eq, ge_iff_le,
    UInt32.le_iff_toNat_le] at hc
  change 48 ≤ c.toNat ∧ c.toNat ≤ 57 at hc
  have hne : ∀ d : Char, d.toNat < 48 ∨ 57 < d.toNat → (c == d) = false := by
    intro d hd
    rw [beq_eq_false_iff_ne]
    rintro rfl
    omega
  have halpha : c.isAlpha = false := by
    change (decide (65 ≤ c.val ∧ c.val ≤ 90) ||
      decide (97 ≤ c.val) && decide (c.val ≤ 122)) = false
    simp only [Bool.or_eq_false_iff, Bool.and_eq_false_iff, decide_eq_false_iff_not,
      UInt32.le_iff_toNat_le]
    change ¬(65 ≤ c.toNat ∧ c.toNat ≤ 90) ∧ (¬97 ≤ c.toNat ∨ ¬c.toNat ≤ 122)
    omega
  simp [isSeparator, isNameStart, halpha, hne]

theorem lexes_digits {digits : List Char} (hne : digits ≠ [])
    (hdigits : ∀ c ∈ digits, c.isDigit = true) : Lexes digits [wholeToken digits] := by
  obtain ⟨c, body, rfl⟩ := List.exists_cons_of_ne_nil hne
  intro rest hrest
  have hc := hdigits c List.mem_cons_self
  have hbody : ∀ d ∈ body, d.isDigit = true := fun d hd => hdigits d (List.mem_cons_of_mem c hd)
  obtain ⟨htake, hdrop⟩ := span_of_stops (fun _ => isNamePart_of_isDigit) hbody hrest
  obtain ⟨hseparator, hname⟩ := isNameStart_of_isDigit hc
  have hread : Lexeme.read c (body ++ rest) = ⟨wholeToken (c :: body), c :: body, rest⟩ := by
    simp only [Lexeme.read, hname, hc, Lexeme.ofDigit, Number.spanDigits, htake, hdrop]
    cases rest with
    | nil => rfl
    | cons d rest =>
      have hdot : d ≠ '.' := (hrest d rfl).2
      simp [hdot]
  rw [List.cons_append, lex_cons hseparator, hread]
  rfl

/-- A number below 2^63 in decimal digits. -/
theorem lexes_toDigits {n : Nat} (hn : n < 2 ^ 63) :
    Lexes (Nat.toDigits 10 n) [.int (Int64.ofNat n)] := by
  have hdigits := lexes_digits (Nat.toDigits_ne_nil (n := n) (b := 10))
    (fun c hc => Nat.isDigit_of_mem_toDigits (by decide) (by decide) hc)
  have htoken : wholeToken (Nat.toDigits 10 n) = .int (Int64.ofNat n) := by
    rw [wholeToken, Number.digitsValue_toDigits]
    exact if_pos hn
  rwa [htoken] at hdigits

/-! Quoted texts. -/

def IsQuote (c : Char) : Prop := c = '"' ∨ c = '\''

/-- A text as it stands between quotes: a backslash before each backslash and before each
quote of that kind, and all else as it is. -/
def escape (quote : Char) (s : List Char) : List Char :=
  s.flatMap fun c => if c = '\\' ∨ c = quote then ['\\', c] else [c]

/-- An unquoted, unescaped character stands for itself. -/
theorem read_cons {quote c : Char} (hslash : c ≠ '\\') (hplain : c ≠ quote) (cs : List Char) :
    Quotation.read quote (c :: cs) = (Quotation.read quote cs).after [c] := by
  rw [Quotation.read.eq_def]
  simp [hslash, hplain]

/-- A backslash takes the character behind it along. -/
theorem read_pair {quote d : Char} (hslash : '\\' ≠ quote) (hline : d ≠ '\n')
    (cs : List Char) :
    Quotation.read quote ('\\' :: d :: cs) = (Quotation.read quote cs).after ['\\', d] := by
  rw [Quotation.read.eq_def]
  simp [hslash, hline]

theorem unescape_cons {c : Char} (hslash : c ≠ '\\') (cs : List Char) :
    unescape (c :: cs) = c :: unescape cs := by
  rw [unescape.eq_def]
  cases cs <;> simp [hslash]

section

variable {quote : Char} (hquote : IsQuote quote)
include hquote

/-- An escaped text is read up to the quote behind it. -/
theorem read_escape (s rest : List Char) :
    Quotation.read quote (escape quote s ++ quote :: rest) = ⟨escape quote s, true, rest⟩ := by
  have hslash : '\\' ≠ quote := by
    rcases hquote with rfl | rfl <;> decide
  have hbreak : quote ≠ '\n' := by
    rcases hquote with rfl | rfl <;> decide
  induction s with
  | nil =>
    rw [Quotation.read.eq_def]
    simp [escape]
  | cons c s ih =>
    simp only [escape, List.flatMap_cons, List.append_assoc] at ih ⊢
    by_cases hc : c = '\\' ∨ c = quote
    · have hline : c ≠ '\n' := by
        rcases hc with rfl | rfl
        · decide
        · exact hbreak
      simp [hc, Quotation.read, hslash, hline, ih, Quotation.after]
    · obtain ⟨hother, hplain⟩ := not_or.1 hc
      rw [if_neg hc, List.cons_append, List.nil_append, read_cons hother hplain, ih]
      rfl

theorem unescape_escape (s : List Char) : unescape (escape quote s) = s := by
  induction s with
  | nil => rfl
  | cons c s ih =>
    simp only [escape, List.flatMap_cons] at ih ⊢
    by_cases hc : c = '\\' ∨ c = quote
    · have hescaped : escaped? c = some c := by
        rcases hc with rfl | rfl
        · rfl
        · rcases hquote with rfl | rfl <;> rfl
      simp [hc, unescape, hescaped, ih]
    · rw [if_neg hc, List.cons_append, List.nil_append, unescape_cons (not_or.1 hc).1, ih]

theorem Lexeme.read_quote (cs : List Char) :
    isSeparator quote = false ∧ Lexeme.read quote cs = Lexeme.ofQuote quote cs := by
  rcases hquote with rfl | rfl <;> exact ⟨rfl, rfl⟩

/-- A quoted text is the token of that text. -/
theorem lexes_quoted (s : List Char) :
    Lexes (quote :: (escape quote s ++ [quote])) [.text (String.ofList s)] := by
  intro rest _
  have hquotation := read_escape hquote s rest
  obtain ⟨hseparator, hread⟩ := Lexeme.read_quote hquote (escape quote s ++ quote :: rest)
  rw [List.cons_append, List.append_assoc, List.cons_append, List.nil_append,
    lex_cons hseparator, hread]
  simp [Lexeme.ofQuote, hquotation, unescape_escape hquote s]

end

end Wiring.Expression
