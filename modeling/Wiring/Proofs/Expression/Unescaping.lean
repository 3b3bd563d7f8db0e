import Mathlib.Computability.Language
import Wiring.Proofs.Expression.Spans

/-!
What stands between the quotes of a string. The rule that matches a string lets its body be
read in one way only, as plain characters and pairs of a backslash and a character. Reading
the body round by round follows that split to its end, so that a backslash is never left
without a character behind it.
-/

namespace Wiring.Expression

/-- One character between quotes of a kind, which is neither such a quote nor a backslash. -/
def plainRule (quote : Char) : Language Char :=
  {cs : List Char | ∃ c, c ≠ quote ∧ c ≠ '\\' ∧ cs = [c]}

/-- A backslash and any character but a line break. -/
def pairRule : Language Char :=
  {cs : List Char | ∃ c, c ≠ '\n' ∧ cs = ['\\', c]}

/-- The rule for a string, `"([^"\\]|\\.)*"` between double quotes. -/
def stringRule (quote : Char) : Language Char :=
  {[quote]} * KStar.kstar (plainRule quote + pairRule) * {[quote]}

/-- What one round of unescaping takes from the front of a body. -/
inductive Round where
  | plain (c : Char)
  | pair (c : Char)
  /-- A backslash that is the last character. -/
  | lone
deriving DecidableEq

namespace Round

/-- The characters that a round takes. -/
def taken : Round → List Char
  | plain c => [c]
  | pair c => ['\\', c]
  | lone => ['\\']

/-- The characters that a backslash stands for together with the one behind it. -/
def decoded : Char → List Char
  | 'n' => ['\n']
  | 't' => ['\t']
  | 'r' => ['\r']
  | '0' => ['\x00']
  | '\\' => ['\\']
  | '\'' => ['\'']
  | '"' => ['"']
  | c => ['\\', c]

/-- The characters that a round gives for them. -/
def given : Round → List Char
  | plain c => [c]
  | pair c => decoded c
  | lone => ['\\']

/-- Whether a round takes a plain character, or a backslash with the one behind it. -/
def IsPiece : Round → Prop
  | plain c => c ≠ '\\'
  | pair _ => True
  | lone => False

/-- Whether what a round takes may stand between quotes of a kind. -/
def Fits (quote : Char) : Round → Prop
  | plain c => c ≠ quote ∧ c ≠ '\\'
  | pair c => c ≠ '\n'
  | lone => False

theorem Fits.isPiece {quote : Char} {round : Round} (h : round.Fits quote) : round.IsPiece := by
  cases round with
  | plain c => exact h.2
  | pair c => trivial
  | lone => exact h

end Round

/-- The rounds of unescaping a body, each of one character or two. -/
def rounds : List Char → List Round
  | '\\' :: c :: cs => .pair c :: rounds cs
  | ['\\'] => [.lone]
  | c :: cs => .plain c :: rounds cs
  | [] => []

/-- A body as plain characters and pairs of a backslash and a character. -/
structure IsSplit (split : List Round) (body : List Char) : Prop where
  pieces : ∀ round ∈ split, round.IsPiece
  flatMap_taken : split.flatMap Round.taken = body

theorem unescape_pair (c : Char) (cs : List Char) :
    unescape ('\\' :: c :: cs) = Round.decoded c ++ unescape cs := by
  rw [unescape]
  fun_cases Round.decoded c with
  | case8 => simp [escaped?, *]
  | _ => rfl

/-- Unescaping gives what its rounds give, one behind the other. -/
theorem flatMap_given_rounds (cs : List Char) :
    (rounds cs).flatMap Round.given = unescape cs := by
  fun_induction rounds cs with
  | case1 c cs ih => rw [List.flatMap_cons, ih, unescape_pair]; rfl
  | case2 => rfl
  | case3 c cs hpair hlone ih =>
    have hslash : c ≠ '\\' := by
      rintro rfl
      cases cs with
      | nil => exact hlone rfl rfl
      | cons d ds => exact hpair d ds rfl rfl
    rw [List.flatMap_cons, ih, unescape_cons hslash]
    rfl
  | case4 => rfl

/-! One split. -/

theorem rounds_cons {c : Char} (hslash : c ≠ '\\') (cs : List Char) :
    rounds (c :: cs) = .plain c :: rounds cs := by
  rw [rounds.eq_def]
  cases cs <;> simp [hslash]

/-- The rounds of a body that is split are the pieces of the split. -/
theorem rounds_flatMap_taken {split : List Round} (hpieces : ∀ round ∈ split, round.IsPiece) :
    rounds (split.flatMap Round.taken) = split := by
  induction split with
  | nil => rfl
  | cons round split ih =>
    obtain ⟨hround, hsplit⟩ := List.forall_mem_cons.1 hpieces
    rw [List.flatMap_cons]
    cases round with
    | plain c => exact (rounds_cons hround _).trans (congrArg (_ :: ·) (ih hsplit))
    | pair c => exact congrArg (.pair c :: ·) (ih hsplit)
    | lone => exact absurd hround id

theorem IsSplit.rounds_eq {split : List Round} {body : List Char} (h : IsSplit split body) :
    rounds body = split := by
  rw [← h.flatMap_taken]
  exact rounds_flatMap_taken h.pieces

/-- A body is split in one way. -/
theorem IsSplit.iff_eq {split : List Round} {body : List Char} (h : IsSplit split body)
    (other : List Round) : IsSplit other body ↔ other = split := by
  constructor
  · intro hother
    exact hother.rounds_eq.symm.trans h.rounds_eq
  · rintro rfl
    exact h

/-! What the rules match. -/

theorem mem_piece_iff {quote : Char} {cs : List Char} :
    cs ∈ plainRule quote + pairRule ↔ ∃ round : Round, round.Fits quote ∧ round.taken = cs := by
  rw [Language.mem_add]
  constructor
  · rintro (⟨c, hquote, hslash, rfl⟩ | ⟨c, hline, rfl⟩)
    · exact ⟨.plain c, ⟨hquote, hslash⟩, rfl⟩
    · exact ⟨.pair c, hline, rfl⟩
  · rintro ⟨round, hfits, rfl⟩
    cases round with
    | plain c => exact .inl ⟨c, hfits.1, hfits.2, rfl⟩
    | pair c => exact .inr ⟨c, hfits, rfl⟩
    | lone => exact absurd hfits id

theorem mem_pieces_iff {quote : Char} {cs : List Char} :
    cs ∈ KStar.kstar (plainRule quote + pairRule) ↔
      ∃ split : List Round, (∀ round ∈ split, round.Fits quote) ∧
        split.flatMap Round.taken = cs := by
  rw [Language.mem_kstar]
  constructor
  · rintro ⟨words, rfl, hwords⟩
    induction words with
    | nil => exact ⟨[], by simp, rfl⟩
    | cons word words ih =>
      obtain ⟨hword, hrest⟩ := List.forall_mem_cons.1 hwords
      obtain ⟨round, hround, rfl⟩ := mem_piece_iff.1 hword
      obtain ⟨split, hsplit, htaken⟩ := ih hrest
      refine ⟨round :: split, List.forall_mem_cons.2 ⟨hround, hsplit⟩, ?_⟩
      rw [List.flatMap_cons, htaken, List.flatten_cons]
  · rintro ⟨split, hfits, rfl⟩
    refine ⟨split.map Round.taken, List.flatMap_def, ?_⟩
    intro word hword
    obtain ⟨round, hround, rfl⟩ := List.mem_map.1 hword
    exact mem_piece_iff.2 ⟨round, hfits round hround, rfl⟩

/-- A string is matched when what stands between its quotes splits into pieces that fit. -/
theorem mem_stringRule_iff {quote : Char} {cs : List Char} :
    cs ∈ stringRule quote ↔ ∃ split : List Round, (∀ round ∈ split, round.Fits quote) ∧
      cs = quote :: (split.flatMap Round.taken ++ [quote]) := by
  constructor
  · intro hcs
    obtain ⟨front, hfront, last, hlast, rfl⟩ := Language.mem_mul.1 hcs
    obtain ⟨first, hfirst, body, hbody, rfl⟩ := Language.mem_mul.1 hfront
    obtain ⟨split, hfits, rfl⟩ := mem_pieces_iff.1 hbody
    obtain rfl : first = [quote] := hfirst
    obtain rfl : last = [quote] := hlast
    exact ⟨split, hfits, rfl⟩
  · rintro ⟨split, hfits, rfl⟩
    have hbody := mem_pieces_iff.2 ⟨split, hfits, rfl⟩
    exact Language.mem_mul.2 ⟨quote :: split.flatMap Round.taken,
      Language.mem_mul.2 ⟨[quote], rfl, _, hbody, rfl⟩, [quote], rfl, rfl⟩

/-! Reading a string. -/

/-- A text without its first and its last byte, unescaped. There is none if one of these bytes
is missing or is only a part of a character. -/
def unescapeQuoted? (text : String) : Option String :=
  (slice? text 1 (text.utf8ByteSize - 1)).map fun body => String.ofList (unescape body.toList)

/-- A quotation that is closed splits into pieces that fit. -/
theorem Quotation.exists_split {quote : Char} {cs : List Char}
    (hclosed : (Quotation.read quote cs).isClosed = true) :
    ∃ split : List Round, (∀ round ∈ split, round.Fits quote) ∧
      (Quotation.read quote cs).body = split.flatMap Round.taken := by
  fun_induction Quotation.read quote cs with
  | case1 => cases hclosed
  | case2 => exact ⟨[], by simp, rfl⟩
  | case3 => cases hclosed
  | case4 => cases hclosed
  | case5 d ds hline hquote ih =>
    obtain ⟨split, hfits, hbody⟩ := ih hclosed
    exact ⟨.pair d :: split, List.forall_mem_cons.2 ⟨hline, hfits⟩,
      congrArg (['\\', d] ++ ·) hbody⟩
  | case6 c cs hquote hslash ih =>
    obtain ⟨split, hfits, hbody⟩ := ih hclosed
    exact ⟨.plain c :: split, List.forall_mem_cons.2 ⟨⟨hquote, hslash⟩, hfits⟩,
      congrArg ([c] ++ ·) hbody⟩

section

variable {quote : Char} (hquote : IsQuote quote)
include hquote

/-- Pieces that fit are read up to the quote behind them. -/
theorem Quotation.read_split {split : List Round} (hfits : ∀ round ∈ split, round.Fits quote)
    (rest : List Char) :
    Quotation.read quote (split.flatMap Round.taken ++ quote :: rest) =
      ⟨split.flatMap Round.taken, true, rest⟩ := by
  have hslash : '\\' ≠ quote := by
    rcases hquote with rfl | rfl <;> decide
  induction split with
  | nil =>
    rw [Quotation.read.eq_def]
    simp
  | cons round split ih =>
    obtain ⟨hround, hsplit⟩ := List.forall_mem_cons.1 hfits
    rw [List.flatMap_cons, List.append_assoc]
    cases round with
    | plain c =>
      exact (read_cons hround.2 hround.1 _).trans (congrArg (Quotation.after [c]) (ih hsplit))
    | pair c =>
      exact (read_pair hslash hround _).trans
        (congrArg (Quotation.after ['\\', c]) (ih hsplit))
    | lone => exact absurd hround id

/-- Taking off the quotes leaves what stands between them. -/
theorem slice?_quoted (body : List Char) :
    slice? (String.ofList (quote :: (body ++ [quote]))) 1
      ((String.ofList (quote :: (body ++ [quote]))).utf8ByteSize - 1) =
        some (String.ofList body) := by
  have hwidth : (String.ofList [quote]).utf8ByteSize = 1 := by
    rcases hquote with rfl | rfl <;> rfl
  have hparts : String.ofList (quote :: (body ++ [quote])) =
      String.ofList [quote] ++ String.ofList body ++ String.ofList [quote] := by
    rw [← String.ofList_append, ← String.ofList_append]
    rfl
  have hslice := slice?_append (String.ofList [quote]) (String.ofList body) (String.ofList [quote])
  rw [hparts, String.utf8ByteSize_append, hwidth, Nat.add_sub_cancel]
  rwa [hwidth] at hslice

theorem unescapeQuoted?_quoted (body : List Char) :
    unescapeQuoted? (String.ofList (quote :: (body ++ [quote]))) =
      some (String.ofList (unescape body)) := by
  rw [unescapeQuoted?, slice?_quoted hquote, Option.map_some, String.toList_ofList]

/-- A string is one token, of the text that its pieces stand for. -/
theorem tokens_quoted {split : List Round} (hfits : ∀ round ∈ split, round.Fits quote) :
    let text := String.ofList (quote :: (split.flatMap Round.taken ++ [quote]))
    tokens text = [⟨.text (String.ofList (unescape (split.flatMap Round.taken))), 0,
      text.utf8ByteSize⟩] := by
  obtain ⟨hseparator, hread⟩ := Lexeme.read_quote hquote (split.flatMap Round.taken ++ [quote])
  have halone : Lexeme.read quote (split.flatMap Round.taken ++ [quote]) =
      ⟨.text (String.ofList (unescape (split.flatMap Round.taken))),
        quote :: (split.flatMap Round.taken ++ [quote]), []⟩ := by
    rw [hread, Lexeme.ofQuote, Quotation.read_split hquote hfits]
    rfl
  have htokens := tokens_text hseparator (split.flatMap Round.taken ++ [quote])
  rwa [halone, byteLength_eq_utf8ByteSize] at htokens

end

/-- How a string in quotes of a kind is unescaped, by its body and the pieces of that. -/
structure Unescapes (quote : Char) (text body : String) (split : List Round) : Prop where
  quoted : text.toList = quote :: (body.toList ++ [quote])
  inner : slice? text 1 (text.utf8ByteSize - 1) = some body
  /-- The body can be split in no other way. -/
  unique : ∀ other, IsSplit other body.toList ↔ other = split
  /-- The rounds of unescaping are the pieces, and none is left with a lone backslash. -/
  followed : rounds body.toList = split ∧ Round.lone ∉ rounds body.toList
  result : unescapeQuoted? text = some (String.ofList (split.flatMap Round.given))
  token : tokens text =
    [⟨.text (String.ofList (split.flatMap Round.given)), 0, text.utf8ByteSize⟩]

/-- What the rules for strings match is unescaped piece by piece. -/
theorem exists_unescapes_of_mem_stringRule {quote : Char} (hquote : IsQuote quote) {text : String}
    (hmatch : text.toList ∈ stringRule quote) :
    ∃ body split, Unescapes quote text body split := by
  obtain ⟨split, hfits, hchars⟩ := mem_stringRule_iff.1 hmatch
  obtain rfl : text = String.ofList (quote :: (split.flatMap Round.taken ++ [quote])) := by
    rw [← hchars, String.ofList_toList]
  have hsplit : IsSplit split (split.flatMap Round.taken) :=
    ⟨fun round hround => (hfits round hround).isPiece, rfl⟩
  have hgiven : unescape (split.flatMap Round.taken) = split.flatMap Round.given := by
    rw [← flatMap_given_rounds, hsplit.rounds_eq]
  refine ⟨String.ofList (split.flatMap Round.taken), split, ?_⟩
  constructor
  case quoted => rw [String.toList_ofList, String.toList_ofList]
  case inner => exact slice?_quoted hquote _
  case unique =>
    rw [String.toList_ofList]
    exact hsplit.iff_eq
  case followed =>
    rw [String.toList_ofList, hsplit.rounds_eq]
    exact ⟨rfl, fun hlone => hsplit.pieces _ hlone⟩
  case result => rw [unescapeQuoted?_quoted hquote, hgiven]
  case token =>
    rw [← hgiven]
    exact tokens_quoted hquote hfits

theorem exists_unescapes_backslashes :
    (IsQuote '"' ∧ "\"a\\\"é\\q\\\\\"".toList ∈ stringRule '"') ∧
      ∃ body split, Unescapes '"' "\"a\\\"é\\q\\\\\"" body split := by
  have hmatch : "\"a\\\"é\\q\\\\\"".toList ∈ stringRule '"' := by
    refine mem_stringRule_iff.2
      ⟨[.plain 'a', .pair '"', .plain 'é', .pair 'q', .pair '\\'], ?_, rfl⟩
    simp [Round.Fits]
  exact ⟨⟨.inl rfl, hmatch⟩, exists_unescapes_of_mem_stringRule (.inl rfl) hmatch⟩

/-! The strings among the tokens of a text. -/

theorem wordToken_ne_text (cs : List Char) (value : String) : wordToken cs ≠ .text value := by
  unfold wordToken
  split
  · exact Token.noConfusion
  · split
    · exact Token.noConfusion
    · split <;> exact Token.noConfusion

theorem token_ofDigit_ne_text (c : Char) (cs : List Char) (value : String) :
    (Lexeme.ofDigit c cs).token ≠ .text value := by
  simp only [Lexeme.ofDigit, Number.spanDigits]
  split
  · exact Token.noConfusion
  · rw [wholeToken]
    split <;> exact Token.noConfusion

theorem markToken_ne_text (c : Char) (value : String) : markToken c ≠ .text value := by
  unfold markToken
  split <;> exact Token.noConfusion

/-- Only a quotation that is closed is a text. -/
theorem Lexeme.of_token_text {c : Char} {cs : List Char} {value : String}
    (htext : (Lexeme.read c cs).token = .text value) :
    IsQuote c ∧ (Quotation.read c cs).isClosed = true := by
  unfold Lexeme.read at htext
  split at htext
  · exact absurd htext (wordToken_ne_text _ value)
  · split at htext
    · exact absurd htext (token_ofDigit_ne_text c cs value)
    · split at htext
      · rename_i hquote
        refine ⟨hquote, ?_⟩
        rw [ofQuote] at htext
        split at htext
        · assumption
        · cases htext
      · exact absurd htext (markToken_ne_text c value)

/-- The value of a string among the tokens of a text is what it covers, unescaped. -/
theorem unescapeQuoted?_of_mem {text : String} {t : SpannedToken} (ht : t ∈ tokens text)
    {value : String} (hvalue : t.token = .text value) :
    ∃ quote piece, IsQuote quote ∧ slice? text t.start t.stop = some piece ∧
      piece.toList ∈ stringRule quote ∧ unescapeQuoted? piece = some value := by
  obtain ⟨front, piece, back, rfl, hstart, hstop, quote, cs, -, rfl, htoken⟩ :=
    exists_piece_of_mem ht
  rw [htoken] at hvalue
  obtain ⟨hquote, hclosed⟩ := Lexeme.of_token_text hvalue
  obtain ⟨split, hfits, hbody⟩ := Quotation.exists_split hclosed
  have hread : Lexeme.read quote cs =
      ⟨.text (String.ofList (unescape (split.flatMap Round.taken))),
        quote :: (split.flatMap Round.taken ++ [quote]), (Quotation.read quote cs).rest⟩ := by
    rw [(Lexeme.read_quote hquote cs).2, Lexeme.ofQuote, ← hbody]
    exact if_pos hclosed
  rw [hread] at hvalue hstop ⊢
  obtain rfl := Token.text.inj hvalue
  refine ⟨quote, _, hquote, ?_, ?_, unescapeQuoted?_quoted hquote _⟩
  · rw [hstart, hstop]
    exact slice?_append front _ back
  · rw [String.toList_ofList]
    exact mem_stringRule_iff.2 ⟨split, hfits, rfl⟩

end Wiring.Expression
