import Mathlib.Data.List.TakeWhile
import Mathlib.Data.String.Basic
import Wiring.Proofs.Expression.Lexing

/-!
Where the tokens of a text stand. Each covers whole characters of the text, one behind the
other, and what they cover is that same token when it stands alone. The characters between
them are blanks, so every other character is part of a token.
-/

namespace Wiring.Expression

/-! Slices of a text by its bytes. -/

/-- The text between two bytes, if both are boundaries between characters, in this order. -/
def slice? (text : String) (start stop : Nat) : Option String :=
  if h : String.Pos.Raw.IsValid text ⟨start⟩ ∧ String.Pos.Raw.IsValid text ⟨stop⟩ ∧
      start ≤ stop then
    some (String.extract (text.pos ⟨start⟩ h.1) (text.pos ⟨stop⟩ h.2.1))
  else none

/-- There is a boundary behind the characters of any front part. -/
theorem isValid_append (front back : String) :
    String.Pos.Raw.IsValid (front ++ back) ⟨front.utf8ByteSize⟩ :=
  String.Pos.Raw.isValid_iff_exists_append.2 ⟨front, back, rfl, rfl⟩

theorem slice?_append (front body back : String) :
    slice? (front ++ body ++ back) front.utf8ByteSize (front ++ body).utf8ByteSize =
      some body := by
  have hstart : String.Pos.Raw.IsValid (front ++ body ++ back) ⟨front.utf8ByteSize⟩ := by
    rw [String.append_assoc]
    exact isValid_append front (body ++ back)
  have hstop := isValid_append (front ++ body) back
  have hle : front.utf8ByteSize ≤ (front ++ body).utf8ByteSize := by
    rw [String.utf8ByteSize_append]
    exact Nat.le_add_right _ _
  obtain ⟨hpos, hcopy⟩ := String.copy_slice_eq_iff_splits.2 ⟨front, back,
    String.Pos.Splits.mk (p := (front ++ body ++ back).pos ⟨front.utf8ByteSize⟩ hstart)
      String.append_assoc rfl,
    String.Pos.Splits.mk (p := (front ++ body ++ back).pos ⟨(front ++ body).utf8ByteSize⟩ hstop)
      rfl rfl⟩
  rw [slice?, dif_pos ⟨hstart, hstop, hle⟩, String.extract_eq_copy_slice _ _ hpos, hcopy]

example : slice? "aéb" 1 3 = some "é" ∧ slice? "aéb" 1 2 = none := by decide

theorem byteLength_eq_utf8ByteSize (cs : List Char) :
    byteLength cs = (String.ofList cs).utf8ByteSize := by
  induction cs with
  | nil => rfl
  | cons c cs ih =>
    rw [byteLength, ih, String.utf8ByteSize_ofList, String.utf8ByteSize_ofList,
      String.utf8Len_cons, Nat.add_comm]

theorem byteLength_append (cs ds : List Char) :
    byteLength (cs ++ ds) = byteLength cs + byteLength ds := by
  induction cs with
  | nil => exact (Nat.zero_add _).symm
  | cons c cs ih => rw [List.cons_append, byteLength, byteLength, ih, Nat.add_assoc]

theorem byteLength_pos {cs : List Char} (hne : cs ≠ []) : 0 < byteLength cs := by
  obtain ⟨c, cs, rfl⟩ := List.exists_cons_of_ne_nil hne
  exact Nat.lt_of_lt_of_le c.utf8Size_pos (Nat.le_add_right _ _)

/-! One lexeme. -/

/-- The quote at the end of what was read, if it is there. -/
def Quotation.closing (quote : Char) (quotation : Quotation) : List Char :=
  if quotation.isClosed then [quote] else []

theorem Quotation.closing_after (quote : Char) (front : List Char) (quotation : Quotation) :
    (quotation.after front).closing quote = quotation.closing quote := rfl

/-- What is read between quotes is read again up to the same place, whatever stopped it. -/
theorem Quotation.read_body (quote : Char) (cs : List Char) :
    Quotation.read quote
        ((Quotation.read quote cs).body ++ (Quotation.read quote cs).closing quote) =
      { Quotation.read quote cs with rest := [] } := by
  fun_induction Quotation.read quote cs with
  | case1 => rfl
  | case2 => simp [closing, read]
  | case3 => rfl
  | case4 => rfl
  | case5 d ds hline hquote ih =>
    rw [closing_after]
    exact (read_pair hquote hline _).trans (congrArg (after ['\\', d]) ih)
  | case6 c cs hquote hslash ih =>
    rw [closing_after]
    exact (read_cons hslash hquote _).trans (congrArg (after [c]) ih)

namespace Lexeme

theorem dropWhile_takeWhile (inside : Char → Bool) (cs : List Char) :
    (cs.takeWhile inside).dropWhile inside = [] :=
  List.dropWhile_eq_nil_iff.2 fun _ hc => List.mem_takeWhile_imp hc

theorem ofName_text (c : Char) (cs : List Char) :
    ∃ ds, (ofName c cs).text = c :: ds ∧ ofName c ds = { ofName c cs with rest := [] } := by
  refine ⟨cs.takeWhile isNamePart, rfl, ?_⟩
  simp only [ofName, List.takeWhile_idem, dropWhile_takeWhile]

/-- Digits with no point behind them. -/
theorem ofDigit_whole {cs : List Char} (hpoint : ∀ ds, cs.dropWhile Char.isDigit ≠ '.' :: ds)
    (c : Char) :
    ofDigit c cs = ⟨wholeToken (c :: cs.takeWhile Char.isDigit),
      c :: cs.takeWhile Char.isDigit, cs.dropWhile Char.isDigit⟩ := by
  simp only [ofDigit, Number.spanDigits]

theorem ofDigit_text (c : Char) (cs : List Char) :
    ∃ ds, (ofDigit c cs).text = c :: ds ∧ ofDigit c ds = { ofDigit c cs with rest := [] } := by
  by_cases hpoint : ∀ ds, cs.dropWhile Char.isDigit ≠ '.' :: ds
  · have halone : ∀ ds, (cs.takeWhile Char.isDigit).dropWhile Char.isDigit ≠ '.' :: ds := by
      intro ds
      rw [dropWhile_takeWhile]
      exact (List.cons_ne_nil _ _).symm
    refine ⟨cs.takeWhile Char.isDigit, ?_, ?_⟩
    · rw [ofDigit_whole hpoint]
    · rw [ofDigit_whole hpoint, ofDigit_whole halone, List.takeWhile_idem, dropWhile_takeWhile]
  · obtain ⟨ds, hpoint⟩ := not_forall_not.1 hpoint
    have hdigits : ∀ d ∈ cs.takeWhile Char.isDigit, d.isDigit = true := fun _ hd =>
      List.mem_takeWhile_imp hd
    have hdot : ¬('.'.isDigit = true) := by decide
    -- The point ends the first digits, so both runs are found again where they were.
    refine ⟨cs.takeWhile Char.isDigit ++ '.' :: ds.takeWhile Char.isDigit, ?_, ?_⟩
    · simp [ofDigit, Number.spanDigits, hpoint]
    · simp only [ofDigit, Number.spanDigits, hpoint, List.takeWhile_append_of_pos hdigits,
        List.dropWhile_append_of_pos hdigits, List.takeWhile_cons_of_neg hdot,
        List.dropWhile_cons_of_neg hdot, List.append_nil, List.takeWhile_idem,
        dropWhile_takeWhile]

theorem ofQuote_text (quote : Char) (cs : List Char) :
    ∃ ds, (ofQuote quote cs).text = quote :: ds ∧
      ofQuote quote ds = { ofQuote quote cs with rest := [] } := by
  have hagain := Quotation.read_body quote cs
  refine ⟨(Quotation.read quote cs).body ++ (Quotation.read quote cs).closing quote, ?_, ?_⟩
  · cases hclosed : (Quotation.read quote cs).isClosed <;>
      simp [ofQuote, Quotation.closing, hclosed]
  · cases hclosed : (Quotation.read quote cs).isClosed <;> simp [ofQuote, hagain, hclosed]

/-- A lexeme is read from its own characters as it is from the text. -/
theorem read_text (c : Char) (cs : List Char) :
    ∃ ds, (read c cs).text = c :: ds ∧ read c ds = { read c cs with rest := [] } := by
  unfold read
  split
  · exact ofName_text c cs
  · split
    · exact ofDigit_text c cs
    · split
      · exact ofQuote_text c cs
      · exact ⟨[], rfl, rfl⟩

end Lexeme

/-- The characters of a lexeme, on their own, are one token. -/
theorem tokens_text {c : Char} (hc : isSeparator c = false) (cs : List Char) :
    tokens (String.ofList (Lexeme.read c cs).text) =
      [⟨(Lexeme.read c cs).token, 0, byteLength (Lexeme.read c cs).text⟩] := by
  obtain ⟨ds, htext, hread⟩ := Lexeme.read_text c cs
  rw [tokens, String.toList_ofList, htext, tokensAt_cons hc, hread]
  simp [tokensAt, htext]

/-! Whole texts. -/

/-- A token is a lexeme at the place where it stands. -/
theorem exists_lexeme_of_mem {position : Nat} {cs : List Char} {t : SpannedToken}
    (ht : t ∈ tokensAt position cs) :
    ∃ front c ds, cs = front ++ c :: ds ∧ isSeparator c = false ∧
      t = ⟨(Lexeme.read c ds).token, position + byteLength front,
        position + byteLength front + byteLength (Lexeme.read c ds).text⟩ := by
  induction position, cs using tokensAt.induct with
  | case1 position => simp [tokensAt] at ht
  | case2 position c cs hseparator ih =>
    rw [tokensAt, if_pos hseparator] at ht
    obtain ⟨front, d, ds, hcs, hd, rfl⟩ := ih ht
    exact ⟨c :: front, d, ds, by rw [hcs]; rfl, hd, by simp only [byteLength, Nat.add_assoc]⟩
  | case3 position c cs hseparator lexeme hle stop ih =>
    rw [tokensAt, if_neg hseparator] at ht
    rcases List.mem_cons.mp ht with rfl | ht
    · exact ⟨[], c, cs, rfl, by simpa using hseparator, rfl⟩
    · obtain ⟨front, d, ds, hrest, hd, rfl⟩ := ih ht
      refine ⟨lexeme.text ++ front, d, ds, ?_, hd, ?_⟩
      · rw [List.append_assoc, ← hrest, Lexeme.text_append_rest]
      · simp only [stop, byteLength_append, Nat.add_assoc]

/-- No token begins before the one in front of it has ended. -/
theorem pairwise_tokensAt (position : Nat) (cs : List Char) :
    (tokensAt position cs).Pairwise fun t u => t.stop ≤ u.start := by
  induction position, cs using tokensAt.induct with
  | case1 position => simp [tokensAt]
  | case2 position c cs hseparator ih =>
    rw [tokensAt, if_pos hseparator]
    exact ih
  | case3 position c cs hseparator lexeme hle stop ih =>
    rw [tokensAt, if_neg hseparator]
    refine List.pairwise_cons.2 ⟨?_, ih⟩
    intro t ht
    obtain ⟨front, d, ds, -, -, rfl⟩ := exists_lexeme_of_mem ht
    exact Nat.le_add_right _ _

/-- A character of two pieces stands inside the first or behind it. -/
theorem place_of_append_eq {first second front back : List Char} {c : Char}
    (hsame : first ++ second = front ++ c :: back) :
    (∃ inside, first = front ++ c :: inside) ∨
      ∃ behind, front = first ++ behind ∧ second = behind ++ c :: back := by
  rcases List.append_eq_append_iff.1 hsame with ⟨behind, hbehind⟩ | ⟨inside, hfirst, hinside⟩
  · exact .inr ⟨behind, hbehind⟩
  · cases inside with
    | nil => exact .inr ⟨[], by rw [hfirst, List.append_nil, List.append_nil], hinside.symm⟩
    | cons d inside =>
      obtain ⟨rfl, -⟩ := List.cons.inj hinside
      exact .inl ⟨inside, hfirst⟩

/-- A character is a separator or stands in a token. -/
theorem separator_or_covered (position : Nat) (cs : List Char) (c : Char) (back : List Char) :
    ∀ front, cs = front ++ c :: back →
      isSeparator c = true ∨ ∃ t ∈ tokensAt position cs, t.start ≤ position + byteLength front ∧
        position + byteLength front + c.utf8Size ≤ t.stop := by
  induction position, cs using tokensAt.induct with
  | case1 position => intro front hcs; simp at hcs
  | case2 position d cs hseparator ih =>
    intro front hcs
    rw [tokensAt, if_pos hseparator]
    cases front with
    | nil =>
      obtain ⟨rfl, -⟩ := List.cons.inj hcs
      exact .inl hseparator
    | cons e front =>
      obtain ⟨rfl, htail⟩ := List.cons.inj hcs
      simpa only [byteLength, Nat.add_assoc] using ih front htail
  | case3 position d cs hseparator lexeme hle stop ih =>
    intro front hcs
    rw [tokensAt, if_neg hseparator]
    have hsplit : lexeme.text ++ lexeme.rest = front ++ c :: back :=
      (Lexeme.text_append_rest d cs).trans hcs
    -- Behind the first token the character is found as in a text of its own.
    rcases place_of_append_eq hsplit with ⟨inside, htext⟩ | ⟨behind, hfront, hrest⟩
    · refine .inr ⟨_, List.mem_cons_self, Nat.le_add_right _ _, ?_⟩
      have hsize : byteLength lexeme.text =
          byteLength front + (c.utf8Size + byteLength inside) := by
        rw [htext, byteLength_append, byteLength]
      change position + byteLength front + c.utf8Size ≤ position + byteLength lexeme.text
      omega
    · rcases ih behind hrest with hc | ⟨t, ht, hcover⟩
      · exact .inl hc
      · refine .inr ⟨t, List.mem_cons_of_mem _ ht, ?_⟩
        rw [hfront, byteLength_append]
        simpa only [stop, Nat.add_assoc] using hcover

/-- A token is a lexeme, and covers the characters of it. -/
theorem exists_piece_of_mem {text : String} {t : SpannedToken} (ht : t ∈ tokens text) :
    ∃ front piece back, text = front ++ piece ++ back ∧
      t.start = front.utf8ByteSize ∧ t.stop = (front ++ piece).utf8ByteSize ∧
      ∃ c cs, isSeparator c = false ∧ piece = String.ofList (Lexeme.read c cs).text ∧
        t.token = (Lexeme.read c cs).token := by
  obtain ⟨front, c, cs, htext, hc, rfl⟩ := exists_lexeme_of_mem ht
  have hpieces : text = String.ofList front ++ String.ofList (Lexeme.read c cs).text ++
      String.ofList (Lexeme.read c cs).rest := by
    rw [← String.ofList_append, ← String.ofList_append, List.append_assoc,
      Lexeme.text_append_rest, ← htext, String.ofList_toList]
  refine ⟨_, _, _, hpieces, ?_, ?_, c, cs, hc, rfl, rfl⟩
  · simp only [Nat.zero_add, byteLength_eq_utf8ByteSize]
  · simp only [Nat.zero_add, byteLength_eq_utf8ByteSize, String.utf8ByteSize_append]

/-- Tokens that stand one behind the other in a text and leave out nothing but separators. -/
structure Covers (text : String) (spans : List SpannedToken) : Prop where
  nonempty : ∀ t ∈ spans, t.start < t.stop
  ordered : spans.Pairwise fun t u => t.stop ≤ u.start
  within : ∀ t ∈ spans, t.stop ≤ text.utf8ByteSize
  /-- No token begins or ends inside a character. -/
  boundaries : ∀ t ∈ spans,
    String.Pos.Raw.IsValid text ⟨t.start⟩ ∧ String.Pos.Raw.IsValid text ⟨t.stop⟩
  /-- A character is a separator or is all in one token. -/
  separated : ∀ front c back, text.toList = front ++ c :: back →
    c ∈ [' ', '\t', '\n', '\r'] ∨
      ∃ t ∈ spans, t.start ≤ byteLength front ∧ byteLength front + c.utf8Size ≤ t.stop
  /-- What a token covers is that one token on its own. -/
  alone : ∀ t ∈ spans, ∃ piece, slice? text t.start t.stop = some piece ∧
    tokens piece = [⟨t.token, 0, t.stop - t.start⟩]

/-- Nothing of a text is lost between its tokens. -/
theorem covers_tokens (text : String) : Covers text (tokens text) where
  nonempty := by
    intro t ht
    obtain ⟨front, c, cs, -, -, rfl⟩ := exists_lexeme_of_mem ht
    exact Nat.lt_add_of_pos_right (byteLength_pos (Lexeme.text_ne_nil c cs))
  ordered := pairwise_tokensAt 0 text.toList
  within := by
    intro t ht
    obtain ⟨front, piece, back, rfl, -, hstop, -⟩ := exists_piece_of_mem ht
    rw [hstop]
    exact (isValid_append (front ++ piece) back).le_rawEndPos
  boundaries := by
    intro t ht
    obtain ⟨front, piece, back, rfl, hstart, hstop, -⟩ := exists_piece_of_mem ht
    rw [hstart, hstop]
    refine ⟨?_, isValid_append _ back⟩
    rw [String.append_assoc]
    exact isValid_append front _
  separated := by
    intro front c back htext
    rcases separator_or_covered 0 text.toList c back front htext with hc | ⟨t, ht, hcover⟩
    · refine .inl ?_
      simpa [isSeparator, or_assoc] using hc
    · exact .inr ⟨t, ht, by simpa only [Nat.zero_add] using hcover⟩
  alone := by
    intro t ht
    obtain ⟨front, piece, back, rfl, hstart, hstop, c, cs, hc, rfl, htoken⟩ :=
      exists_piece_of_mem ht
    rw [hstart, hstop, htoken]
    refine ⟨_, slice?_append front _ back, ?_⟩
    rw [tokens_text hc, String.utf8ByteSize_append, Nat.add_sub_cancel_left,
      byteLength_eq_utf8ByteSize]

end Wiring.Expression
