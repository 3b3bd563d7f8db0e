import Wiring.Proofs.Expression.Acceptance
import Wiring.Proofs.Expression.Lexing

/-!
Canonical texts of expressions, and that reading one gives the expression back. The
canonical text of an expression is fixed but for the quotes around each text in it. What
stands inside quotes never leaks out of them, so the tokens of the text are those of a
phrase that stands for the expression.
-/

namespace Wiring.Expression

/-- The text of a scalar. A number is written in decimal, and a text between quotes of
either kind, which may change from one text to the next. -/
inductive ScalarText : Scalar → List Char → Prop where
  | null : ScalarText .null "None".toList
  | truth : ScalarText (.bool true) "True".toList
  | falsehood : ScalarText (.bool false) "False".toList
  | int (n : Int64) (hn : -2 ^ 63 < n.toInt) : ScalarText (.int n) (toString n.toInt).toList
  | text (s : String) {quote : Char} (hquote : IsQuote quote) :
      ScalarText (.text s) (quote :: (escape quote s.toList ++ [quote]))

/-- Some characters in brackets. -/
def bracketed (bracket : Bracket) (inside : List Char) : List Char :=
  bracket.openingText.toList ++ (inside ++ bracket.closingText.toList)

mutual

/-- A canonical text of an expression. -/
inductive Canonical : Expression → List Char → Prop where
  | atom {value : Scalar} {text : List Char} (h : ScalarText value text) :
      Canonical (.atom value) text
  | emptyList : Canonical (.group .list []) (bracketed .square [])
  | list {items : List Expression} {text : List Char} (h : CanonicalItems items text) :
      Canonical (.group .list items) (bracketed .square text)
  | emptyTuple : Canonical (.group .tuple []) (bracketed .round [])
  /-- A tuple of one element has a comma behind it. -/
  | single {e : Expression} {text : List Char} (h : Canonical e text) :
      Canonical (.group .tuple [e]) (bracketed .round (text ++ [',']))
  | tuple {first second : Expression} {items : List Expression} {text : List Char}
      (h : CanonicalItems (first :: second :: items) text) :
      Canonical (.group .tuple (first :: second :: items)) (bracketed .round text)
  | set {items : List Expression} {text : List Char} (h : CanonicalItems items text) :
      Canonical (.group .set items) (bracketed .curly text)
  | emptyDict : Canonical (.dict []) (bracketed .curly [])
  | dict {entries : List (Scalar × Expression)} {text : List Char}
      (h : CanonicalEntries entries text) : Canonical (.dict entries) (bracketed .curly text)

/-- Canonical texts of some elements, at least one, with a comma and a space between
them. -/
inductive CanonicalItems : List Expression → List Char → Prop where
  | last {e : Expression} {text : List Char} (h : Canonical e text) : CanonicalItems [e] text
  | cons {e : Expression} {items : List Expression} {text rest : List Char}
      (h : Canonical e text) (hrest : CanonicalItems items rest) :
      CanonicalItems (e :: items) (text ++ ", ".toList ++ rest)

/-- The same for entries, each with a colon and a space between key and value. -/
inductive CanonicalEntries : List (Scalar × Expression) → List Char → Prop where
  | last {key : Scalar} {e : Expression} {keyText text : List Char}
      (hkey : ScalarText key keyText) (h : Canonical e text) :
      CanonicalEntries [(key, e)] (keyText ++ ": ".toList ++ text)
  | cons {key : Scalar} {e : Expression} {entries : List (Scalar × Expression)}
      {keyText text rest : List Char} (hkey : ScalarText key keyText) (h : Canonical e text)
      (hrest : CanonicalEntries entries rest) :
      CanonicalEntries ((key, e) :: entries)
        (keyText ++ ": ".toList ++ text ++ ", ".toList ++ rest)

end

/-! Which expressions have a canonical text. -/

/-- A scalar that is no float and not the least integer. -/
def IsPlainScalar : Scalar → Prop
  | .int n => -2 ^ 63 < n.toInt ∧ n.toInt < 2 ^ 63
  | .float _ => False
  | _ => True

mutual

/-- An expression all of whose scalars are plain and in which no set is empty. -/
def IsPlain : Expression → Prop
  | .atom value => IsPlainScalar value
  | .group grouping items => (grouping = .set → items ≠ []) ∧ ArePlain items
  | .dict entries => EntriesArePlain entries
termination_by structural e => e

def ArePlain : List Expression → Prop
  | [] => True
  | e :: items => e.IsPlain ∧ ArePlain items
termination_by structural items => items

def EntriesArePlain : List (Scalar × Expression) → Prop
  | [] => True
  | (key, e) :: entries => IsPlainScalar key ∧ e.IsPlain ∧ EntriesArePlain entries
termination_by structural entries => entries

end

/-! The tokens of canonical texts. -/

theorem Lexes.comma {text more : List Char} {tokens others : List Token}
    (h : Lexes text tokens) (hmore : Lexes more others) :
    Lexes (text ++ ", ".toList ++ more) (tokens ++ .comma :: others) := by
  have hcomma : Lexes (',' :: ' ' :: more) (.comma :: others) :=
    Lexes.mark (c := ',') (by decide) hmore.space
  rw [List.append_assoc]
  exact h.append (c := ',') (by decide) hcomma

theorem Lexes.colon {text more : List Char} {tokens others : List Token}
    (h : Lexes text tokens) (hmore : Lexes more others) :
    Lexes (text ++ ": ".toList ++ more) (tokens ++ .colon :: others) := by
  have hcolon : Lexes (':' :: ' ' :: more) (.colon :: others) :=
    Lexes.mark (c := ':') (by decide) hmore.space
  rw [List.append_assoc]
  exact h.append (c := ':') (by decide) hcolon

theorem Lexes.trailing {text : List Char} {tokens : List Token} (h : Lexes text tokens) :
    Lexes (text ++ [',']) (tokens ++ [.comma]) :=
  h.append (by decide) (Lexes.mark (c := ',') (by decide) Lexes.nil)

/-- Brackets are marks, and nothing goes on with a closing one. -/
theorem Bracket.exists_marks (bracket : Bracket) :
    ∃ opening closing : Char, bracket.openingText.toList = [opening] ∧
      bracket.closingText.toList = [closing] ∧ opening ∈ marks ∧ closing ∈ marks ∧
      Breaks closing ∧ markToken opening = .opening bracket ∧
      markToken closing = .closing bracket := by
  cases bracket with
  | round => exact ⟨'(', ')', rfl, rfl, by decide, by decide, by decide, rfl, rfl⟩
  | square => exact ⟨'[', ']', rfl, rfl, by decide, by decide, by decide, rfl, rfl⟩
  | curly => exact ⟨'\x7b', '\x7d', rfl, rfl, by decide, by decide, by decide, rfl, rfl⟩

theorem Lexes.bracketed {text : List Char} {tokens : List Token} (bracket : Bracket)
    (h : Lexes text tokens) :
    Lexes (bracketed bracket text) (.opening bracket :: (tokens ++ [.closing bracket])) := by
  obtain ⟨opening, closing, hopening, hclosing, hleft, hright, hbreaks, hfirst, hlast⟩ :=
    bracket.exists_marks
  have hinside := h.append hbreaks (Lexes.mark hright Lexes.nil)
  have hwhole := Lexes.mark hleft hinside
  rw [hfirst, hlast] at hwhole
  rw [Expression.bracketed, hopening, hclosing]
  exact hwhole

/-- An integer is written as its digits, or as a minus sign and the digits of its
opposite. -/
theorem exists_atom_of_int (n : Int64) (hn : -2 ^ 63 < n.toInt) :
    ∃ a : Atom, a.scalar = .int n ∧ Lexes (toString n.toInt).toList a.tokens := by
  have hbound : n.toInt < 2 ^ 63 := n.toInt_lt
  cases hcase : n.toInt with
  | ofNat m =>
    have hm : m < 2 ^ 63 := by
      rw [hcase] at hbound
      exact Int.ofNat_lt.1 hbound
    have hvalue : Int64.ofNat m = n := by
      rw [← Int64.toInt_inj, Int64.toInt_ofNat_of_lt hm, hcase]
      rfl
    have htext : (toString (Int.ofNat m)).toList = Nat.toDigits 10 m := Nat.toList_repr
    refine ⟨.int n, rfl, ?_⟩
    rw [htext, ← hvalue]
    exact lexes_toDigits hm
  | negSucc m =>
    have hm : m + 1 < 2 ^ 63 := by
      rw [hcase, Int.negSucc_eq] at hn
      omega
    have hvalue : -Int64.ofNat (m + 1) = n := by
      rw [← Int64.toInt_inj, Int64.toInt_neg_ofNat_of_le (Nat.le_of_lt hm), hcase, Int.negSucc_eq]
      rfl
    have htext : (toString (Int.negSucc m)).toList = '-' :: Nat.toDigits 10 (m + 1) := by
      change ("-" ++ Nat.repr (m + 1)).toList = _
      rw [String.toList_append, Nat.toList_repr]
      rfl
    refine ⟨.negativeInt (Int64.ofNat (m + 1)), congrArg Scalar.int hvalue, ?_⟩
    rw [htext]
    exact Lexes.mark (c := '-') (by decide) (lexes_toDigits hm)

theorem ScalarText.exists_atom {value : Scalar} {text : List Char} (h : ScalarText value text) :
    ∃ a : Atom, a.scalar = value ∧ Lexes text a.tokens := by
  cases h with
  | null =>
    exact ⟨.null, rfl, lexes_word (c := 'N') rfl ['o', 'n', 'e'] (List.all_eq_true.mp rfl)⟩
  | truth =>
    exact ⟨.truth true, rfl,
      lexes_word (c := 'T') rfl ['r', 'u', 'e'] (List.all_eq_true.mp rfl)⟩
  | falsehood =>
    exact ⟨.truth false, rfl,
      lexes_word (c := 'F') rfl ['a', 'l', 's', 'e'] (List.all_eq_true.mp rfl)⟩
  | int n hn => exact exists_atom_of_int n hn
  | text s hquote =>
    have hlexes := lexes_quoted hquote s.toList
    rw [String.ofList_toList] at hlexes
    exact ⟨.text s, rfl, hlexes⟩

mutual

/-- The tokens of a canonical text are those of a phrase for the expression. -/
theorem Canonical.exists_phrase {e : Expression} {text : List Char} :
    Canonical e text → ∃ p : Phrase, p.expression = e ∧ Lexes text p.tokens
  | .atom h => by
    obtain ⟨a, rfl, hlexes⟩ := h.exists_atom
    exact ⟨.atom a, rfl, hlexes⟩
  | .emptyList => ⟨.empty .square, rfl, Lexes.nil.bracketed .square⟩
  | .emptyTuple => ⟨.empty .round, rfl, Lexes.nil.bracketed .round⟩
  | .emptyDict => ⟨.empty .curly, rfl, Lexes.nil.bracketed .curly⟩
  | .list h => by
    obtain ⟨first, rest, rfl, hlexes⟩ := h.exists_phrases
    refine ⟨.series .square first rest false, rfl, ?_⟩
    simpa [Phrase.tokens, trailingComma] using hlexes.bracketed .square
  | .single h => by
    obtain ⟨p, rfl, hlexes⟩ := h.exists_phrase
    refine ⟨.series .round p [] true, rfl, ?_⟩
    simpa [Phrase.tokens, Phrase.tokensOfRest, trailingComma] using
      hlexes.trailing.bracketed .round
  | .tuple h => by
    obtain ⟨first, rest, hitems, hlexes⟩ := h.exists_phrases
    refine ⟨.series .round first rest false, ?_, ?_⟩
    · rw [Phrase.expression, hitems]
      rfl
    · simpa [Phrase.tokens, trailingComma] using hlexes.bracketed .round
  | .set h => by
    obtain ⟨first, rest, rfl, hlexes⟩ := h.exists_phrases
    refine ⟨.series .curly first rest false, rfl, ?_⟩
    simpa [Phrase.tokens, trailingComma] using hlexes.bracketed .curly
  | .dict h => by
    obtain ⟨key, value, rest, rfl, hlexes⟩ := h.exists_phrases
    refine ⟨.dict key value rest false, rfl, ?_⟩
    simpa [Phrase.tokens, trailingComma] using hlexes.bracketed .curly

theorem CanonicalItems.exists_phrases {items : List Expression} {text : List Char} :
    CanonicalItems items text → ∃ (first : Phrase) (rest : List Phrase),
      first.expression :: Phrase.expressions rest = items ∧
        Lexes text (first.tokens ++ Phrase.tokensOfRest rest)
  | .last h => by
    obtain ⟨p, rfl, hlexes⟩ := h.exists_phrase
    refine ⟨p, [], rfl, ?_⟩
    simpa [Phrase.tokensOfRest] using hlexes
  | .cons h hrest => by
    obtain ⟨p, rfl, hlexes⟩ := h.exists_phrase
    obtain ⟨first, rest, rfl, hmore⟩ := hrest.exists_phrases
    exact ⟨p, first :: rest, rfl, hlexes.comma hmore⟩

theorem CanonicalEntries.exists_phrases {entries : List (Scalar × Expression)}
    {text : List Char} :
    CanonicalEntries entries text → ∃ (key : Atom) (value : Phrase) (rest : List (Atom × Phrase)),
      (key.scalar, value.expression) :: Phrase.entries rest = entries ∧
        Lexes text (key.tokens ++ .colon :: (value.tokens ++ Phrase.tokensOfEntries rest))
  | .last hkey h => by
    obtain ⟨key, rfl, hkeyLexes⟩ := hkey.exists_atom
    obtain ⟨p, rfl, hlexes⟩ := h.exists_phrase
    refine ⟨key, p, [], rfl, ?_⟩
    simpa [Phrase.tokensOfEntries] using hkeyLexes.colon hlexes
  | .cons hkey h hrest => by
    obtain ⟨key, rfl, hkeyLexes⟩ := hkey.exists_atom
    obtain ⟨p, rfl, hlexes⟩ := h.exists_phrase
    obtain ⟨next, value, rest, rfl, hmore⟩ := hrest.exists_phrases
    refine ⟨key, p, (next, value) :: rest, rfl, ?_⟩
    have hentry := (hkeyLexes.colon hlexes).comma hmore
    simpa [Phrase.tokensOfEntries] using hentry

end

/-! Plain expressions have canonical texts. -/

theorem exists_scalarText {value : Scalar} (h : IsPlainScalar value) :
    ∃ text, ScalarText value text := by
  cases value with
  | null => exact ⟨_, .null⟩
  | bool b =>
    cases b with
    | true => exact ⟨_, .truth⟩
    | false => exact ⟨_, .falsehood⟩
  | int n => exact ⟨_, .int n h.1⟩
  | float x => exact h.elim
  | text s => exact ⟨_, .text s (Or.inl rfl)⟩

/-- Elements of which each has a text have one together, however they are bracketed. -/
theorem exists_canonical_group {grouping : Grouping} {items : List Expression}
    (hset : grouping = .set → items ≠ [])
    (h : items ≠ [] → ∃ text, CanonicalItems items text) :
    ∃ text, Canonical (.group grouping items) text := by
  match grouping, items with
  | .list, [] => exact ⟨_, .emptyList⟩
  | .tuple, [] => exact ⟨_, .emptyTuple⟩
  | .set, [] => exact absurd rfl (hset rfl)
  | .list, e :: items =>
    obtain ⟨text, htext⟩ := h (List.cons_ne_nil e items)
    exact ⟨_, .list htext⟩
  | .set, e :: items =>
    obtain ⟨text, htext⟩ := h (List.cons_ne_nil e items)
    exact ⟨_, .set htext⟩
  | .tuple, [e] =>
    obtain ⟨text, htext⟩ := h (List.cons_ne_nil e [])
    cases htext with
    | last hlast => exact ⟨_, .single hlast⟩
    | cons _ hrest => cases hrest
  | .tuple, e :: second :: items =>
    obtain ⟨text, htext⟩ := h (List.cons_ne_nil e _)
    exact ⟨_, .tuple htext⟩

mutual

theorem exists_canonical : ∀ e : Expression, e.IsPlain → ∃ text, Canonical e text
  | .atom value, h => by
    obtain ⟨text, htext⟩ := exists_scalarText h
    exact ⟨text, .atom htext⟩
  | .group grouping items, h => by
    rw [IsPlain] at h
    exact exists_canonical_group h.1 (exists_canonicalItems items h.2)
  | .dict [], _ => ⟨_, .emptyDict⟩
  | .dict (entry :: entries), h => by
    rw [IsPlain] at h
    obtain ⟨text, htext⟩ := exists_canonicalEntries (entry :: entries) h (List.cons_ne_nil _ _)
    exact ⟨_, .dict htext⟩
termination_by structural e => e

theorem exists_canonicalItems : ∀ items : List Expression, ArePlain items → items ≠ [] →
    ∃ text, CanonicalItems items text
  | [], _, hne => absurd rfl hne
  | e :: items, h, _ => by
    rw [ArePlain] at h
    obtain ⟨text, htext⟩ := exists_canonical e h.1
    by_cases hne : items = []
    · rw [hne]
      exact ⟨text, .last htext⟩
    · obtain ⟨rest, hrest⟩ := exists_canonicalItems items h.2 hne
      exact ⟨_, .cons htext hrest⟩
termination_by structural items => items

theorem exists_canonicalEntries : ∀ entries : List (Scalar × Expression),
    EntriesArePlain entries → entries ≠ [] → ∃ text, CanonicalEntries entries text
  | [], _, hne => absurd rfl hne
  | (key, e) :: entries, h, _ => by
    rw [EntriesArePlain] at h
    obtain ⟨keyText, hkey⟩ := exists_scalarText h.1
    obtain ⟨text, htext⟩ := exists_canonical e h.2.1
    by_cases hne : entries = []
    · rw [hne]
      exact ⟨_, .last hkey htext⟩
    · obtain ⟨rest, hrest⟩ := exists_canonicalEntries entries h.2.2 hne
      exact ⟨_, .cons hkey htext hrest⟩
termination_by structural entries => entries

end

/-- A text is read as what the grammar derives from its tokens. -/
theorem parse_ofList_ok_iff (cs : List Char) (e : Expression) :
    parse (String.ofList cs) = .ok e ↔ Derives (lex cs) e := by
  rw [derives_iff_run, lex, ← Progress.finish_ok_iff, parse, tokens, String.toList_ofList]

/-- Every expression whose scalars are null, truth values, texts or integers above the
least, and whose sets are not empty, has a canonical text, and is read from it. -/
theorem parse_canonical (e : Expression) (he : e.IsPlain) :
    (∃ text, Canonical e text) ∧
      ∀ text, Canonical e text → parse (String.ofList text) = .ok e := by
  refine ⟨exists_canonical e he, fun text htext => ?_⟩
  obtain ⟨p, hp, hlexes⟩ := htext.exists_phrase
  rw [parse_ofList_ok_iff, hlexes.lex_eq]
  exact ⟨p, rfl, hp⟩

/-- A tuple of one number under a key with a quote and a bracket in it. -/
def nested : Expression :=
  .dict [(.text "it's ]", .group .tuple [.atom (.int (-1))])]

theorem parse_canonical_nested :
    nested.IsPlain ∧ Canonical nested "\x7b'it\\'s ]': (-1,)\x7d".toList ∧
      parse "\x7b'it\\'s ]': (-1,)\x7d" = .ok nested := by
  have hnumber : -2 ^ 63 < (-1 : Int64).toInt ∧ (-1 : Int64).toInt < 2 ^ 63 := by decide
  have hplain : nested.IsPlain := by
    simp [nested, IsPlain, ArePlain, EntriesArePlain, IsPlainScalar]
  have htuple : Canonical (.group .tuple [.atom (.int (-1))]) "(-1,)".toList :=
    .single (.atom (.int (-1) hnumber.1))
  have htext : Canonical nested "\x7b'it\\'s ]': (-1,)\x7d".toList :=
    .dict (.last (.text "it's ]" (Or.inr rfl)) htuple)
  have hread := (parse_canonical nested hplain).2 _ htext
  rw [String.ofList_toList] at hread
  exact ⟨hplain, htext, hread⟩

end Wiring.Expression
