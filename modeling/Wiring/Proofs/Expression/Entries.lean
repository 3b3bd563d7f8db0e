import Wiring.Proofs.Definition.Keys
import Wiring.Proofs.Expression.Acceptance
import Wiring.Proofs.Expression.Meaning
import Wiring.Proofs.Expression.Spans

/-!
Which entries of a dictionary get into its definition. Entries are put in by the texts of
their keys, so all of them stay exactly if these are different. No float in a text is the one
that is not a number, so different keys have different texts unless they are of two kinds
and written alike.
-/

namespace Wiring

namespace Entries

variable {α : Type}

theorem mem_putAll {entry : String × α} {done : Entries α} (hmem : entry ∈ done)
    {entries : Entries α} (hnew : entry.1 ∉ keys entries) : entry ∈ putAll done entries := by
  induction entries generalizing done with
  | nil => exact hmem
  | cons next rest ih =>
    obtain ⟨hne, hrest⟩ := not_or.mp (mt List.mem_cons.mpr hnew)
    exact ih (mem_put_of_ne next.2 hne hmem) hrest

/-- The last of the values of a key stays. -/
theorem mem_settled_of_last (before : Entries α) {key : String} (value : α)
    {after : Entries α} (hlast : key ∉ keys after) :
    (key, value) ∈ settled (before ++ (key, value) :: after) := by
  rw [← putAll_empty, putAll, List.foldl_append]
  exact mem_putAll (mem_put_self key value _) hlast

end Entries

theorem Binary64.isNaN_neg {x : Binary64} (hx : x.isNaN = false) : x.neg.isNaN = false := by
  apply isNaN_ofParts_of_le
  rw [isNaN, decide_eq_false_iff_not] at hx
  omega

/-- A definition contains itself and what its items or its entries contain. -/
inductive ValueDefinition.Contains (part : ValueDefinition) : ValueDefinition → Prop where
  | self : Contains part part
  | item {name : String} {shape : Shape} {items : List ValueDefinition} {item : ValueDefinition}
      (hmem : item ∈ items) (hin : Contains part item) :
      Contains part (.sequence name shape items)
  | entry {name key : String} {entries : List (String × ValueDefinition)}
      {value : ValueDefinition} (hmem : (key, value) ∈ entries) (hin : Contains part value) :
      Contains part (.mapping name entries)

namespace Expression

/-- An expression stands in another one, at any depth. -/
inductive Occurs (part : Expression) : Expression → Prop where
  | self : Occurs part part
  | item {grouping : Grouping} {items : List Expression} {item : Expression}
      (hmem : item ∈ items) (hin : Occurs part item) : Occurs part (.group grouping items)
  | value {entries : List (Scalar × Expression)} {key : Scalar} {value : Expression}
      (hmem : (key, value) ∈ entries) (hin : Occurs part value) : Occurs part (.dict entries)

/-- An expression stands in another one, and in no entry whose key has the text of a later
one. Its definition is named after its place. -/
inductive Kept (part : Expression) (place : String) : Expression → String → Prop where
  | self : Kept part place part place
  | item {name : String} {grouping : Grouping} {before after : List Expression}
      {item : Expression}
      (hin : Kept part place item (Naming.element name grouping.shape.label before.length)) :
      Kept part place (.group grouping (before ++ item :: after)) name
  | value {name : String} {before after : List (Scalar × Expression)} {key : Scalar}
      {value : Expression} (hlast : ∀ later ∈ after, later.1.key ≠ key.key)
      (hin : Kept part place value (Naming.entry name key.key)) :
      Kept part place (.dict (before ++ (key, value) :: after)) name

theorem Kept.occurs {part e : Expression} {place name : String} (h : Kept part place e name) :
    Occurs part e := by
  induction h with
  | self => exact .self
  | item _ ih => exact .item (by simp) ih
  | value _ _ ih => exact .value (List.mem_append_right _ List.mem_cons_self) ih

theorem mem_itemDefinitions (name : String) (shape : Shape) (index : Nat)
    (before after : List Expression) (item : Expression) :
    item.toDefinition (Naming.element name shape.label (index + before.length)) ∈
      itemDefinitions name shape index (before ++ item :: after) := by
  induction before generalizing index with
  | nil =>
    rw [List.nil_append, itemDefinitions]
    exact List.mem_cons_self
  | cons first before ih =>
    have hmem := ih (index + 1)
    rw [show index + 1 + before.length = index + (before.length + 1) by omega] at hmem
    rw [List.cons_append, itemDefinitions]
    exact List.mem_cons_of_mem _ hmem

/-- What is kept of an expression has its definition in that of the expression. -/
theorem Kept.contains {part e : Expression} {place name : String} (h : Kept part place e name) :
    (part.toDefinition place).Contains (e.toDefinition name) := by
  induction h with
  | self => exact .self
  | @item name grouping before after item _ ih =>
    have hmem := mem_itemDefinitions name grouping.shape 0 before after item
    rw [Nat.zero_add] at hmem
    rw [toDefinition]
    exact .item hmem ih
  | @value name before after key value hlast _ ih =>
    have hnew : key.key ∉ Entries.keys (converted name after) := by
      rintro hmem
      obtain ⟨later, hlater, hkey⟩ := List.mem_map.mp hmem
      obtain ⟨entry, hentry, rfl⟩ := List.mem_map.mp hlater
      exact hlast entry hentry hkey
    rw [toDefinition, entryDefinitions_eq, Entries.putAll_empty, converted, List.map_append]
    exact .entry (Entries.mem_settled_of_last _ _ hnew) ih

theorem keys_converted (name : String) (entries : List (Scalar × Expression)) :
    Entries.keys (converted name entries) = entries.map fun entry => entry.1.key := by
  rw [Entries.keys, converted, List.map_map]
  rfl

/-- A dictionary has an entry for each of its own exactly if the texts of the keys differ. -/
theorem toDefinition_dict_iff (name : String) (entries : List (Scalar × Expression)) :
    (dict entries).toDefinition name = .mapping name (converted name entries) ↔
      entries.Pairwise fun a b => a.1.key ≠ b.1.key := by
  rw [toDefinition, entryDefinitions_eq, Entries.putAll_empty, ValueDefinition.mapping.injEq,
    and_iff_right rfl, Entries.settled_eq_self_iff, Entries.KeysDistinct, keys_converted,
    List.Nodup, List.pairwise_map]

/-! Numbers in texts. -/

/-- If the token is a float, it is a number. -/
def Token.NotNaN (token : Token) : Prop := ∀ x, token = .float x → x.isNaN = false

theorem notNaN_wordToken (cs : List Char) : (wordToken cs).NotNaN := by
  unfold wordToken
  split
  · rintro x ⟨⟩
  · split
    · rintro x ⟨⟩
    · split <;> rintro x ⟨⟩

theorem notNaN_wholeToken (digits : List Char) : (wholeToken digits).NotNaN := by
  rw [wholeToken]
  split <;> rintro x ⟨⟩

theorem notNaN_markToken (c : Char) : (markToken c).NotNaN := by
  intro x hx
  unfold markToken at hx
  split at hx <;> cases hx

theorem notNaN_read (c : Char) (cs : List Char) : (Lexeme.read c cs).token.NotNaN := by
  unfold Lexeme.read
  split
  · exact notNaN_wordToken _
  · split
    · simp only [Lexeme.ofDigit, Number.spanDigits]
      split
      · rintro x ⟨rfl⟩
        exact Number.isNaN_ofDigits _ _ _ _
      · exact notNaN_wholeToken _
    · split
      · rw [Lexeme.ofQuote]
        split <;> rintro x ⟨⟩
      · exact notNaN_markToken c

theorem notNaN_of_mem_tokensAt {position : Nat} {cs : List Char} {token : SpannedToken}
    (hmem : token ∈ tokensAt position cs) : token.token.NotNaN := by
  obtain ⟨front, c, ds, -, -, rfl⟩ := exists_lexeme_of_mem hmem
  exact notNaN_read c ds

theorem Atom.notNaN {a : Atom} (htokens : ∀ token ∈ a.tokens, token.NotNaN) :
    a.scalar.NotNaN := by
  cases a with
  | float x =>
    rintro _ ⟨rfl⟩
    exact htokens (.float x) List.mem_cons_self x rfl
  | negativeFloat x =>
    rintro _ ⟨rfl⟩
    exact Binary64.isNaN_neg (htokens (.float x) (List.mem_cons_of_mem _ List.mem_cons_self) x rfl)
  | _ => rintro _ ⟨⟩

/-- Whichever keys in an expression are floats are numbers. -/
def KeysNotNaN (e : Expression) : Prop :=
  ∀ entries, Occurs (.dict entries) e → ∀ entry ∈ entries, entry.1.NotNaN

/-- Whichever scalars in an expression are floats are numbers. -/
def NotNaN (e : Expression) : Prop :=
  (∀ value, Occurs (.atom value) e → value.NotNaN) ∧ e.KeysNotNaN

theorem notNaN_atom {value : Scalar} (hvalue : value.NotNaN) : NotNaN (.atom value) := by
  refine ⟨?_, ?_⟩
  · rintro other ⟨⟩
    exact hvalue
  · rintro entries ⟨⟩

theorem notNaN_group {grouping : Grouping} {items : List Expression}
    (hitems : ∀ item ∈ items, item.NotNaN) : NotNaN (.group grouping items) := by
  refine ⟨?_, ?_⟩
  · rintro value (_ | ⟨hmem, hin⟩)
    exact (hitems _ hmem).1 value hin
  · rintro entries (_ | ⟨hmem, hin⟩)
    exact (hitems _ hmem).2 entries hin

theorem notNaN_dict {entries : List (Scalar × Expression)}
    (hentries : ∀ entry ∈ entries, entry.1.NotNaN ∧ entry.2.NotNaN) :
    NotNaN (.dict entries) := by
  refine ⟨?_, ?_⟩
  · intro value hoccurs
    cases hoccurs with
    | value hmem hin => exact (hentries _ hmem).2.1 value hin
  · intro inside hoccurs
    cases hoccurs with
    | self => exact fun entry hmem => (hentries entry hmem).1
    | value hmem hin => exact (hentries _ hmem).2.2 inside hin

theorem notNaN_enclose {items : List Expression} (bracket : Bracket) (trailing : Bool)
    (hitems : ∀ item ∈ items, item.NotNaN) : (bracket.enclose items trailing).NotNaN := by
  unfold Bracket.enclose
  split
  · exact notNaN_group hitems
  · exact hitems _ List.mem_cons_self
  · exact notNaN_group hitems
  · exact notNaN_dict (by simp)
  · exact notNaN_group hitems

namespace Phrase

mutual

theorem notNaN_expression :
    ∀ p : Phrase, (∀ token ∈ p.tokens, token.NotNaN) → p.expression.NotNaN
  | .atom _, htokens => notNaN_atom (Atom.notNaN htokens)
  | .empty bracket, _ => notNaN_enclose bracket false (by simp)
  | .comma, _ => notNaN_enclose .round true (by simp)
  | .series bracket first rest trailing, htokens => by
    have hfirst := notNaN_expression first fun token hmem =>
      htokens token (by simp [tokens, hmem])
    have hrest := notNaN_expressions rest fun token hmem =>
      htokens token (by simp [tokens, hmem])
    exact notNaN_enclose bracket trailing (List.forall_mem_cons.mpr ⟨hfirst, hrest⟩)
  | .dict key value rest trailing, htokens => by
    have hkey := Atom.notNaN fun token (hmem : token ∈ key.tokens) =>
      htokens token (by simp [tokens, hmem])
    have hvalue := notNaN_expression value fun token hmem =>
      htokens token (by simp [tokens, hmem])
    have hrest := notNaN_entries rest fun token hmem =>
      htokens token (by simp [tokens, hmem])
    exact notNaN_dict (List.forall_mem_cons.mpr ⟨⟨hkey, hvalue⟩, hrest⟩)
termination_by structural p => p

theorem notNaN_expressions :
    ∀ ps : List Phrase, (∀ token ∈ tokensOfRest ps, token.NotNaN) →
      ∀ e ∈ expressions ps, e.NotNaN
  | [], _ => by simp [expressions]
  | p :: ps, htokens => by
    have hfirst := notNaN_expression p fun token hmem =>
      htokens token (by simp [tokensOfRest, hmem])
    have hrest := notNaN_expressions ps fun token hmem =>
      htokens token (by simp [tokensOfRest, hmem])
    exact List.forall_mem_cons.mpr ⟨hfirst, hrest⟩
termination_by structural ps => ps

theorem notNaN_entries :
    ∀ ps : List (Atom × Phrase), (∀ token ∈ tokensOfEntries ps, token.NotNaN) →
      ∀ entry ∈ entries ps, entry.1.NotNaN ∧ entry.2.NotNaN
  | [], _ => by simp [entries]
  | (key, p) :: ps, htokens => by
    have hkey := Atom.notNaN fun token (hmem : token ∈ key.tokens) =>
      htokens token (by simp [tokensOfEntries, hmem])
    have hvalue := notNaN_expression p fun token hmem =>
      htokens token (by simp [tokensOfEntries, hmem])
    have hrest := notNaN_entries ps fun token hmem =>
      htokens token (by simp [tokensOfEntries, hmem])
    exact List.forall_mem_cons.mpr ⟨⟨hkey, hvalue⟩, hrest⟩
termination_by structural ps => ps

end

end Phrase

theorem notNaN_of_parse {text : String} {e : Expression} (h : parse text = .ok e) :
    e.NotNaN := by
  obtain ⟨p, htokens, rfl⟩ := derives_of_parse h
  apply p.notNaN_expression
  intro token hmem
  rw [htokens] at hmem
  obtain ⟨spanned, hspanned, rfl⟩ := List.mem_map.mp hmem
  exact notNaN_of_mem_tokensAt hspanned

theorem keysNotNaN_of_parse {text : String} {e : Expression} (h : parse text = .ok e) :
    e.KeysNotNaN :=
  (notNaN_of_parse h).2

/-- The definition of a dictionary, wherever it stands in a text, has one entry for each of
its entries, in order and with the definition of its value, exactly if no two of its keys are
the same and none are of two kinds and written alike. It is there in the definition of the
whole text, unless an entry around the dictionary has a key with the text of a later one. -/
theorem dict_keeps_entries_iff (text : String) {e : Expression} (h : parse text = .ok e)
    {entries : List (Scalar × Expression)} (hdict : Occurs (.dict entries) e) :
    (∀ name, (dict entries).toDefinition name = .mapping name (converted name entries) ↔
      entries.Pairwise fun a b => a.1 ≠ b.1 ∧ ¬ a.1.WrittenAlike b.1) ∧
    ∀ name place, Kept (.dict entries) place e name →
      ((dict entries).toDefinition place).Contains (e.toDefinition name) := by
  refine ⟨fun name => ?_, fun name place hkept => hkept.contains⟩
  have hkeys := keysNotNaN_of_parse h entries hdict
  rw [toDefinition_dict_iff]
  apply List.Pairwise.iff_of_mem
  intro a b ha hb
  rw [Ne, Scalar.key_eq_iff (hkeys a ha) (hkeys b hb), not_or]

/-- Entries with a float and a text as their keys. -/
def innerEntries : List (Scalar × Expression) :=
  [(.float ⟨0x3FF8000000000000⟩, .atom .null), (.text "2", .group .list [])]

/-- A dictionary in an entry of another one, behind an item of a list. -/
def nestedEntries : Expression :=
  .group .list [.atom (.int 0), .dict [(.int 1, .dict innerEntries), (.null, .atom (.int 4))]]

theorem dict_keeps_entries_iff_nested :
    parse "[0, \x7b1: \x7b1.5: None, '2': []\x7d, None: 4\x7d]" = .ok nestedEntries ∧
      Occurs (.dict innerEntries) nestedEntries ∧
      (∀ name, (dict innerEntries).toDefinition name =
        .mapping name (converted name innerEntries)) ∧
      ((dict innerEntries).toDefinition "v.list[1].dict['1']").Contains
        (nestedEntries.toDefinition "v") := by
  have htokens : (tokens "[0, \x7b1: \x7b1.5: None, '2': []\x7d, None: 4\x7d]").map
      SpannedToken.token =
      [.opening .square, .int 0, .comma, .opening .curly, .int 1, .colon, .opening .curly,
        .float ⟨0x3FF8000000000000⟩, .colon, .null, .comma, .text "2", .colon,
        .opening .square, .closing .square, .closing .curly, .comma, .null, .colon, .int 4,
        .closing .curly, .closing .square] := by
    decide +kernel
  have hparse : parse "[0, \x7b1: \x7b1.5: None, '2': []\x7d, None: 4\x7d]" =
      .ok nestedEntries := by
    rw [parse, Progress.finish_ok_iff, htokens]
    exact ⟨.after nestedEntries [], rfl, rfl⟩
  have hkept : Kept (.dict innerEntries) "v.list[1].dict['1']" nestedEntries "v" := by
    have hplace : "v.list[1].dict['1']" =
        Naming.entry (Naming.element "v" Grouping.list.shape.label 1) (Scalar.int 1).key := by
      decide +kernel
    have hnext : ∀ later ∈ [(Scalar.null, atom (.int 4))], later.1.key ≠ (Scalar.int 1).key := by
      decide +kernel
    rw [hplace]
    exact @Kept.item _ _ "v" .list [.atom (.int 0)] [] _ (@Kept.value _ _ _ [] _ _ _ hnext .self)
  have hdifferent : innerEntries.Pairwise fun a b => a.1 ≠ b.1 ∧ ¬ a.1.WrittenAlike b.1 := by
    have hkey : (Scalar.float ⟨0x3FF8000000000000⟩).key ≠ (Scalar.text "2").key := by
      decide +kernel
    refine List.pairwise_pair.mpr ⟨by decide, fun halike => hkey halike.key_eq⟩
  obtain ⟨hiff, hcontains⟩ := dict_keeps_entries_iff _ hparse hkept.occurs
  exact ⟨hparse, hkept.occurs, fun name => (hiff name).mpr hdifferent,
    hcontains "v" _ hkept⟩

/-- Entries with an integer and its text as their keys. -/
def clashingEntries : List (Scalar × Expression) :=
  [(.int 1, .atom (.text "a")), (.text "1", .atom (.text "b"))]

/-- The keys are different literals, and the first of the entries is lost. -/
theorem entry_lost_to_text :
    parse "\x7b1: 'a', '1': 'b'\x7d" = .ok (.dict clashingEntries) ∧
      clashingEntries.Pairwise (fun a b => a.1 ≠ b.1) ∧
      (dict clashingEntries).toDefinition "v" =
        .mapping "v" [("1", .scalar "v.dict['1']" (.text "b"))] ∧
      (dict clashingEntries).toDefinition "v" ≠
        .mapping "v" (converted "v" clashingEntries) := by
  have htokens : (tokens "\x7b1: 'a', '1': 'b'\x7d").map SpannedToken.token =
      [.opening .curly, .int 1, .colon, .text "a", .comma, .text "1", .colon, .text "b",
        .closing .curly] := by
    decide +kernel
  have hdefinition : (dict clashingEntries).toDefinition "v" =
      .mapping "v" [("1", .scalar "v.dict['1']" (.text "b"))] := by
    rfl
  refine ⟨?_, List.pairwise_pair.mpr (by decide), hdefinition, ?_⟩
  · rw [parse, Progress.finish_ok_iff, htokens]
    exact ⟨.after (.dict clashingEntries) [], rfl, rfl⟩
  · rw [hdefinition]
    intro hsame
    have hlength := congrArg List.length (ValueDefinition.mapping.inj hsame).2
    cases hlength

end Expression

end Wiring
