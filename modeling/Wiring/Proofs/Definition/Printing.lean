import Wiring.Definition.Display
import Wiring.Proofs.Definition.Equality
import Wiring.Proofs.Number.Writing
import Wiring.Proofs.Text.Quoting

/-!
Printed values are unambiguous. The first characters of a value tell its form, and from there
on the text tells where each part of the value ends: words have fixed letters, quoted texts
end with their quote, integers with their last digit and bracketed values with their bracket.
The printed form of data is therefore the printed form of one value only, whose name and
whose parts' names are not shown.
-/

namespace Wiring

/-- The forms of values that are data, as far as the first characters of a value tell. -/
inductive PrintedForm where
  | null
  | bool (value : Bool)
  | int
  | text
  | mapping
  | sequence (shape : Shape)

namespace PrintedForm

/-- The characters of integers. -/
def isNumeral (c : Char) : Bool := c.isDigit || c == '-'

/-- The form that a bracket, a quote or the letters of a word stand for. -/
def ofOpening : List Char → Option PrintedForm
  | 'n' :: _ => some .null
  | 't' :: _ => some (.bool true)
  | 'f' :: 'a' :: _ => some (.bool false)
  | 'f' :: _ => some (.sequence .frozenSet)
  | 's' :: _ => some (.sequence .set)
  | '[' :: _ => some (.sequence .list)
  | '(' :: _ => some (.sequence .tuple)
  | '\x7b' :: _ => some .mapping
  | '"' :: _ => some .text
  | _ => none

/-- The form of the value that a text begins with, if it begins with one. -/
def read : List Char → Option PrintedForm
  | [] => none
  | c :: rest => if isNumeral c then some .int else ofOpening (c :: rest)

theorem read_numeral {c : Char} {rest : List Char} (hc : isNumeral c = true) :
    read (c :: rest) = some .int := by
  rw [read, if_pos hc]

theorem isNumeral_of_mem_toString {z : Int} {c : Char} (hc : c ∈ (toString z).toList) :
    isNumeral c = true := by
  rw [Number.toList_toString_int, List.mem_append] at hc
  rw [isNumeral, Bool.or_eq_true]
  rcases hc with hsign | hdigit
  · split at hsign
    · rw [List.mem_singleton.mp hsign]
      exact Or.inr rfl
    · cases hsign
  · exact Or.inl (Number.isDigit_of_mem_toDigits hdigit)

theorem read_toString (z : Int) (rest : List Char) :
    read ((toString z).toList ++ rest) = some .int := by
  have hne : (toString z).toList ≠ [] := by
    rw [Number.toList_toString_int]
    simp
  obtain ⟨c, cs, hcs⟩ := List.exists_cons_of_ne_nil hne
  rw [hcs]
  exact read_numeral (isNumeral_of_mem_toString (hcs ▸ List.mem_cons_self))

theorem isNumeral_eq_false {rest : List Char} (hrest : read rest = none) :
    ∀ c ∈ rest.head?, isNumeral c = false := by
  rintro c hc
  cases rest with
  | nil => cases hc
  | cons d rest =>
    obtain rfl : d = c := Option.some.inj hc
    cases hd : isNumeral d with
    | false => rfl
    | true =>
      rw [read_numeral hd] at hrest
      cases hrest

/-- An integer before something that is no value is told from it. -/
theorem toString_append_inj {z w : Int} {rest rest' : List Char} (hrest : read rest = none)
    (hrest' : read rest' = none)
    (hsame : (toString z).toList ++ rest = (toString w).toList ++ rest') :
    z = w ∧ rest = rest' := by
  obtain ⟨hdigits, hrest⟩ := Text.append_inj_of_all (fun _ => isNumeral_of_mem_toString)
    (fun _ => isNumeral_of_mem_toString) (isNumeral_eq_false hrest) (isNumeral_eq_false hrest')
    hsame
  exact ⟨Number.toString_int_inj (String.toList_inj.mp hdigits), hrest⟩

/-! Elements in a row. -/

section Elements

variable {α : Type} {write : α → List Char} {Same : α → α → Prop}

/-- The elements of a row behind the first one, each behind its comma. -/
def behindCommas (write : α → List Char) (xs : List α) : List Char :=
  xs.flatMap fun x => ',' :: ' ' :: write x

theorem intercalate_cons (x : α) (xs : List α) :
    [',', ' '].intercalate ((x :: xs).map write) = write x ++ behindCommas write xs := by
  induction xs generalizing x with
  | nil => simp [behindCommas]
  | cons y xs ih =>
    rw [List.map_cons, List.map_cons, List.intercalate_cons_cons, ← List.map_cons, ih]
    simp [behindCommas]

/-- Whatever stands behind them, two written elements that read alike are the same. -/
def Legible (write : α → List Char) (Same : α → α → Prop) (x y : α) : Prop :=
  ∀ {rest rest' : List Char}, read rest = none → read rest' = none →
    write x ++ rest = write y ++ rest' → Same x y ∧ rest = rest'

variable {xs ys : List α} {close : Char} {rest rest' : List Char}

theorem read_behindCommas (hclose : read (close :: rest) = none) :
    read (behindCommas write xs ++ close :: rest) = none := by
  cases xs with
  | nil => exact hclose
  | cons => rfl

theorem behindCommas_append_inj (hlegible : ∀ x ∈ xs, ∀ y ∈ ys, Legible write Same x y)
    (hcomma : close ≠ ',') (hclose : ∀ rest, read (close :: rest) = none)
    (hsame : behindCommas write xs ++ close :: rest = behindCommas write ys ++ close :: rest') :
    List.Forall₂ Same xs ys ∧ rest = rest' := by
  induction xs generalizing ys with
  | nil =>
    cases ys with
    | nil => exact ⟨.nil, (List.cons.inj hsame).2⟩
    | cons => exact absurd (List.cons.inj hsame).1 hcomma
  | cons x xs ih =>
    cases ys with
    | nil => exact absurd (List.cons.inj hsame).1.symm hcomma
    | cons y ys =>
      rw [List.forall_mem_cons] at hlegible
      have hboth : write x ++ (behindCommas write xs ++ close :: rest) =
          write y ++ (behindCommas write ys ++ close :: rest') := by
        simpa [behindCommas] using hsame
      obtain ⟨hhead, htail⟩ := hlegible.1 y List.mem_cons_self
        (read_behindCommas (hclose rest)) (read_behindCommas (hclose rest')) hboth
      obtain ⟨hrow, hrest⟩ :=
        ih (fun z hz w hw => hlegible.2 z hz w (List.mem_cons_of_mem y hw)) htail
      exact ⟨.cons hhead hrow, hrest⟩

/-- A row of elements up to its bracket tells its elements, and where it ends. -/
theorem intercalate_append_inj (hlegible : ∀ x ∈ xs, ∀ y ∈ ys, Legible write Same x y)
    (hxs : ∀ x ∈ xs, ∀ rest, read (write x ++ rest) ≠ none)
    (hys : ∀ y ∈ ys, ∀ rest, read (write y ++ rest) ≠ none)
    (hcomma : close ≠ ',') (hclose : ∀ rest, read (close :: rest) = none)
    (hsame : [',', ' '].intercalate (xs.map write) ++ close :: rest =
      [',', ' '].intercalate (ys.map write) ++ close :: rest') :
    List.Forall₂ Same xs ys ∧ rest = rest' := by
  cases xs with
  | nil =>
    cases ys with
    | nil => exact ⟨.nil, (List.cons.inj hsame).2⟩
    | cons y ys =>
      rw [intercalate_cons, List.append_assoc] at hsame
      have hbegins := hys y List.mem_cons_self (behindCommas write ys ++ close :: rest')
      rw [← hsame] at hbegins
      exact absurd (hclose rest) hbegins
  | cons x xs =>
    rw [intercalate_cons, List.append_assoc] at hsame
    cases ys with
    | nil =>
      have hbegins := hxs x List.mem_cons_self (behindCommas write xs ++ close :: rest)
      rw [hsame] at hbegins
      exact absurd (hclose rest') hbegins
    | cons y ys =>
      rw [intercalate_cons, List.append_assoc] at hsame
      rw [List.forall_mem_cons] at hlegible
      obtain ⟨hhead, htail⟩ := hlegible.1 y List.mem_cons_self
        (read_behindCommas (hclose rest)) (read_behindCommas (hclose rest')) hsame
      obtain ⟨hrow, hrest⟩ := behindCommas_append_inj
        (fun z hz w hw => hlegible.2 z hz w (List.mem_cons_of_mem y hw)) hcomma hclose htail
      exact ⟨.cons hhead hrow, hrest⟩

end Elements

end PrintedForm

/-- The character that ends a sequence of a shape. -/
def Shape.closer : Shape → Char
  | .list => ']'
  | .tuple => ')'
  | .set => '\x7d'
  | .frozenSet => '\x7d'

theorem Shape.toList_brackets_snd (shape : Shape) : shape.brackets.2.toList = [shape.closer] := by
  cases shape <;> rfl

theorem Shape.closer_ne_comma (shape : Shape) : shape.closer ≠ ',' := by
  cases shape <;> decide

theorem Shape.read_closer (shape : Shape) (rest : List Char) :
    PrintedForm.read (shape.closer :: rest) = none := by
  cases shape <;> rfl

namespace ValueDefinition

open PrintedForm (Legible intercalate_append_inj)

mutual

/-- The same value with no names in it: neither its own nor those of its parts. An inline
object keeps its definition. -/
def unnamed : ValueDefinition → ValueDefinition
  | .scalar _ value => .scalar "" value
  | .reference _ target => .reference "" target
  | .inner _ definition => .inner "" definition
  | .mapping _ entries => .mapping "" (unnamedEntries entries)
  | .sequence _ shape items => .sequence "" shape (unnamedItems items)
termination_by structural d => d

def unnamedItems : List ValueDefinition → List ValueDefinition
  | [] => []
  | item :: items => item.unnamed :: unnamedItems items
termination_by structural items => items

def unnamedEntries : List (String × ValueDefinition) → List (String × ValueDefinition)
  | [] => []
  | (key, value) :: entries => (key, value.unnamed) :: unnamedEntries entries
termination_by structural entries => entries

end

theorem unnamedItems_eq (items : List ValueDefinition) :
    unnamedItems items = items.map unnamed := by
  induction items with
  | nil => rfl
  | cons item items ih => rw [unnamedItems, ih, List.map_cons]

theorem unnamedEntries_eq (entries : List (String × ValueDefinition)) :
    unnamedEntries entries = entries.map fun entry => (entry.1, entry.2.unnamed) := by
  induction entries with
  | nil => rfl
  | cons entry entries ih => rw [unnamedEntries, ih, List.map_cons]

theorem displayItems_eq (items : List ValueDefinition) :
    displayItems items = items.map display := by
  induction items with
  | nil => rfl
  | cons item items ih => rw [displayItems, ih, List.map_cons]

theorem displayEntries_eq (entries : List (String × ValueDefinition)) :
    displayEntries entries =
      entries.map fun entry => Text.quoted entry.1 ++ ": " ++ entry.2.display := by
  induction entries with
  | nil => rfl
  | cons entry entries ih => rw [displayEntries, ih, List.map_cons]

/-- A value made of nothing, truth values, integers and texts by sequences of every shape and
mappings, nested to any depth. -/
inductive IsData : ValueDefinition → Prop where
  | null (name : String) : IsData (.scalar name .null)
  | bool (name : String) (value : Bool) : IsData (.scalar name (.bool value))
  | int (name : String) (value : Int64) : IsData (.scalar name (.int value))
  | text (name value : String) : IsData (.scalar name (.text value))
  | sequence (name : String) (shape : Shape) {items : List ValueDefinition}
      (hitems : ∀ item ∈ items, IsData item) : IsData (.sequence name shape items)
  | mapping (name : String) {entries : List (String × ValueDefinition)}
      (hentries : ∀ entry ∈ entries, IsData entry.2) : IsData (.mapping name entries)

/-- The characters of a printed value. -/
def written (d : ValueDefinition) : List Char := d.display.toList

/-- The characters of a printed entry of a mapping. -/
def writtenEntry (entry : String × ValueDefinition) : List Char :=
  Text.quotedChars entry.1.toList ++ ([':', ' '] ++ entry.2.written)

theorem written_sequence (name : String) (shape : Shape) (items : List ValueDefinition)
    (rest : List Char) :
    (sequence name shape items).written ++ rest = shape.brackets.1.toList ++
      ([',', ' '].intercalate (items.map written) ++ shape.closer :: rest) := by
  rw [written, display, displayItems_eq, String.toList_append, String.toList_append,
    String.toList_intercalate, List.map_map, shape.toList_brackets_snd, List.append_assoc,
    List.append_assoc]
  rfl

theorem written_mapping (name : String) (entries : List (String × ValueDefinition))
    (rest : List Char) :
    (mapping name entries).written ++ rest =
      '\x7b' :: ([',', ' '].intercalate (entries.map writtenEntry) ++ '\x7d' :: rest) := by
  have hentries : (displayEntries entries).map String.toList = entries.map writtenEntry := by
    rw [displayEntries_eq, List.map_map]
    apply List.map_congr_left
    intro entry _
    simp [writtenEntry, written, Text.quoted]
  rw [written, display, String.toList_append, String.toList_append,
    String.toList_intercalate, hentries, List.append_assoc, List.append_assoc]
  rfl

/-- The form of a value that is data. -/
def form : ValueDefinition → Option PrintedForm
  | .scalar _ .null => some .null
  | .scalar _ (.bool value) => some (.bool value)
  | .scalar _ (.int _) => some .int
  | .scalar _ (.text _) => some .text
  | .mapping _ _ => some .mapping
  | .sequence _ shape _ => some (.sequence shape)
  | _ => none

variable {d e : ValueDefinition}

/-- The form of data is told by the first characters of its printed form. -/
theorem IsData.read_written (hd : d.IsData) (rest : List Char) :
    PrintedForm.read (d.written ++ rest) = d.form := by
  cases hd with
  | null =>
    rw [written, display]
    rfl
  | bool _ value =>
    rw [written, display]
    cases value <;> rfl
  | int _ value => exact PrintedForm.read_toString value.toInt rest
  | text _ value =>
    rw [written, display, Scalar.display, Text.quoted, String.toList_ofList]
    rfl
  | sequence _ shape _ =>
    rw [written_sequence]
    cases shape <;> rfl
  | mapping =>
    rw [written_mapping]
    rfl

theorem IsData.read_ne_none (hd : d.IsData) (rest : List Char) :
    PrintedForm.read (d.written ++ rest) ≠ none := by
  rw [hd.read_written]
  cases hd <;> exact Option.some_ne_none _

theorem read_writtenEntry_ne_none (entry : String × ValueDefinition) (rest : List Char) :
    PrintedForm.read (writtenEntry entry ++ rest) ≠ none := Option.some_ne_none PrintedForm.text

theorem written_int (name : String) (value : Int64) :
    (scalar name (.int value)).written = (toString value.toInt).toList := rfl

theorem written_text (name value : String) :
    (scalar name (.text value)).written = Text.quotedChars value.toList := by
  rw [written, display, Scalar.display, Text.quoted, String.toList_ofList]

/-- Two values are the same up to their names. -/
def SameUnnamed (d e : ValueDefinition) : Prop := d.unnamed = e.unnamed

def SameEntry (entry other : String × ValueDefinition) : Prop :=
  entry.1 = other.1 ∧ entry.2.SameUnnamed other.2

theorem forall₂_sameUnnamed {items others : List ValueDefinition}
    (hsame : List.Forall₂ SameUnnamed items others) :
    unnamedItems items = unnamedItems others := by
  induction hsame with
  | nil => rfl
  | cons hhead _ ih => exact congrArg₂ List.cons hhead ih

theorem forall₂_sameEntry {entries others : List (String × ValueDefinition)}
    (hsame : List.Forall₂ SameEntry entries others) :
    unnamedEntries entries = unnamedEntries others := by
  induction hsame with
  | nil => rfl
  | cons hhead _ ih =>
    exact congrArg₂ List.cons (Prod.ext hhead.1 hhead.2) ih

/-- Printed entries are told apart when printed values are. -/
theorem legible_entry {entry other : String × ValueDefinition}
    (hvalue : Legible written SameUnnamed entry.2 other.2) :
    Legible writtenEntry SameEntry entry other := by
  intro rest rest' hrest hrest' hsame
  simp only [writtenEntry, List.append_assoc] at hsame
  obtain ⟨hkey, hbehind⟩ := Text.quotedChars_append_inj hsame
  obtain ⟨hvalues, hrest⟩ := hvalue hrest hrest' (List.append_cancel_left hbehind)
  exact ⟨⟨String.toList_inj.mp hkey, hvalues⟩, hrest⟩

/-- Values that are printed alike are of the same form, so only those have to be told
apart. -/
theorem IsData.legible_of_form (hd : d.IsData) (he : e.IsData)
    (hlegible : d.form = e.form → Legible written SameUnnamed d e) :
    Legible written SameUnnamed d e := by
  intro rest rest' hrest hrest' hsame
  have hform : d.form = e.form := by
    rw [← hd.read_written rest, hsame, he.read_written rest']
  exact hlegible hform hrest hrest' hsame

/-- The printed form of data tells the data up to names, and where the printed form ends. -/
theorem IsData.legible (hd : d.IsData) (he : e.IsData) : Legible written SameUnnamed d e := by
  refine hd.legible_of_form he fun hform => ?_
  induction hd generalizing e with
  | null =>
    cases he with
    | null => exact fun _ _ hsame => ⟨rfl, List.append_cancel_left hsame⟩
    | bool | int | text | sequence | mapping => cases hform
  | bool =>
    cases he with
    | bool =>
      cases hform
      exact fun _ _ hsame => ⟨rfl, List.append_cancel_left hsame⟩
    | null | int | text | sequence | mapping => cases hform
  | int _ value =>
    cases he with
    | int _ other =>
      intro rest rest' hrest hrest' hsame
      rw [written_int, written_int] at hsame
      obtain ⟨hvalue, hrest⟩ := PrintedForm.toString_append_inj hrest hrest' hsame
      obtain rfl : value = other := Int64.toInt_inj.mp hvalue
      exact ⟨rfl, hrest⟩
    | null | bool | text | sequence | mapping => cases hform
  | text _ value =>
    cases he with
    | text _ other =>
      intro rest rest' _ _ hsame
      rw [written_text, written_text] at hsame
      obtain ⟨hvalue, hrest⟩ := Text.quotedChars_append_inj hsame
      obtain rfl : value = other := String.toList_inj.mp hvalue
      exact ⟨rfl, hrest⟩
    | null | bool | int | sequence | mapping => cases hform
  | @sequence _ shape items hitems ih =>
    cases he with
    | @sequence _ _ others hothers =>
      cases hform
      intro rest rest' _ _ hsame
      rw [written_sequence, written_sequence] at hsame
      have hlegible : ∀ item ∈ items, ∀ other ∈ others,
          Legible written SameUnnamed item other :=
        fun item hitem other hother => (hitems item hitem).legible_of_form (hothers other hother)
          (ih item hitem (hothers other hother))
      obtain ⟨hrow, hrest⟩ := intercalate_append_inj hlegible
        (fun item hitem => (hitems item hitem).read_ne_none)
        (fun other hother => (hothers other hother).read_ne_none)
        shape.closer_ne_comma shape.read_closer (List.append_cancel_left hsame)
      refine ⟨?_, hrest⟩
      rw [SameUnnamed, unnamed, unnamed, forall₂_sameUnnamed hrow]
    | null | bool | int | text | mapping => cases hform
  | @mapping _ entries hentries ih =>
    cases he with
    | @mapping _ others hothers =>
      intro rest rest' _ _ hsame
      rw [written_mapping, written_mapping] at hsame
      have hlegible : ∀ entry ∈ entries, ∀ other ∈ others,
          Legible writtenEntry SameEntry entry other :=
        fun entry hentry other hother => legible_entry
          ((hentries entry hentry).legible_of_form (hothers other hother)
            (ih entry hentry (hothers other hother)))
      obtain ⟨hrow, hrest⟩ := intercalate_append_inj hlegible
        (fun entry _ => read_writtenEntry_ne_none entry)
        (fun other _ => read_writtenEntry_ne_none other)
        (by decide) (fun _ => rfl) (List.cons.inj hsame).2
      refine ⟨?_, hrest⟩
      rw [SameUnnamed, unnamed, unnamed, forall₂_sameEntry hrow]
    | null | bool | int | text | sequence => cases hform

/-- What is printed of a value does not depend on names. -/
theorem display_unnamed (d : ValueDefinition) : d.unnamed.display = d.display := by
  induction d using induction_parts with
  | scalar | reference | inner => rfl
  | sequence _ shape items ih =>
    have hitems : (items.map unnamed).map display = items.map display := by
      rw [List.map_map]
      exact List.map_congr_left ih
    rw [unnamed, display, display, displayItems_eq, displayItems_eq, unnamedItems_eq, hitems]
  | mapping _ entries ih =>
    have hentries : displayEntries (unnamedEntries entries) = displayEntries entries := by
      rw [displayEntries_eq, displayEntries_eq, unnamedEntries_eq, List.map_map]
      apply List.map_congr_left
      intro entry hentry
      rw [Function.comp_apply, ih entry hentry]
    rw [unnamed, display, display, hentries]

/-- Data are printed alike if and only if they are the same value up to names: nothing that
is written inside a text or a key can be taken for the structure around it. -/
theorem display_eq_iff (hd : d.IsData) (he : e.IsData) :
    d.display = e.display ↔ d.unnamed = e.unnamed := by
  constructor
  · intro hsame
    have hwritten : d.written ++ [] = e.written ++ [] := by rw [written, written, hsame]
    exact (hd.legible he rfl rfl hwritten).1
  · intro hsame
    rw [← d.display_unnamed, hsame, e.display_unnamed]

/-- A list of two texts, and a list of one text that holds what is printed between the two. -/
theorem display_eq_iff_separator :
    (sequence "" .list [.scalar "" (.text "a"), .scalar "" (.text "b")]).IsData ∧
      (sequence "" .list [.scalar "" (.text "a\", \"b")]).IsData ∧
      (sequence "" .list [.scalar "" (.text "a"), .scalar "" (.text "b")]).display ≠
        (sequence "" .list [.scalar "" (.text "a\", \"b")]).display := by
  have hpair : (sequence "" .list [.scalar "" (.text "a"), .scalar "" (.text "b")]).IsData :=
    .sequence "" .list (by simpa using ⟨.text "" "a", .text "" "b"⟩)
  have hone : (sequence "" .list [.scalar "" (.text "a\", \"b")]).IsData :=
    .sequence "" .list (by simpa using .text "" "a\", \"b")
  refine ⟨hpair, hone, ?_⟩
  rw [Ne, display_eq_iff hpair hone]
  simp [unnamed, unnamedItems]

end ValueDefinition

end Wiring
