import Wiring.Proofs.Dialect.Form
import Wiring.Proofs.Elaboration.Inline
import Wiring.Proofs.Parity.Agreement

/-!
Where the declarations of a document are written. Whatever is read as an inline
declaration is written as one somewhere inside the element or the value that it is read
from.
-/

namespace Wiring

namespace Xml.Node

/-- A node is another one or written in it, at any depth. -/
inductive Inside (inner : Node) : Node → Prop
  | self : Inside inner inner
  | child {name : Name} {attributes : List Attribute} {children : List Node} {node : Node}
      (hmem : node ∈ children) (hinside : Inside inner node) :
      Inside inner (.element name attributes children)

/-- A node is among some nodes, at any depth. -/
def Among (inner : Node) (nodes : List Node) : Prop := ∃ node ∈ nodes, inner.Inside node

variable {inner node other : Node} {nodes : List Node}

theorem Inside.trans (hinner : inner.Inside node) (hnode : node.Inside other) :
    inner.Inside other := by
  induction hnode with
  | self => exact hinner
  | child hmem _ ih => exact .child hmem ih

theorem Among.of_mem (hmem : node ∈ nodes) : node.Among nodes := ⟨node, hmem, .self⟩

theorem Among.tail (hamong : inner.Among nodes) (node : Node) : inner.Among (node :: nodes) := by
  obtain ⟨other, hmem, hinside⟩ := hamong
  exact ⟨other, List.mem_cons_of_mem _ hmem, hinside⟩

/-- What is among the children of a node is so among all nodes that it is one of. -/
theorem Among.of_children {name : Name} {attributes : List Attribute} {children : List Node}
    (hamong : inner.Among children) (hmem : .element name attributes children ∈ nodes) :
    inner.Among nodes := by
  obtain ⟨child, hchild, hinside⟩ := hamong
  exact ⟨_, hmem, .child hchild hinside⟩

theorem Among.inside {name : Name} {attributes : List Attribute} {children : List Node}
    (hamong : inner.Among children) : inner.Inside (.element name attributes children) := by
  obtain ⟨child, hchild, hinside⟩ := hamong
  exact .child hchild hinside

theorem inside_of_mem_elements {root : Node} (hmem : node ∈ Xml.elements root.children) :
    node.Inside root := by
  have hmem : node ∈ root.children := List.mem_of_mem_filter hmem
  cases root with
  | element name attributes children => exact .child hmem .self
  | _ => cases hmem

theorem Inside.sizeOf_le (hinside : inner.Inside node) : sizeOf inner ≤ sizeOf node := by
  induction hinside with
  | self => exact Nat.le_refl _
  | @child name attributes children node hmem _ ih =>
    have hlt := List.sizeOf_lt_of_mem hmem
    simp only [Node.element.sizeOf_spec]
    omega

/-- What holds of an element if it holds of everything written in it holds of all nodes. -/
theorem induction_inside {motive : Node → Prop}
    (element : ∀ name attributes children, (∀ n : Node, n.Among children → motive n) →
      motive (.element name attributes children))
    (text : ∀ content, motive (.text content)) (comment : ∀ content, motive (.comment content))
    (instruction : ∀ target content, motive (.instruction target content)) :
    ∀ node, motive node := by
  intro node
  induction hsize : sizeOf node using Nat.strongRecOn generalizing node with
  | ind size ih =>
    cases node with
    | element name attributes children =>
      apply element
      intro n hamong
      obtain ⟨child, hmem, hinside⟩ := hamong
      have hle := hinside.sizeOf_le
      have hlt := List.sizeOf_lt_of_mem hmem
      simp only [Node.element.sizeOf_spec] at hsize
      exact ih (sizeOf n) (by omega) n rfl
    | text content => exact text content
    | comment content => exact comment content
    | instruction target content => exact instruction target content

end Xml.Node

namespace Yaml.Value

/-- A value is another one or written in it, at any depth, but not in a key. -/
inductive Inside (inner : Value) : Value → Prop
  | self : Inside inner inner
  | item {items : List Value} {v : Value} (hmem : v ∈ items) (hinside : Inside inner v) :
      Inside inner (.sequence items)
  | entry {entries : Mapping} {key v : Value} (hmem : (key, v) ∈ entries)
      (hinside : Inside inner v) : Inside inner (.mapping entries)

variable {inner v other : Value}

theorem Inside.trans (hinner : inner.Inside v) (hv : v.Inside other) : inner.Inside other := by
  induction hv with
  | self => exact hinner
  | item hmem _ ih => exact .item hmem ih
  | entry hmem _ ih => exact .entry hmem ih

/-- What holds of a sequence or a mapping if it holds of everything written in it holds of
all values. -/
theorem induction_inside {motive : Value → Prop}
    (sequence : ∀ items, (∀ v ∈ items, ∀ w : Value, w.Inside v → motive w) →
      motive (.sequence items))
    (mapping : ∀ entries : Mapping, (∀ entry ∈ entries, ∀ w : Value, w.Inside entry.2 → motive w) →
      motive (.mapping entries))
    (plain : ∀ v : Value, (∀ items, v ≠ .sequence items) → (∀ entries, v ≠ .mapping entries) →
      motive v) : ∀ v, motive v := by
  have hle {w v : Value} (hinside : w.Inside v) : sizeOf w ≤ sizeOf v := by
    induction hinside with
    | self => exact Nat.le_refl _
    | @item items v hmem _ ih =>
      have hlt := List.sizeOf_lt_of_mem hmem
      simp only [Value.sequence.sizeOf_spec]
      omega
    | @entry entries key v hmem _ ih =>
      have hlt := List.sizeOf_lt_of_mem hmem
      simp only [Value.mapping.sizeOf_spec, Prod.mk.sizeOf_spec] at hlt ⊢
      omega
  intro v
  induction hsize : sizeOf v using Nat.strongRecOn generalizing v with
  | ind size ih =>
    cases v with
    | sequence items =>
      apply sequence
      intro v hmem w hinside
      have hlt := List.sizeOf_lt_of_mem hmem
      have hlew := hle hinside
      simp only [Value.sequence.sizeOf_spec] at hsize
      exact ih (sizeOf w) (by omega) w rfl
    | mapping entries =>
      apply mapping
      intro entry hmem w hinside
      have hlt := List.sizeOf_lt_of_mem hmem
      have hlew := hle hinside
      obtain ⟨key, v⟩ := entry
      simp only [Value.mapping.sizeOf_spec, Prod.mk.sizeOf_spec] at hsize hlt hlew
      exact ih (sizeOf w) (by omega) w rfl
    | _ => exact plain _ nofun nofun

end Yaml.Value

/-- The inline declarations of a declaration are in its arguments, in its properties or in
its shorthand. -/
theorem Declaration.mem_inlines {declaration d : Declaration} (hd : d ∈ declaration.inlines) :
    d ∈ inlinesOfArguments declaration.arguments ∨
      d ∈ inlinesOfProperties declaration.properties ∨
        ∃ type content, declaration.shorthand = .present type content ∧ d ∈ content.inlines := by
  obtain ⟨_, typeName, scope, lazyInit, isAbstract, parent, shorthand, element, arguments,
    properties⟩ := declaration
  have hlisted : d ∈ inlinesOfArguments arguments ++ inlinesOfProperties properties →
      d ∈ inlinesOfArguments arguments ∨ d ∈ inlinesOfProperties properties :=
    List.mem_append.mp
  rw [Declaration.inlines] at hd
  split at hd
  · exact (hlisted hd).imp_right Or.inl
  · cases shorthand with
    | absent =>
      rw [Shorthand.inlines?] at hd
      exact (hlisted hd).imp_right Or.inl
    | present type content =>
      rw [Shorthand.inlines?] at hd
      exact Or.inr (Or.inr ⟨type, content, rfl, hd⟩)

@[simp] theorem Content.inlines_ofText (text : String) : (Content.ofText text).inlines = [] := by
  simp [Content.ofText, Content.inlines]

@[simp] theorem Content.inlines_nothing : Content.nothing.inlines = [] := by
  simp [Content.nothing, Content.inlines]

/-- Some inline declarations are all good. -/
def AllGood (good : Declaration → Prop) (written : List Declaration) : Prop :=
  ∀ d ∈ written, good d

@[simp] theorem allGood_nil (good : Declaration → Prop) : AllGood good [] := by
  intro d hd
  cases hd

theorem AllGood.append {good : Declaration → Prop} {written more : List Declaration}
    (hwritten : AllGood good written) (hmore : AllGood good more) :
    AllGood good (written ++ more) :=
  List.forall_mem_append.mpr ⟨hwritten, hmore⟩

namespace Markup

open Xml (Node)

section Lists

variable {v : Vocabulary} {uri : String} {good : Declaration → Prop} {nodes : List Node}

theorem allGood_firstContent
    (hgood : ∀ n : Node, n.Among nodes → AllGood good (content v uri n).inlines)
    {first : Content} (hfirst : firstContent v uri nodes = some first) :
    AllGood good first.inlines := by
  induction nodes with
  | nil => simp [firstContent] at hfirst
  | cons node nodes ih =>
    rw [firstContent] at hfirst
    split at hfirst
    · obtain rfl := Option.some.inj hfirst
      exact hgood node (.of_mem List.mem_cons_self)
    · exact ih (fun n hn => hgood n (hn.tail node)) hfirst

theorem allGood_contents
    (hgood : ∀ n : Node, n.Among nodes → AllGood good (content v uri n).inlines) :
    AllGood good (inlinesOfItems (contents v uri nodes)) := by
  induction nodes with
  | nil => simp [contents, inlinesOfItems]
  | cons node nodes ih =>
    have hrest := ih fun n hn => hgood n (hn.tail node)
    rw [contents]
    split
    · rw [inlinesOfItems]
      exact AllGood.append (hgood node (.of_mem List.mem_cons_self)) hrest
    · exact hrest

theorem allGood_entryContent
    (hgood : ∀ n : Node, n.Among nodes → AllGood good (content v uri n).inlines)
    {value : Content} (hvalue : entryContent v uri nodes = some value) :
    AllGood good value.inlines := by
  induction nodes with
  | nil => simp [entryContent] at hvalue
  | cons node nodes ih =>
    rw [entryContent] at hvalue
    split at hvalue
    · obtain rfl := Option.some.inj hvalue
      exact hgood node (.of_mem List.mem_cons_self)
    · exact ih (fun n hn => hgood n (hn.tail node)) hvalue

theorem allGood_entries
    (hgood : ∀ n : Node, n.Among nodes → AllGood good (content v uri n).inlines) :
    AllGood good (inlinesOfEntries (entries v uri nodes)) := by
  induction nodes with
  | nil => simp [entries, inlinesOfEntries]
  | cons node nodes ih =>
    have hrest := ih fun n hn => hgood n (hn.tail node)
    cases node with
    | element name attributes children =>
      have hvalue : AllGood good (((entryContent v uri children).or
          ((Xml.attribute? "value" attributes).map Content.ofText)).getD .nothing).inlines := by
        cases hcontent : entryContent v uri children with
        | some value =>
          exact allGood_entryContent
            (fun n hn => hgood n (hn.of_children List.mem_cons_self)) hcontent
        | none =>
          cases Xml.attribute? "value" attributes <;>
            simp
      rw [entries]
      split
      · cases entryKey? uri attributes children with
        | some key =>
          simp only [inlinesOfEntries]
          exact hvalue.append hrest
        | none =>
          simp only [inlinesOfEntries]
          exact hrest
      · exact hrest
    | _ => simpa [entries] using hrest

theorem allGood_slot {children : List Node}
    (hgood : ∀ n : Node, n.Among children → AllGood good (content v uri n).inlines)
    (attributes : List Xml.Attribute) :
    AllGood good (slot attributes (firstContent v uri children)).inlines := by
  unfold slot
  split
  · simp [Content.inlines]
  · split
    · simp
    · cases hfirst : firstContent v uri children with
      | some first => exact allGood_firstContent hgood hfirst
      | none => simp

theorem allGood_arguments
    (hgood : ∀ n : Node, n.Among nodes → AllGood good (content v uri n).inlines) :
    AllGood good (inlinesOfArguments (arguments v uri nodes)) := by
  induction nodes with
  | nil => simp [arguments, inlinesOfArguments]
  | cons node nodes ih =>
    have hrest := ih fun n hn => hgood n (hn.tail node)
    cases node with
    | element name attributes children =>
      have hslot := allGood_slot
        (fun n hn => hgood n (hn.of_children List.mem_cons_self)) attributes
      rw [arguments]
      split
      · cases Xml.attribute? "name" attributes <;>
          exact hslot.append hrest
      · exact hrest
    | _ => simpa [arguments] using hrest

theorem allGood_properties
    (hgood : ∀ n : Node, n.Among nodes → AllGood good (content v uri n).inlines) :
    AllGood good (inlinesOfProperties (properties v uri nodes)) := by
  induction nodes with
  | nil => simp [properties, inlinesOfProperties]
  | cons node nodes ih =>
    have hrest := ih fun n hn => hgood n (hn.tail node)
    cases node with
    | element name attributes children =>
      have hslot := allGood_slot
        (fun n hn => hgood n (hn.of_children List.mem_cons_self)) attributes
      rw [properties]
      split
      · cases Xml.attribute? "name" attributes with
        | some name => exact hslot.append hrest
        | none => exact hrest
      · exact hrest
    | _ => simpa [properties] using hrest

theorem allGood_declarationOf (name : String) (attributes : List Xml.Attribute)
    (hgood : ∀ n : Node, n.Among nodes → AllGood good (content v uri n).inlines) :
    AllGood good (declarationOf v name attributes nodes (arguments v uri nodes)
      (properties v uri nodes)).inlines := by
  intro d hd
  rcases Declaration.mem_inlines hd with hd | hd | ⟨type, content, hshorthand, hd⟩
  · exact allGood_arguments hgood d hd
  · exact allGood_properties hgood d hd
  · have hpresent : shorthand v name nodes = .present type content := hshorthand
    unfold shorthand at hpresent
    split at hpresent
    · split at hpresent
      · cases hpresent
        simp at hd
      · cases hpresent
    · cases hpresent

end Lists

/-- Every inline declaration that is read from an element is written as an element in it. -/
theorem inlines_inside (v : Vocabulary) (uri : String) (node : Node) :
    ∀ d ∈ (content v uri node).inlines, ∃ n : Node, n.Inside node ∧ d = declaration v uri n := by
  induction node using Node.induction_inside with
  | element name attributes children ih =>
    have hgood : ∀ n : Node, n.Among children → AllGood (fun d => ∃ m : Node,
        m.Inside (.element name attributes children) ∧ d = declaration v uri m)
          (content v uri n).inlines := by
      intro n hn d hd
      obtain ⟨m, hm, rfl⟩ := ih n hn d hd
      exact ⟨m, hm.trans hn.inside, rfl⟩
    rw [content]
    split
    · simp [Content.inlines]
    · split
      · unfold reference
        dsimp only
        split <;> simp [Content.inlines]
      · dsimp only
        split
        · cases hfirst : firstContent v uri children with
          | some first => exact allGood_firstContent hgood hfirst
          | none => simp
        · simp
      · have hnone (children : List Node) : inlinesOfEntries (children.map fun n =>
            .keyed ((n.attribute? "key").getD "") (Content.ofText (Xml.ownText n.children))) =
              [] := by
          induction children with
          | nil => simp [inlinesOfEntries]
          | cons n children ih => simpa [inlinesOfEntries] using ih
        rw [Content.inlines, props, hnone]
        exact List.forall_mem_nil _
      · rw [Content.inlines]
        exact allGood_contents hgood
      · rw [Content.inlines]
        exact allGood_entries hgood
      · rw [Content.inlines]
        refine List.forall_mem_append.mpr ⟨allGood_declarationOf _ attributes hgood, ?_⟩
        exact List.forall_mem_singleton.mpr ⟨_, .self, rfl⟩
      · simp [Content.inlines]
  | _ => simp [content, Content.nothing, Content.inlines]

/-- The inline declarations of an element are written in it. -/
theorem declaration_inlines_inside (v : Vocabulary) (uri : String) (node : Node) :
    ∀ d ∈ (declaration v uri node).inlines,
      ∃ n : Node, n.Inside node ∧ d = declaration v uri n := by
  apply allGood_declarationOf
  intro n hn d hd
  obtain ⟨m, hm, rfl⟩ := inlines_inside v uri n d hd
  refine ⟨m, hm.trans ?_, rfl⟩
  cases node with
  | element name attributes children => exact hn.inside
  | _ =>
    obtain ⟨child, hmem, -⟩ := hn
    cases hmem

end Markup

namespace StructuredText

open Yaml (Mapping)

section Lists

variable {good : Declaration → Prop}

theorem allGood_item {written : Content} (hgood : AllGood good written.inlines) :
    AllGood good (item written).inlines := by
  cases written with
  | unusable complaints => simp [item, Content.inlines]
  | _ => exact hgood

theorem allGood_contents {items : List Yaml.Value}
    (hgood : ∀ v ∈ items, AllGood good (content v).inlines) :
    AllGood good (inlinesOfItems (contents items)) := by
  induction items with
  | nil => simp [contents, inlinesOfItems]
  | cons v items ih =>
    obtain ⟨hv, hitems⟩ := List.forall_mem_cons.mp hgood
    rw [contents, inlinesOfItems]
    exact (allGood_item hv).append (ih hitems)

theorem allGood_writtenEntries {entries : Mapping}
    (hgood : ∀ entry ∈ entries, AllGood good (content entry.2).inlines) :
    AllGood good (inlinesOfEntries (writtenEntries entries)) := by
  induction entries with
  | nil => simp [writtenEntries, inlinesOfEntries]
  | cons entry entries ih =>
    obtain ⟨k, v⟩ := entry
    obtain ⟨hv, hentries⟩ := List.forall_mem_cons.mp hgood
    rw [writtenEntries]
    cases k.keyText? with
    | some key => exact hv.append (ih hentries)
    | none => exact ih hentries

theorem allGood_positional {items : List Yaml.Value}
    (hgood : ∀ v ∈ items, AllGood good (content v).inlines) :
    AllGood good (inlinesOfArguments (positional items)) := by
  induction items with
  | nil => simp [positional, inlinesOfArguments]
  | cons v items ih =>
    obtain ⟨hv, hitems⟩ := List.forall_mem_cons.mp hgood
    cases v with
    | null =>
      have hnothing : AllGood good Content.nothing.inlines := by
        simp
      rw [positional]
      exact hnothing.append (ih hitems)
    | _ =>
      rw [positional]
      · exact hv.append (ih hitems)
      · exact nofun

theorem allGood_named {entries : Mapping}
    (hgood : ∀ entry ∈ entries, AllGood good (content entry.2).inlines) :
    AllGood good (inlinesOfArguments (named entries)) := by
  induction entries with
  | nil => simp [named, inlinesOfArguments]
  | cons entry entries ih =>
    obtain ⟨k, v⟩ := entry
    obtain ⟨hv, hentries⟩ := List.forall_mem_cons.mp hgood
    rw [named]
    cases k.keyText? with
    | some key => exact hv.append (ih hentries)
    | none => exact ih hentries

theorem allGood_namedProperties {entries : Mapping}
    (hgood : ∀ entry ∈ entries, AllGood good (content entry.2).inlines) :
    AllGood good (inlinesOfProperties (namedProperties entries)) := by
  induction entries with
  | nil => simp [namedProperties, inlinesOfProperties]
  | cons entry entries ih =>
    obtain ⟨k, v⟩ := entry
    obtain ⟨hv, hentries⟩ := List.forall_mem_cons.mp hgood
    rw [namedProperties]
    cases k.keyText? with
    | some key => exact hv.append (ih hentries)
    | none => exact ih hentries

theorem mem_of_find? {key : String} {entries : Mapping} {v : Yaml.Value}
    (hfind : Mapping.find? key entries = some v) : ∃ k, (k, v) ∈ entries := by
  induction entries with
  | nil => simp [Mapping.find?] at hfind
  | cons entry entries ih =>
    obtain ⟨k, w⟩ := entry
    rw [find?_cons] at hfind
    split at hfind
    · obtain rfl := Option.some.inj hfind
      exact ⟨k, List.mem_cons_self⟩
    · obtain ⟨k', hmem⟩ := ih hfind
      exact ⟨k', List.mem_cons_of_mem _ hmem⟩

theorem exists_of_firstShorthand {types : List (Builtin × Option Content)} {type : Builtin}
    {written : Content} (hfirst : firstShorthand types = .present type written) :
    (type, some written) ∈ types := by
  induction types with
  | nil => cases hfirst
  | cons entry types ih =>
    obtain ⟨t, c⟩ := entry
    cases c with
    | some c =>
      cases hfirst
      exact List.mem_cons_self
    | none => exact List.mem_cons_of_mem _ (ih hfirst)

/-- What is written in a value of some entries is all that a declaration with these entries
has in it. -/
theorem allGood_declaration {entries : Mapping}
    (hgood : ∀ entry ∈ entries, ∀ w : Yaml.Value, w.Inside entry.2 →
      AllGood good (content w).inlines) :
    AllGood good (declaration entries).inlines := by
  have hunder {key : String} {v : Yaml.Value} (hfind : Mapping.find? key entries = some v)
      {w : Yaml.Value} (hinside : w.Inside v) : AllGood good (content w).inlines := by
    obtain ⟨k, hmem⟩ := mem_of_find? hfind
    exact hgood (k, v) hmem w hinside
  intro d hd
  rcases Declaration.mem_inlines hd with hd | hd | ⟨type, written, hshorthand, hd⟩
  · have hd : d ∈ inlinesOfArguments (arguments entries) := hd
    rw [arguments_eq] at hd
    cases hfind : Mapping.find? "constructor-args" entries with
    | none => simp [hfind, inlinesOfArguments] at hd
    | some v =>
      rw [hfind] at hd
      cases v with
      | sequence items =>
        exact allGood_positional (fun w hw => hunder hfind (.item hw .self)) d hd
      | mapping inner =>
        exact allGood_named (fun entry hentry => hunder hfind (.entry hentry .self)) d hd
      | _ => simp [inlinesOfArguments] at hd
  · have hd : d ∈ inlinesOfProperties (properties entries) := hd
    rw [properties_eq] at hd
    cases hfind : Mapping.find? "properties" entries with
    | none => simp [hfind, inlinesOfProperties] at hd
    | some v =>
      rw [hfind] at hd
      cases v with
      | mapping inner =>
        exact allGood_namedProperties (fun entry hentry => hunder hfind (.entry hentry .self)) d hd
      | _ => simp [inlinesOfProperties] at hd
  · obtain ⟨t, -, hpair⟩ := List.mem_map.mp (exists_of_firstShorthand hshorthand)
    obtain ⟨-, hcontent⟩ := Prod.mk.inj hpair
    rw [contentUnder_eq, Option.map_eq_some_iff] at hcontent
    obtain ⟨v, hfind, rfl⟩ := hcontent
    exact hunder hfind .self d hd

end Lists

/-- Every inline declaration that is read from a value is written as a mapping in it. -/
theorem inlines_inside (v : Yaml.Value) :
    ∀ d ∈ (content v).inlines, ∃ entries : Mapping,
      (Yaml.Value.mapping entries).Inside v ∧ d = declaration entries := by
  induction v using Yaml.Value.induction_inside with
  | sequence items ih =>
    rw [content, Content.inlines]
    apply allGood_contents
    intro v hmem d hd
    obtain ⟨entries, hinside, rfl⟩ := ih v hmem v .self d hd
    exact ⟨entries, .item hmem hinside, rfl⟩
  | mapping entries ih =>
    have hgood : ∀ entry ∈ entries, ∀ w : Yaml.Value, w.Inside entry.2 →
        AllGood (fun d => ∃ inner : Mapping,
          (Yaml.Value.mapping inner).Inside (.mapping entries) ∧ d = declaration inner)
            (content w).inlines := by
      intro entry hmem w hw d hd
      obtain ⟨inner, hinside, rfl⟩ := ih entry hmem w hw d hd
      exact ⟨inner, .entry hmem (hinside.trans hw), rfl⟩
    have htells := tells_form entries
    rw [content_mapping]
    cases hform : form entries with
    | reference target =>
      have hnone : (reference target).inlines = [] := by
        unfold reference
        dsimp only
        split
        · rw [Content.inlines]
        · exact Content.inlines_nothing
      rw [Form.content, hnone]
      exact List.forall_mem_nil _
    | sequence shape key items =>
      rw [hform] at htells
      obtain ⟨k, hmem⟩ := mem_of_sequenceUnder? (sequenceUnder?_of_collection? htells.2)
      rw [Form.content, Content.inlines]
      exact allGood_contents fun v hv => hgood _ hmem v (.item hv .self)
    | dictionary inner =>
      rw [hform] at htells
      obtain ⟨k, hmem⟩ := mem_of_mappingUnder? htells.2.2
      rw [Form.content, Content.inlines]
      exact allGood_writtenEntries fun entry hentry => hgood _ hmem entry.2 (.entry hentry .self)
    | declaration =>
      rw [Form.content, Content.inlines]
      refine List.forall_mem_append.mpr ⟨allGood_declaration hgood, ?_⟩
      exact List.forall_mem_singleton.mpr ⟨entries, .self, rfl⟩
    | plain =>
      rw [Form.content, Content.inlines]
      exact allGood_writtenEntries fun entry hentry => hgood entry hentry entry.2 .self
  | plain v hsequence hmapping =>
    cases v with
    | sequence items => exact absurd rfl (hsequence items)
    | mapping entries => exact absurd rfl (hmapping entries)
    | _ => simp [content, scalar?, Content.inlines]

/-- The inline declarations of a mapping are written in it. -/
theorem declaration_inlines_inside (entries : Mapping) :
    ∀ d ∈ (declaration entries).inlines, ∃ inner : Mapping,
      (Yaml.Value.mapping inner).Inside (.mapping entries) ∧ d = declaration inner := by
  apply allGood_declaration
  intro entry hmem w hw d hd
  obtain ⟨inner, hinside, rfl⟩ := inlines_inside w d hd
  exact ⟨inner, .entry hmem (hinside.trans hw), rfl⟩

end StructuredText

end Wiring
