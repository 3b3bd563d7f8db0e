import Wiring.Proofs.Dialect.Inside
import Wiring.Proofs.Elaboration.Scalars

/-!
The scalars that documents declare. Markup knows only texts, so each scalar in it is what a
text is read as. Structured text has truth values and nothing besides; its numbers are read as
the texts they are written as.
-/

namespace Wiring

theorem Content.eachScalar_ofText {good : Scalar → Prop} (hgood : ∀ text, good (.ofText text))
    (text : String) : (Content.ofText text).EachScalar good := by
  rw [Content.ofText, Content.EachScalar]
  exact hgood text

theorem Content.eachScalar_nothing (good : Scalar → Prop) : Content.nothing.EachScalar good := by
  rw [Content.nothing, Content.EachScalar]
  trivial

namespace Markup

open Xml (Node Attribute)

section

variable (v : Vocabulary) (uri : String) {good : Scalar → Prop}

theorem eachScalar_reference (attributes : List Attribute) (children : List Node) :
    (reference v attributes children).EachScalar good := by
  unfold reference
  dsimp only
  split <;> (rw [Content.EachScalar]; trivial)

theorem eachScalar_props (hgood : ∀ text, good (.ofText text)) (children : List Node) :
    EachScalarOfEntries good (props uri children) := by
  unfold props
  induction children.filter fun n => n.isNamed uri "prop" with
  | nil => trivial
  | cons n nodes ih =>
    rw [List.map_cons, EachScalarOfEntries]
    exact ⟨Content.eachScalar_ofText hgood _, ih⟩

theorem eachScalar_slot (hgood : ∀ text, good (.ofText text))
    (attributes : List Attribute) {first : Option Content}
    (hfirst : ∀ written, first = some written → written.EachScalar good) :
    (slot attributes first).EachScalar good := by
  unfold slot
  split
  · rw [Content.EachScalar]
    trivial
  · split
    · exact Content.eachScalar_ofText hgood _
    · cases first with
      | some written => exact hfirst written rfl
      | none => exact Content.eachScalar_nothing good

theorem eachScalar_shorthand (hgood : ∀ text, good (.ofText text))
    (name : String) (children : List Node) :
    (shorthand v name children).EachScalar good := by
  unfold shorthand
  split
  · split
    · rw [Shorthand.EachScalar]
      exact Content.eachScalar_ofText hgood _
    · trivial
  · trivial

theorem eachScalar_declarationOf (hgood : ∀ text, good (.ofText text)) (name : String)
    (attributes : List Attribute) (children : List Node) {arguments : List WrittenArgument}
    {properties : List WrittenProperty}
    (harguments : EachScalarOfArguments good arguments)
    (hproperties : EachScalarOfProperties good properties) :
    (declarationOf v name attributes children arguments properties).EachScalar good := by
  rw [declarationOf, Declaration.EachScalar]
  exact ⟨eachScalar_shorthand v hgood name children, harguments, hproperties⟩

-- The induction is on the tree, as the recursion of the reader is.
mutual

theorem eachScalar_content (hgood : ∀ text, good (.ofText text)) :
    ∀ node : Node, (content v uri node).EachScalar good
  | .element name attributes children => by
    rw [content]
    split
    · rw [Content.EachScalar]
      trivial
    · split
      · exact eachScalar_reference v attributes children
      · dsimp only
        split
        · cases hfirst : firstContent v uri children with
          | some first => exact eachScalar_firstContent hgood children first hfirst
          | none => exact Content.eachScalar_ofText hgood _
        · exact Content.eachScalar_ofText hgood _
      · rw [Content.EachScalar]
        exact eachScalar_props uri hgood children
      · rw [Content.EachScalar]
        exact eachScalar_contents hgood children
      · rw [Content.EachScalar]
        exact eachScalar_entries hgood children
      · rw [Content.EachScalar]
        exact eachScalar_declarationOf v hgood _ attributes children
          (eachScalar_arguments hgood children) (eachScalar_properties hgood children)
      · rw [Content.EachScalar]
        trivial
  | .text _ => Content.eachScalar_nothing good
  | .comment _ => Content.eachScalar_nothing good
  | .instruction .. => Content.eachScalar_nothing good
termination_by structural node => node

theorem eachScalar_firstContent (hgood : ∀ text, good (.ofText text)) :
    ∀ (nodes : List Node) (first : Content),
    firstContent v uri nodes = some first → first.EachScalar good
  | [], first, hfirst => by
    rw [firstContent] at hfirst
    cases hfirst
  | node :: nodes, first, hfirst => by
    rw [firstContent] at hfirst
    split at hfirst
    · obtain rfl := Option.some.inj hfirst
      exact eachScalar_content hgood node
    · exact eachScalar_firstContent hgood nodes first hfirst
termination_by structural nodes => nodes

theorem eachScalar_contents (hgood : ∀ text, good (.ofText text)) :
    ∀ nodes : List Node, EachScalarOfItems good (contents v uri nodes)
  | [] => by
    rw [contents]
    trivial
  | node :: nodes => by
    rw [contents]
    split
    · rw [EachScalarOfItems]
      exact ⟨eachScalar_content hgood node, eachScalar_contents hgood nodes⟩
    · exact eachScalar_contents hgood nodes
termination_by structural nodes => nodes

theorem eachScalar_entryContent (hgood : ∀ text, good (.ofText text)) :
    ∀ (nodes : List Node) (value : Content),
    entryContent v uri nodes = some value → value.EachScalar good
  | [], value, hvalue => by
    rw [entryContent] at hvalue
    cases hvalue
  | node :: nodes, value, hvalue => by
    rw [entryContent] at hvalue
    split at hvalue
    · obtain rfl := Option.some.inj hvalue
      exact eachScalar_content hgood node
    · exact eachScalar_entryContent hgood nodes value hvalue
termination_by structural nodes => nodes

theorem eachScalar_entries (hgood : ∀ text, good (.ofText text)) :
    ∀ nodes : List Node, EachScalarOfEntries good (entries v uri nodes)
  | [] => by
    rw [entries]
    trivial
  | .element name attributes children :: nodes => by
    have hrest := eachScalar_entries hgood nodes
    have hvalue : (((entryContent v uri children).or
        ((Xml.attribute? "value" attributes).map Content.ofText)).getD .nothing).EachScalar
          good := by
      cases hcontent : entryContent v uri children with
      | some value => exact eachScalar_entryContent hgood children value hcontent
      | none =>
        cases Xml.attribute? "value" attributes with
        | some text => exact Content.eachScalar_ofText hgood text
        | none => exact Content.eachScalar_nothing good
    rw [entries]
    split
    · cases entryKey? uri attributes children with
      | some key => exact ⟨hvalue, hrest⟩
      | none => exact hrest
    · exact hrest
  | .text _ :: nodes => eachScalar_entries hgood nodes
  | .comment _ :: nodes => eachScalar_entries hgood nodes
  | .instruction .. :: nodes => eachScalar_entries hgood nodes
termination_by structural nodes => nodes

theorem eachScalar_arguments (hgood : ∀ text, good (.ofText text)) :
    ∀ nodes : List Node,
    EachScalarOfArguments good (arguments v uri nodes)
  | [] => by
    rw [arguments]
    trivial
  | .element name attributes children :: nodes => by
    have hrest := eachScalar_arguments hgood nodes
    have hslot := eachScalar_slot hgood attributes (eachScalar_firstContent hgood children)
    rw [arguments]
    split
    · cases Xml.attribute? "name" attributes <;> exact ⟨hslot, hrest⟩
    · exact hrest
  | .text _ :: nodes => eachScalar_arguments hgood nodes
  | .comment _ :: nodes => eachScalar_arguments hgood nodes
  | .instruction .. :: nodes => eachScalar_arguments hgood nodes
termination_by structural nodes => nodes

theorem eachScalar_properties (hgood : ∀ text, good (.ofText text)) :
    ∀ nodes : List Node,
    EachScalarOfProperties good (properties v uri nodes)
  | [] => by
    rw [properties]
    trivial
  | .element name attributes children :: nodes => by
    have hrest := eachScalar_properties hgood nodes
    have hslot := eachScalar_slot hgood attributes (eachScalar_firstContent hgood children)
    rw [properties]
    split
    · cases Xml.attribute? "name" attributes with
      | some name => exact ⟨hslot, hrest⟩
      | none => exact hrest
    · exact hrest
  | .text _ :: nodes => eachScalar_properties hgood nodes
  | .comment _ :: nodes => eachScalar_properties hgood nodes
  | .instruction .. :: nodes => eachScalar_properties hgood nodes
termination_by structural nodes => nodes

end

/-- Every scalar that a document in markup declares is read from a text. -/
theorem eachScalar_document (hgood : ∀ text, good (.ofText text)) (root : Node) :
    ∀ top ∈ document v uri root, top.EachScalar good := by
  intro top htop
  obtain ⟨node, -, rfl⟩ := List.mem_map.mp htop
  unfold topLevel
  split
  · trivial
  · exact eachScalar_declarationOf v hgood _ node.attributes node.children
      (eachScalar_arguments v uri hgood _) (eachScalar_properties v uri hgood _)

end

end Markup

namespace StructuredText

open Yaml (Mapping)

variable {good : Scalar → Prop}

theorem eachScalar_item {written : Content} (hwritten : written.EachScalar good) :
    (item written).EachScalar good := by
  cases written with
  | unusable complaints =>
    rw [item, Content.EachScalar]
    trivial
  | _ => exact hwritten

theorem eachScalar_contents {items : List Yaml.Value}
    (hitems : ∀ v ∈ items, (content v).EachScalar good) :
    EachScalarOfItems good (contents items) := by
  induction items with
  | nil => trivial
  | cons v items ih =>
    obtain ⟨hv, hrest⟩ := List.forall_mem_cons.mp hitems
    rw [contents, EachScalarOfItems]
    exact ⟨eachScalar_item hv, ih hrest⟩

theorem eachScalar_writtenEntries {entries : Mapping}
    (hentries : ∀ entry ∈ entries, (content entry.2).EachScalar good) :
    EachScalarOfEntries good (writtenEntries entries) := by
  induction entries with
  | nil => trivial
  | cons entry entries ih =>
    obtain ⟨k, v⟩ := entry
    obtain ⟨hv, hrest⟩ := List.forall_mem_cons.mp hentries
    rw [writtenEntries]
    cases k.keyText? with
    | some key => exact ⟨hv, ih hrest⟩
    | none => exact ih hrest

theorem eachScalar_positional {items : List Yaml.Value}
    (hitems : ∀ v ∈ items, (content v).EachScalar good) :
    EachScalarOfArguments good (positional items) := by
  induction items with
  | nil => trivial
  | cons v items ih =>
    obtain ⟨hv, hrest⟩ := List.forall_mem_cons.mp hitems
    cases v with
    | null =>
      rw [positional, EachScalarOfArguments]
      exact ⟨Content.eachScalar_nothing good, ih hrest⟩
    | _ =>
      rw [positional, EachScalarOfArguments]
      · exact ⟨hv, ih hrest⟩
      · exact nofun

theorem eachScalar_named {entries : Mapping}
    (hentries : ∀ entry ∈ entries, (content entry.2).EachScalar good) :
    EachScalarOfArguments good (named entries) := by
  induction entries with
  | nil => trivial
  | cons entry entries ih =>
    obtain ⟨k, v⟩ := entry
    obtain ⟨hv, hrest⟩ := List.forall_mem_cons.mp hentries
    rw [named]
    cases k.keyText? with
    | some key => exact ⟨hv, ih hrest⟩
    | none => exact ih hrest

theorem eachScalar_namedProperties {entries : Mapping}
    (hentries : ∀ entry ∈ entries, (content entry.2).EachScalar good) :
    EachScalarOfProperties good (namedProperties entries) := by
  induction entries with
  | nil => trivial
  | cons entry entries ih =>
    obtain ⟨k, v⟩ := entry
    obtain ⟨hv, hrest⟩ := List.forall_mem_cons.mp hentries
    rw [namedProperties]
    cases k.keyText? with
    | some key => exact ⟨hv, ih hrest⟩
    | none => exact ih hrest

theorem eachScalar_firstShorthand {types : List (Builtin × Option Content)}
    (htypes : ∀ type written, (type, some written) ∈ types → written.EachScalar good) :
    (firstShorthand types).EachScalar good := by
  cases hfirst : firstShorthand types with
  | absent => trivial
  | present type written =>
    rw [Shorthand.EachScalar]
    exact htypes type written (exists_of_firstShorthand hfirst)

/-- A declaration with some entries has in it what is written in their values. -/
theorem eachScalar_declaration {entries : Mapping}
    (hentries : ∀ entry ∈ entries, ∀ w : Yaml.Value, w.Inside entry.2 →
      (content w).EachScalar good) :
    (declaration entries).EachScalar good := by
  have hunder {key : String} {v : Yaml.Value} (hfind : Mapping.find? key entries = some v)
      {w : Yaml.Value} (hinside : w.Inside v) : (content w).EachScalar good := by
    obtain ⟨k, hmem⟩ := mem_of_find? hfind
    exact hentries (k, v) hmem w hinside
  rw [declaration, declarationOf, Declaration.EachScalar, arguments_eq, properties_eq]
  refine ⟨?_, ?_, ?_⟩
  · refine eachScalar_firstShorthand fun type written hmem => ?_
    obtain ⟨t, -, hpair⟩ := List.mem_map.mp hmem
    obtain ⟨-, hcontent⟩ := Prod.mk.inj hpair
    rw [contentUnder_eq, Option.map_eq_some_iff] at hcontent
    obtain ⟨v, hfind, rfl⟩ := hcontent
    exact hunder hfind .self
  · cases hfind : Mapping.find? "constructor-args" entries with
    | none => trivial
    | some v =>
      cases v with
      | sequence items => exact eachScalar_positional fun w hw => hunder hfind (.item hw .self)
      | mapping inner =>
        exact eachScalar_named fun entry hentry => hunder hfind (.entry hentry .self)
      | _ => trivial
  · cases hfind : Mapping.find? "properties" entries with
    | none => trivial
    | some v =>
      cases v with
      | mapping inner =>
        exact eachScalar_namedProperties fun entry hentry => hunder hfind (.entry hentry .self)
      | _ => trivial

theorem eachScalar_reference (target : Yaml.Value) : (reference target).EachScalar good := by
  unfold reference
  dsimp only
  split
  · rw [Content.EachScalar]
    trivial
  · exact Content.eachScalar_nothing good

/-- What is good of the scalars that plain values are read as is good of all scalars. -/
theorem eachScalar_content (hgood : ∀ v s, scalar? v = some s → good s) (v : Yaml.Value) :
    (content v).EachScalar good := by
  induction v using Yaml.Value.induction_inside with
  | sequence items ih =>
    rw [content, Content.EachScalar]
    exact eachScalar_contents fun v hv => ih v hv v .self
  | mapping entries ih =>
    have htells := tells_form entries
    rw [content_mapping]
    cases hform : form entries with
    | reference target =>
      rw [Form.content]
      exact eachScalar_reference target
    | sequence shape key items =>
      rw [hform] at htells
      obtain ⟨k, hmem⟩ := mem_of_sequenceUnder? (sequenceUnder?_of_collection? htells.2)
      rw [Form.content, Content.EachScalar]
      exact eachScalar_contents fun v hv => ih _ hmem v (.item hv .self)
    | dictionary inner =>
      rw [hform] at htells
      obtain ⟨k, hmem⟩ := mem_of_mappingUnder? htells.2.2
      rw [Form.content, Content.EachScalar]
      exact eachScalar_writtenEntries fun entry hentry => ih _ hmem entry.2 (.entry hentry .self)
    | declaration =>
      rw [Form.content, Content.EachScalar]
      exact eachScalar_declaration ih
    | plain =>
      rw [Form.content, Content.EachScalar]
      exact eachScalar_writtenEntries fun entry hentry => ih entry hentry entry.2 .self
  | plain v hsequence hmapping =>
    have hplain := hgood v
    cases v with
    | sequence items => exact absurd rfl (hsequence items)
    | mapping entries => exact absurd rfl (hmapping entries)
    | tagged =>
      rw [content, Content.EachScalar]
      trivial
    | null | bool | number | string => exact hplain _ rfl

/-- Every scalar that a document in structured text declares is read from a plain value. -/
theorem eachScalar_document (hgood : ∀ v s, scalar? v = some s → good s)
    (mappings : List Mapping) : ∀ top ∈ document mappings, top.EachScalar good := by
  intro top htop
  obtain ⟨entries, -, rfl⟩ := List.mem_map.mp htop
  unfold topLevel
  split
  · exact eachScalar_declaration fun _ _ w _ => eachScalar_content hgood w
  · trivial

end StructuredText

end Wiring
