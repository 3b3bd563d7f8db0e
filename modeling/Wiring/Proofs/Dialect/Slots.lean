import Wiring.Proofs.Dialect.Inside
import Wiring.Proofs.Elaboration.Pruning
import Wiring.Proofs.Elaboration.Record

/-!
What authors put in the slots of a constructor. A slot that has no value was left open or
there is one complaint about what is in it, but for one thing: structured text says nothing
about a reference whose target is no text.
-/

namespace Wiring

/-- What a constructor slot is given. -/
inductive Filling where
  /-- Nothing, so that a template can fill it. -/
  | vacant
  /-- A reference in structured text whose target is no text. -/
  | targetless
  /-- Anything else. -/
  | given
deriving DecidableEq

namespace Filling

/-- The complaints about what has no value in a slot. -/
def Explains : Filling → List Complaint → Prop
  | .given, complaints => ∃ complaint, complaints = [complaint]
  | .vacant, complaints => complaints = []
  | .targetless, complaints => complaints = []

/-- If the content of a slot has no value, the filling explains its complaints. -/
def Fits (filling : Filling) (content : Content) : Prop :=
  ∀ complaints, content = .unusable complaints → filling.Explains complaints

theorem fits_of_isUsable (filling : Filling) {content : Content} (husable : content.isUsable) :
    filling.Fits content := by
  rintro complaints rfl
  cases husable

end Filling

namespace Markup

open Xml (Node)

/-- The elements of the positional arguments among some nodes. -/
def slotElements (uri : String) (nodes : List Node) : List Node :=
  nodes.filter fun n => n.isNamed uri "constructor-arg" && (n.attribute? "name").isNone

/-- An argument is given by an attribute or by an element in it. -/
def filling (argument : Node) : Filling :=
  if (argument.attribute? "ref").isSome || (argument.attribute? "value").isSome ||
      argument.children.any Node.isElement then .given
  else .vacant

/-- The fillings of the constructor slots of a declaration. The text of a shorthand fills
the only slot that it has. -/
def fillings (v : Vocabulary) (uri : String) (node : Node) : List Filling :=
  let listed := (slotElements uri node.children).map filling
  let declaration := declaration v uri node
  if Declaration.isTyped declaration.typeName declaration.parent then listed
  else
    match declaration.shorthand with
    | .absent => listed
    | .present .. => [.given]

section Contents

variable {v : Vocabulary} {uri : String} {nodes : List Node}

theorem exists_of_firstContent {first : Content} (hfirst : firstContent v uri nodes = some first) :
    ∃ node ∈ nodes, node.isElement ∧ content v uri node = first := by
  induction nodes with
  | nil => simp [firstContent] at hfirst
  | cons node nodes ih =>
    rw [firstContent] at hfirst
    split at hfirst
    · rename_i helement
      exact ⟨node, List.mem_cons_self, helement, Option.some.inj hfirst⟩
    · obtain ⟨n, hmem, hn⟩ := ih hfirst
      exact ⟨n, List.mem_cons_of_mem _ hmem, hn⟩

theorem any_isElement_of_firstContent {first : Content}
    (hfirst : firstContent v uri nodes = some first) : nodes.any Node.isElement := by
  obtain ⟨node, hmem, helement, -⟩ := exists_of_firstContent hfirst
  exact List.any_eq_true.mpr ⟨node, hmem, helement⟩

theorem firstContent_eq_none (hnone : firstContent v uri nodes = none) :
    nodes.any Node.isElement = false := by
  induction nodes with
  | nil => rfl
  | cons node nodes ih =>
    rw [firstContent] at hnone
    split at hnone
    · cases hnone
    · rename_i helement
      simp [helement, ih hnone]

/-- There is exactly one complaint about an element that has no value. -/
theorem exists_complaint_of_content (node : Node) (helement : node.isElement)
    {complaints : List Complaint} (hcontent : content v uri node = .unusable complaints) :
    ∃ complaint, complaints = [complaint] := by
  induction node using Node.induction_inside with
  | element name attributes children ih =>
    rw [content] at hcontent
    split at hcontent
    · cases hcontent
      exact ⟨_, rfl⟩
    · split at hcontent
      · unfold reference at hcontent
        dsimp only at hcontent
        split at hcontent
        · cases hcontent
        · cases hcontent
          exact ⟨_, rfl⟩
      · dsimp only at hcontent
        split at hcontent
        · cases hfirst : firstContent v uri children with
          | some first =>
            obtain ⟨node, hmem, hnode, hsame⟩ := exists_of_firstContent hfirst
            rw [hfirst, Option.getD_some, ← hsame] at hcontent
            exact ih node (.of_mem hmem) hnode hcontent
          | none =>
            rw [hfirst] at hcontent
            cases hcontent
        · cases hcontent
      · cases hcontent
      · cases hcontent
      · cases hcontent
      · cases hcontent
      · cases hcontent
        exact ⟨_, rfl⟩
  | _ => cases helement

theorem fits_slot (argument : Node) :
    (filling argument).Fits (slot argument.attributes (firstContent v uri argument.children)) := by
  intro complaints hslot
  unfold slot at hslot
  split at hslot
  · cases hslot
  · rename_i href
    split at hslot
    · cases hslot
    · rename_i hvalue
      cases hfirst : firstContent v uri argument.children with
      | some first =>
        have hgiven : filling argument = .given := by
          simp [filling, any_isElement_of_firstContent hfirst]
        obtain ⟨node, -, helement, hsame⟩ := exists_of_firstContent hfirst
        rw [hfirst, Option.getD_some, ← hsame] at hslot
        rw [hgiven]
        exact exists_complaint_of_content node helement hslot
      | none =>
        have hvacant : filling argument = .vacant := by
          simp [filling, Node.attribute?, href, hvalue, firstContent_eq_none hfirst]
        rw [hfirst] at hslot
        cases hslot
        rw [hvacant]
        rfl

theorem fits_positionals (nodes : List Node) : List.Forall₂ Filling.Fits
    ((slotElements uri nodes).map filling) (positionals (arguments v uri nodes)) := by
  induction nodes with
  | nil =>
    rw [arguments, positionals]
    exact .nil
  | cons node nodes ih =>
    cases node with
    | element name attributes children =>
      rw [arguments]
      by_cases hname : name = ⟨some uri, "constructor-arg"⟩
      · rw [if_pos hname]
        cases hattribute : Xml.attribute? "name" attributes with
        | some key => simpa [slotElements, Node.attribute?, Node.attributes, hattribute,
            positionals] using ih
        | none =>
          have hfirst : (filling (.element name attributes children)).Fits
              (slot attributes (firstContent v uri children)) :=
            fits_slot (.element name attributes children)
          have hslots : slotElements uri (.element name attributes children :: nodes) =
              .element name attributes children :: slotElements uri nodes := by
            simp [slotElements, Node.isNamed, Node.attribute?, Node.attributes, hattribute, hname]
          rw [hslots, List.map_cons, positionals]
          exact .cons hfirst ih
      · rw [if_neg hname]
        simpa [slotElements, Node.isNamed, hname] using ih
    | _ => simpa [slotElements, Node.isNamed, arguments] using ih

/-- The slots of a declaration in markup have the contents that their fillings tell. -/
theorem fits_slots (v : Vocabulary) (uri : String) (node : Node) :
    List.Forall₂ Filling.Fits (fillings v uri node) (declaration v uri node).slots := by
  have hlisted : List.Forall₂ Filling.Fits ((slotElements uri node.children).map filling)
      (positionals (declaration v uri node).arguments) := fits_positionals node.children
  unfold fillings Declaration.slots
  dsimp only
  split
  · exact hlisted
  · cases hshorthand : (declaration v uri node).shorthand with
    | absent => exact hlisted
    | present type written =>
      have hpresent : shorthand v node.name.localName node.children =
          .present type written := hshorthand
      have husable : written.isUsable := by
        unfold shorthand at hpresent
        split at hpresent
        · split at hpresent
          · cases hpresent
            rfl
          · cases hpresent
        · cases hpresent
      exact .cons (Filling.fits_of_isUsable _ husable) .nil

end Contents

end Markup

namespace StructuredText

open Yaml (Mapping)

/-- A value is given unless it is empty or a reference that has no target. -/
def filling : Yaml.Value → Filling
  | .null => .vacant
  | .mapping entries =>
    match Mapping.find? "ref" entries with
    | some target => if (reference target).isUsable then .given else .targetless
    | none => .given
  | _ => .given

/-- The values in the constructor slots of a declaration. A shorthand has one. -/
def slotValues (entries : Mapping) : List Yaml.Value :=
  match shortType? entries with
  | some type => (Mapping.find? type.name entries).toList
  | none =>
    match Mapping.find? "constructor-args" entries with
    | some (.sequence items) => items
    | _ => []

def fillings (entries : Mapping) : List Filling := (slotValues entries).map filling

theorem isUsable_form_content {entries : Mapping} (href : Mapping.find? "ref" entries = none) :
    ((form entries).content entries).isUsable := by
  have htells := tells_form entries
  cases hform : form entries with
  | reference target =>
    rw [hform, Form.Tells, href] at htells
    cases htells
  | _ => rfl

/-- The complaints about a value are those that its filling explains, and an empty value has
a value of its own. -/
theorem fits_content (value : Yaml.Value) : (filling value).Fits (content value) := by
  cases value with
  | mapping entries =>
    intro complaints hcontent
    rw [content_mapping] at hcontent
    cases href : Mapping.find? "ref" entries with
    | none =>
      have husable := isUsable_form_content href
      rw [hcontent] at husable
      cases husable
    | some target =>
      have hform : form entries = .reference target := form_of_tells href
      rw [hform, Form.content] at hcontent
      have htargetless : filling (.mapping entries) = .targetless := by
        simp [filling, href, hcontent, Content.isUsable]
      unfold reference at hcontent
      dsimp only at hcontent
      split at hcontent
      · cases hcontent
      · cases hcontent
        rw [htargetless]
        rfl
  | tagged tag value =>
    intro complaints hcontent
    rw [content] at hcontent
    cases hcontent
    exact ⟨_, rfl⟩
  | sequence items =>
    apply Filling.fits_of_isUsable
    rw [content]
    rfl
  | _ =>
    apply Filling.fits_of_isUsable
    simp [content, scalar?, Content.isUsable]

theorem fits_positionals (items : List Yaml.Value) :
    List.Forall₂ Filling.Fits (items.map filling) (positionals (positional items)) := by
  induction items with
  | nil =>
    rw [positional, positionals]
    exact .nil
  | cons value items ih =>
    cases value with
    | null =>
      have hvacant : Filling.vacant.Fits Content.nothing := by
        rintro complaints hnothing
        cases hnothing
        rfl
      rw [positional, positionals]
      exact .cons hvacant ih
    | _ =>
      rw [positional, positionals]
      · exact .cons (fits_content _) ih
      · intro hnull
        cases hnull

/-- The slots of a declaration in structured text have the contents that their fillings
tell. -/
theorem fits_slots (entries : Mapping) :
    List.Forall₂ Filling.Fits (fillings entries) (declaration entries).slots := by
  have hlisted : List.Forall₂ Filling.Fits
      ((match Mapping.find? "constructor-args" entries with
        | some (.sequence items) => items
        | _ => []).map filling) (positionals (declaration entries).arguments) := by
    have hnamed (inner : Mapping) : positionals (named inner) = [] := by
      induction inner with
      | nil => rw [named, positionals]
      | cons entry inner ih =>
        obtain ⟨k, v⟩ := entry
        rw [named]
        cases k.keyText? <;> exact ih
    have harguments : (declaration entries).arguments = arguments entries := rfl
    rw [harguments, arguments_eq]
    cases hfind : Mapping.find? "constructor-args" entries with
    | none => exact .nil
    | some value =>
      cases value with
      | sequence items => exact fits_positionals items
      | mapping inner =>
        dsimp only
        rw [hnamed]
        exact .nil
      | _ => exact .nil
  have hshorthand := shorthand_declaration entries
  unfold fillings slotValues shortType? Declaration.slots
  cases htyped : Declaration.isTyped (textAttribute (Mapping.find? "class" entries))
      (textAttribute (Mapping.find? "parent" entries)) with
  | true =>
    rw [if_pos rfl, if_pos (show Declaration.isTyped (declaration entries).typeName
      (declaration entries).parent from htyped)]
    exact hlisted
  | false =>
    have huntyped : ¬ Declaration.isTyped (declaration entries).typeName
        (declaration entries).parent := by
      change ¬ Declaration.isTyped (textAttribute (Mapping.find? "class" entries))
        (textAttribute (Mapping.find? "parent" entries)) = true
      simp [htyped]
    rw [if_neg Bool.false_ne_true, if_neg huntyped, hshorthand]
    cases htype : shorthandType? entries with
    | some type =>
      obtain ⟨value, hvalue⟩ := exists_of_shorthandType? htype
      dsimp only
      rw [hvalue]
      exact .cons (fits_content value) .nil
    | none => exact hlisted

end StructuredText

end Wiring
