import Wiring.Proofs.Elaboration.Pruning
import Wiring.Proofs.Source.Reading

/-!
Object markup and bean markup are one language in two vocabularies. A tree in one of
them becomes a tree in the other when its elements move to the other namespace and the
names that differ are exchanged. Apart from templates and shorthands, which bean markup
does not have, both trees define the same, whatever else is in them.
-/

namespace Wiring.Markup

open Xml (Node Attribute)

/-- The name that an element of a name has in the other vocabulary. -/
def exchangedName (name : String) : String :=
  if name = "objects" then "beans" else if name = "beans" then "objects"
  else if name = "object" then "bean" else if name = "bean" then "object"
  else if name = "dict" then "map" else if name = "map" then "dict"
  else name

/-- The name that an attribute of a reference has in the other vocabulary. -/
def exchangedTarget (name : Xml.Name) : Xml.Name :=
  if name = ⟨none, "object"⟩ then ⟨none, "bean"⟩
  else if name = ⟨none, "bean"⟩ then ⟨none, "object"⟩
  else name

/-- The attributes of an element of a name in the other vocabulary. -/
def exchangedAttributes (element : String) (attributes : List Attribute) : List Attribute :=
  if element = "ref" then attributes.map fun a => { a with name := exchangedTarget a.name }
  else attributes

mutual

/-- A tree in the other vocabulary, with its elements moved to other namespaces. -/
def exchanged (move : Option String → Option String) : Node → Node
  | .element name attributes children =>
    .element ⟨move name.uri, exchangedName name.localName⟩
      (exchangedAttributes name.localName attributes) (exchangedNodes move children)
  | .text content => .text content
  | .comment content => .comment content
  | .instruction target content => .instruction target content
termination_by structural node => node

def exchangedNodes (move : Option String → Option String) : List Node → List Node
  | [] => []
  | node :: nodes => exchanged move node :: exchangedNodes move nodes
termination_by structural nodes => nodes

end

mutual

/-- The namespaces that the elements of a tree are in. -/
def namespaces : Node → List (Option String)
  | .element name _ children => name.uri :: namespacesOf children
  | .text _ => []
  | .comment _ => []
  | .instruction _ _ => []
termination_by structural node => node

def namespacesOf : List Node → List (Option String)
  | [] => []
  | node :: nodes => namespaces node ++ namespacesOf nodes
termination_by structural nodes => nodes

end

/-- Of some namespaces, exactly that of a document moves to the one of bean markup. -/
def Moves (move : Option String → Option String) (uri : String)
    (spaces : List (Option String)) : Prop :=
  ∀ space ∈ spaces, move space = some Dialect.beansNamespace ↔ space = some uri

theorem exchangedName_exchangedName (name : String) :
    exchangedName (exchangedName name) = name := by
  by_cases hname : name ∈ ["objects", "beans", "object", "bean", "dict", "map"]
  · simp only [List.mem_cons, List.not_mem_nil, or_false] at hname
    rcases hname with rfl | rfl | rfl | rfl | rfl | rfl <;> rfl
  · simp only [List.mem_cons, List.not_mem_nil, or_false, not_or] at hname
    have hsame : exchangedName name = name := by simp [exchangedName, hname]
    rw [hsame, hsame]

theorem exchangedName_eq_iff (name other : String) :
    exchangedName name = other ↔ name = exchangedName other := by
  constructor
  · rintro rfl
    exact (exchangedName_exchangedName name).symm
  · rintro rfl
    exact exchangedName_exchangedName other

/-- An exchanged element means in bean markup what it means in object markup. -/
theorem tag?_exchangedName (name : String) :
    Vocabulary.beans.tag? (exchangedName name) = Vocabulary.objects.tag? name := by
  simp only [Vocabulary.tag?, exchangedName_eq_iff]
  rfl

theorem exchangedTarget_eq_iff (name other : Xml.Name) :
    exchangedTarget name = other ↔ name = exchangedTarget other := by
  have hself (name : Xml.Name) : exchangedTarget (exchangedTarget name) = name := by
    unfold exchangedTarget
    split_ifs <;> simp_all
  constructor
  · rintro rfl
    exact (hself name).symm
  · rintro rfl
    exact hself other

theorem attribute?_map_exchangedTarget {key other : String}
    (hkey : exchangedTarget ⟨none, key⟩ = ⟨none, other⟩) (attributes : List Attribute) :
    Xml.attribute? key (attributes.map fun a => { a with name := exchangedTarget a.name }) =
      Xml.attribute? other attributes := by
  have hsame (a : Attribute) :
      (exchangedTarget a.name == ⟨none, key⟩) = (a.name == ⟨none, other⟩) := by
    rw [Bool.eq_iff_iff, beq_iff_eq, beq_iff_eq, exchangedTarget_eq_iff, hkey]
  simp only [Xml.attribute?, List.find?_map, Function.comp_def, hsame, Option.map_map]

theorem attribute?_exchangedAttributes (element : String) {key : String}
    (hobject : key ≠ "object") (hbean : key ≠ "bean") (attributes : List Attribute) :
    Xml.attribute? key (exchangedAttributes element attributes) =
      Xml.attribute? key attributes := by
  unfold exchangedAttributes
  split
  · have hkey : exchangedTarget ⟨none, key⟩ = ⟨none, key⟩ := by
      simp [exchangedTarget, hobject, hbean]
    exact attribute?_map_exchangedTarget hkey attributes
  · rfl

section Nodes

variable {move : Option String → Option String} {uri : String}

theorem exchangedNodes_eq_map (nodes : List Node) :
    exchangedNodes move nodes = nodes.map (exchanged move) := by
  induction nodes with
  | nil => rw [exchangedNodes, List.map_nil]
  | cons node nodes ih => rw [exchangedNodes, List.map_cons, ih]

theorem isElement_exchanged (node : Node) :
    (exchanged move node).isElement = node.isElement := by
  cases node <;> simp [exchanged, Node.isElement]

theorem children_exchanged (node : Node) :
    (exchanged move node).children = exchangedNodes move node.children := by
  cases node <;> rw [exchanged] <;> simp [Node.children, exchangedNodes]

theorem attribute?_exchanged {key : String} (hobject : key ≠ "object") (hbean : key ≠ "bean")
    (node : Node) : (exchanged move node).attribute? key = node.attribute? key := by
  cases node with
  | element name attributes children =>
    rw [exchanged]
    exact attribute?_exchangedAttributes name.localName hobject hbean attributes
  | _ => rw [exchanged]

theorem ownText_exchangedNodes (nodes : List Node) :
    Xml.ownText (exchangedNodes move nodes) = Xml.ownText nodes := by
  have hcontent (node : Node) : (exchanged move node).content = node.content := by
    cases node <;> simp [exchanged, Node.content]
  simp only [Xml.ownText, exchangedNodes_eq_map, List.map_map, Function.comp_def, hcontent]

theorem Moves.of_mem {nodes : List Node} (hmove : Moves move uri (namespacesOf nodes))
    {node : Node} (hmem : node ∈ nodes) : Moves move uri (namespaces node) := by
  induction nodes with
  | nil => cases hmem
  | cons first rest ih =>
    rw [namespacesOf] at hmove
    obtain ⟨hfirst, hrest⟩ := List.forall_mem_append.mp hmove
    rcases List.mem_cons.mp hmem with rfl | hmem
    · exact hfirst
    · exact ih hrest hmem

theorem Moves.children {node : Node} (hmove : Moves move uri (namespaces node)) :
    Moves move uri (namespacesOf node.children) := by
  cases node with
  | element name attributes children =>
    rw [namespaces] at hmove
    exact (List.forall_mem_cons.mp hmove).2
  | _ =>
    intro space hspace
    simp [Node.children, namespacesOf] at hspace

theorem name_exchanged_iff (localName : String) (hname : exchangedName localName = localName)
    {name : Xml.Name} {attributes : List Attribute} {children : List Node}
    (hmove : Moves move uri (namespaces (.element name attributes children))) :
    (⟨move name.uri, exchangedName name.localName⟩ : Xml.Name) =
        ⟨some Dialect.beansNamespace, localName⟩ ↔ name = ⟨some uri, localName⟩ := by
  rw [namespaces] at hmove
  have hspace := (List.forall_mem_cons.mp hmove).1
  obtain ⟨space, written⟩ := name
  rw [Xml.Name.mk.injEq, Xml.Name.mk.injEq, exchangedName_eq_iff, hname, hspace]

theorem isNamed_exchanged {localName : String} (hname : exchangedName localName = localName)
    {node : Node} (hmove : Moves move uri (namespaces node)) :
    (exchanged move node).isNamed Dialect.beansNamespace localName =
      node.isNamed uri localName := by
  cases node with
  | element name attributes children =>
    rw [exchanged, Node.isNamed, Node.isNamed, Bool.eq_iff_iff, beq_iff_eq, beq_iff_eq,
      name_exchanged_iff localName hname hmove]
  | _ =>
    rw [exchanged]
    rfl

theorem filter_isNamed_exchangedNodes {localName : String}
    (hname : exchangedName localName = localName) {nodes : List Node}
    (hmove : Moves move uri (namespacesOf nodes)) :
    (exchangedNodes move nodes).filter (fun n => n.isNamed Dialect.beansNamespace localName) =
      (nodes.filter fun n => n.isNamed uri localName).map (exchanged move) := by
  rw [exchangedNodes_eq_map, List.filter_map]
  congr 1
  apply List.filter_congr
  intro node hmem
  exact isNamed_exchanged hname (hmove.of_mem hmem)

theorem child?_exchangedNodes {localName : String} (hname : exchangedName localName = localName)
    {nodes : List Node} (hmove : Moves move uri (namespacesOf nodes)) :
    Xml.child? Dialect.beansNamespace localName (exchangedNodes move nodes) =
      (Xml.child? uri localName nodes).map (exchanged move) := by
  have hfilter := congrArg List.head? (filter_isNamed_exchangedNodes hname hmove)
  rwa [List.head?_map, List.head?_filter, List.head?_filter] at hfilter

theorem props_exchangedNodes {nodes : List Node} (hmove : Moves move uri (namespacesOf nodes)) :
    props Dialect.beansNamespace (exchangedNodes move nodes) = props uri nodes := by
  rw [props, filter_isNamed_exchangedNodes (by decide) hmove, List.map_map, props]
  apply List.map_congr_left
  intro node _
  simp [attribute?_exchanged, children_exchanged, ownText_exchangedNodes]

theorem entryKey?_exchanged (element : String) (attributes : List Attribute) {nodes : List Node}
    (hmove : Moves move uri (namespacesOf nodes)) :
    entryKey? Dialect.beansNamespace (exchangedAttributes element attributes)
        (exchangedNodes move nodes) = entryKey? uri attributes nodes := by
  rw [entryKey?, entryKey?, attribute?_exchangedAttributes element (by decide) (by decide),
    child?_exchangedNodes (by decide) hmove]
  cases hkey : Xml.child? uri "key" nodes with
  | none => rfl
  | some key =>
    have hmem : key ∈ nodes := List.mem_of_find?_eq_some hkey
    have hchildren := (hmove.of_mem hmem).children
    simp only [Option.map_some, Option.bind_eq_bind, Option.bind_some, children_exchanged]
    rw [child?_exchangedNodes (by decide) hchildren]
    cases Xml.child? uri "value" key.children with
    | none => rfl
    | some value =>
      simp [children_exchanged, ownText_exchangedNodes]

/-- The target of a reference stands in the attribute that the vocabulary names. -/
theorem reference_exchanged (attributes : List Attribute) (nodes : List Node) :
    reference Vocabulary.beans (exchangedAttributes "ref" attributes) (exchangedNodes move nodes) =
      reference Vocabulary.objects attributes nodes := by
  have htarget : Xml.attribute? Vocabulary.beans.target (exchangedAttributes "ref" attributes) =
      Xml.attribute? Vocabulary.objects.target attributes := by
    rw [exchangedAttributes, if_pos rfl]
    exact attribute?_map_exchangedTarget (by decide) attributes
  have hlocal : Xml.attribute? "local" (exchangedAttributes "ref" attributes) =
      Xml.attribute? "local" attributes :=
    attribute?_exchangedAttributes "ref" (by decide) (by decide) attributes
  rw [reference, reference, htarget, hlocal, ownText_exchangedNodes]

end Nodes

theorem eq_ref_of_tag? {v : Vocabulary} {name : String} (htag : v.tag? name = some .reference) :
    name = "ref" := by
  grind [Vocabulary.tag?]

theorem eq_object_of_tag? {v : Vocabulary} {name : String} (htag : v.tag? name = some .object) :
    name = v.object := by
  grind [Vocabulary.tag?]

/-- No declaration among some has a parent. -/
def Parentless (declarations : List Declaration) : Prop := ∀ d ∈ declarations, d.parent = .absent

theorem pruned_getD {c other : Option Content} (otherwise : Content)
    (hpruned : c.map Content.pruned = other.map Content.pruned) :
    (c.getD otherwise).pruned = (other.getD otherwise).pruned := by
  rw [← Option.getD_map Content.pruned, hpruned, Option.getD_map]

theorem pruned_or_getD {c other : Option Content} (second : Option Content) (otherwise : Content)
    (hpruned : c.map Content.pruned = other.map Content.pruned) :
    ((c.or second).getD otherwise).pruned = ((other.or second).getD otherwise).pruned := by
  refine pruned_getD otherwise ?_
  rw [Option.map_or, Option.map_or, hpruned]

/-- A slot takes after the content in it only if no attribute fills it. -/
theorem slot_exchanged (element : String) {attributes : List Attribute}
    {c other : Option Content} (hparent : Parentless (slot attributes other).inlines)
    (hpruned : (∀ d, other = some d → Parentless d.inlines) →
      c.map Content.pruned = other.map Content.pruned) :
    (slot (exchangedAttributes element attributes) c).pruned = (slot attributes other).pruned := by
  rw [slot] at hparent
  rw [slot, slot, attribute?_exchangedAttributes element (by decide) (by decide),
    attribute?_exchangedAttributes element (by decide) (by decide)]
  cases href : Xml.attribute? "ref" attributes with
  | some target => rfl
  | none =>
    cases hvalue : Xml.attribute? "value" attributes with
    | some text => rfl
    | none =>
      rw [href, hvalue] at hparent
      refine pruned_getD _ (hpruned fun d hd => ?_)
      rwa [hd] at hparent

section Declarations

variable {name : String} {attributes : List Attribute} {children : List Node}
  {written : List WrittenArgument} {listed : List WrittenProperty}

/-- A declaration is typed by its class, or its element is not named after a shorthand. -/
def Classed (name : String) (attributes : List Attribute) : Prop :=
  (Factory.ofClass (Xml.attribute? "class" attributes)).isSpecified ∨
    Builtin.ofName? Builtin.scalars name = none

theorem factory_ofText? (text : Option String) :
    (TextAttribute.ofText? text).factory = Factory.ofClass text := by
  cases text <;> rfl

theorem inlines_declarationOf (hclassed : Classed name attributes) :
    (declarationOf .objects name attributes children written listed).inlines =
      inlinesOfArguments written ++ inlinesOfProperties listed := by
  rw [declarationOf, Declaration.inlines]
  rcases hclassed with htyped | hname
  · rw [Declaration.isTyped, factory_ofText?, htyped, Bool.true_or, if_pos rfl]
  · have hshorthand : shorthand .objects name children = .absent := by
      simp [shorthand, hname]
    rw [hshorthand, Shorthand.inlines?, Option.getD_none, ite_self]

/-- The declarations of exchanged elements differ in what the log tells alone, unless they
have a parent or are a shorthand. -/
theorem declarationOf_exchanged (move : Option String → Option String)
    {exchangedWritten : List WrittenArgument} {exchangedListed : List WrittenProperty}
    (hclassed : Classed name attributes)
    (hparent : (declarationOf .objects name attributes children written listed).parent = .absent)
    (hwritten : prunedArguments exchangedWritten = prunedArguments written)
    (hlisted : prunedProperties exchangedListed = prunedProperties listed) :
    (declarationOf .beans (exchangedName name) (exchangedAttributes name attributes)
        (exchangedNodes move children) exchangedWritten exchangedListed).pruned =
      (declarationOf .objects name attributes children written listed).pruned := by
  have hattribute (key : String) (hobject : key ≠ "object") (hbean : key ≠ "bean") :
      Xml.attribute? key (exchangedAttributes name attributes) = Xml.attribute? key attributes :=
    attribute?_exchangedAttributes name hobject hbean attributes
  have hobjects : TextAttribute.ofText? (Xml.attribute? "parent" attributes) = .absent := hparent
  have hshorthand : (if Declaration.isTyped (.ofText? (Xml.attribute? "class" attributes)) .absent
      then Shorthand.absent else (shorthand .objects name children).pruned) = .absent := by
    rcases hclassed with htyped | hname
    · rw [Declaration.isTyped, factory_ofText?, htyped, Bool.true_or, if_pos rfl]
    · have hnone : shorthand .objects name children = .absent := by
        simp [shorthand, hname]
      rw [hnone, Shorthand.pruned, ite_self]
  rw [declarationOf, declarationOf, Declaration.pruned, Declaration.pruned, hwritten, hlisted,
    hattribute "id" (by decide) (by decide), hattribute "class" (by decide) (by decide),
    hattribute "scope" (by decide) (by decide), hattribute "lazy-init" (by decide) (by decide),
    hattribute "abstract" (by decide) (by decide)]
  have hparentless : (if Vocabulary.objects.hasTemplates then
      TextAttribute.ofText? (Xml.attribute? "parent" attributes) else .absent) = .absent := hobjects
  have hbeans : shorthand .beans (exchangedName name) (exchangedNodes move children) = .absent :=
    rfl
  rw [hparentless, hshorthand, hbeans, Shorthand.pruned, ite_self]
  rfl

end Declarations

section Exchange

variable (move : Option String → Option String) (uri : String)

mutual

theorem content_exchanged : ∀ node : Node, Moves move uri (namespaces node) →
    Parentless (content .objects uri node).inlines →
      (content .beans Dialect.beansNamespace (exchanged move node)).pruned =
        (content .objects uri node).pruned
  | .element name attributes children, hmove, hparent => by
    have hspace : move name.uri = some Dialect.beansNamespace ↔ name.uri = some uri :=
      hmove _ (by simp [namespaces])
    have hchildren : Moves move uri (namespacesOf children) := hmove.children
    rw [content] at hparent
    rw [exchanged, content, content]
    by_cases huri : name.uri = some uri
    · rw [if_neg (not_not.mpr huri)] at hparent
      rw [if_neg (not_not.mpr (hspace.mpr huri)), if_neg (not_not.mpr huri)]
      dsimp only
      rw [tag?_exchangedName]
      cases htag : Vocabulary.objects.tag? name.localName with
      | none => simp only [Content.pruned]
      | some tag =>
        rw [htag] at hparent
        cases tag with
        | reference =>
          rw [eq_ref_of_tag? htag]
          exact congrArg Content.pruned (reference_exchanged attributes children)
        | value =>
          dsimp only at hparent ⊢
          rw [ownText_exchangedNodes]
          split_ifs at hparent ⊢
          · refine pruned_getD _ (firstContent_exchangedNodes children hchildren ?_)
            intro c hc
            rwa [hc] at hparent
          · rfl
        | props =>
          dsimp only
          rw [props_exchangedNodes hchildren]
        | sequence shape =>
          dsimp only at hparent ⊢
          rw [Content.inlines] at hparent
          rw [Content.pruned, Content.pruned, contents_exchangedNodes children hchildren hparent]
        | mapping =>
          dsimp only at hparent ⊢
          rw [Content.inlines] at hparent
          rw [Content.pruned, Content.pruned, entries_exchangedNodes children hchildren hparent]
        | object =>
          have hclassed : Classed name.localName attributes := by
            rw [eq_object_of_tag? htag]
            exact Or.inr (by decide)
          dsimp only at hparent ⊢
          rw [Content.inlines, inlines_declarationOf hclassed] at hparent
          obtain ⟨hinner, hself⟩ := List.forall_mem_append.mp hparent
          obtain ⟨hwritten, hlisted⟩ := List.forall_mem_append.mp hinner
          rw [Content.pruned, Content.pruned, declarationOf_exchanged move hclassed
            (hself _ List.mem_cons_self)
            (arguments_exchangedNodes children hchildren hwritten)
            (properties_exchangedNodes children hchildren hlisted)]
    · rw [if_pos (mt hspace.mp huri), if_pos huri, Content.pruned, Content.pruned]
  | .text _, _, _ => by simp [exchanged, content]
  | .comment _, _, _ => by simp [exchanged, content]
  | .instruction _ _, _, _ => by simp [exchanged, content]
termination_by structural node => node

theorem firstContent_exchangedNodes : ∀ nodes : List Node,
    Moves move uri (namespacesOf nodes) →
    (∀ c, firstContent .objects uri nodes = some c → Parentless c.inlines) →
      (firstContent .beans Dialect.beansNamespace (exchangedNodes move nodes)).map Content.pruned =
        (firstContent .objects uri nodes).map Content.pruned
  | [], _, _ => by simp [exchangedNodes, firstContent]
  | node :: nodes, hmove, hparent => by
    rw [namespacesOf] at hmove
    obtain ⟨hnode, hnodes⟩ := List.forall_mem_append.mp hmove
    rw [firstContent] at hparent
    rw [exchangedNodes, firstContent, firstContent, isElement_exchanged]
    split_ifs at hparent ⊢
    · simp only [Option.map_some]
      rw [content_exchanged node hnode (hparent _ rfl)]
    · exact firstContent_exchangedNodes nodes hnodes hparent
termination_by structural nodes => nodes

theorem contents_exchangedNodes : ∀ nodes : List Node,
    Moves move uri (namespacesOf nodes) →
    Parentless (inlinesOfItems (contents .objects uri nodes)) →
      prunedItems (contents .beans Dialect.beansNamespace (exchangedNodes move nodes)) =
        prunedItems (contents .objects uri nodes)
  | [], _, _ => by simp [exchangedNodes, contents]
  | node :: nodes, hmove, hparent => by
    rw [namespacesOf] at hmove
    obtain ⟨hnode, hnodes⟩ := List.forall_mem_append.mp hmove
    rw [contents] at hparent
    rw [exchangedNodes, contents, contents, isElement_exchanged]
    split_ifs at hparent ⊢
    · rw [inlinesOfItems] at hparent
      obtain ⟨hfirst, hrest⟩ := List.forall_mem_append.mp hparent
      have hcontent := content_exchanged node hnode hfirst
      rw [prunedItems, prunedItems, hcontent, Content.isUsable_eq hcontent,
        contents_exchangedNodes nodes hnodes hrest]
    · exact contents_exchangedNodes nodes hnodes hparent
termination_by structural nodes => nodes

theorem entryContent_exchangedNodes : ∀ nodes : List Node,
    Moves move uri (namespacesOf nodes) →
    (∀ c, entryContent .objects uri nodes = some c → Parentless c.inlines) →
      (entryContent .beans Dialect.beansNamespace (exchangedNodes move nodes)).map Content.pruned =
        (entryContent .objects uri nodes).map Content.pruned
  | [], _, _ => by simp [exchangedNodes, entryContent]
  | node :: nodes, hmove, hparent => by
    rw [namespacesOf] at hmove
    obtain ⟨hnode, hnodes⟩ := List.forall_mem_append.mp hmove
    rw [entryContent] at hparent
    rw [exchangedNodes, entryContent, entryContent, isElement_exchanged,
      isNamed_exchanged (by decide) hnode]
    split_ifs at hparent ⊢
    · simp only [Option.map_some]
      rw [content_exchanged node hnode (hparent _ rfl)]
    · exact entryContent_exchangedNodes nodes hnodes hparent
termination_by structural nodes => nodes

theorem entries_exchangedNodes : ∀ nodes : List Node,
    Moves move uri (namespacesOf nodes) →
    Parentless (inlinesOfEntries (entries .objects uri nodes)) →
      prunedEntries (entries .beans Dialect.beansNamespace (exchangedNodes move nodes)) =
        prunedEntries (entries .objects uri nodes)
  | [], _, _ => by simp [exchangedNodes, entries]
  | .element name attributes children :: nodes, hmove, hparent => by
    rw [namespacesOf] at hmove
    obtain ⟨hnode, hnodes⟩ := List.forall_mem_append.mp hmove
    have hname := name_exchanged_iff "entry" (by decide) hnode
    have hchildren : Moves move uri (namespacesOf children) := Moves.children hnode
    rw [entries] at hparent
    rw [exchangedNodes, exchanged, entries, entries]
    by_cases hentry : name = ⟨some uri, "entry"⟩
    · rw [if_pos hentry] at hparent
      rw [if_pos (hname.mpr hentry), if_pos hentry, entryKey?_exchanged _ _ hchildren,
        attribute?_exchangedAttributes _ (by decide) (by decide)]
      dsimp only at hparent ⊢
      cases hkey : entryKey? uri attributes children with
      | none =>
        rw [hkey, inlinesOfEntries] at hparent
        rw [prunedEntries, prunedEntries, entries_exchangedNodes nodes hnodes hparent]
      | some key =>
        rw [hkey, inlinesOfEntries] at hparent
        obtain ⟨hvalue, hrest⟩ := List.forall_mem_append.mp hparent
        have hcontent := entryContent_exchangedNodes children hchildren fun c hc => by
          rw [hc] at hvalue
          exact hvalue
        have hpruned := pruned_or_getD ((Xml.attribute? "value" attributes).map Content.ofText)
          .nothing hcontent
        rw [prunedEntries, prunedEntries, hpruned, Content.isUsable_eq hpruned,
          entries_exchangedNodes nodes hnodes hrest]
    · rw [if_neg hentry] at hparent
      rw [if_neg (mt hname.mp hentry), if_neg hentry]
      exact entries_exchangedNodes nodes hnodes hparent
  | .text _ :: nodes, hmove, hparent
  | .comment _ :: nodes, hmove, hparent
  | .instruction _ _ :: nodes, hmove, hparent => by
    simp only [entries] at hparent
    simpa [exchangedNodes, exchanged, entries] using entries_exchangedNodes nodes hmove hparent
termination_by structural nodes => nodes

theorem arguments_exchangedNodes : ∀ nodes : List Node,
    Moves move uri (namespacesOf nodes) →
    Parentless (inlinesOfArguments (arguments .objects uri nodes)) →
      prunedArguments (arguments .beans Dialect.beansNamespace (exchangedNodes move nodes)) =
        prunedArguments (arguments .objects uri nodes)
  | [], _, _ => by simp [exchangedNodes, arguments]
  | .element name attributes children :: nodes, hmove, hparent => by
    rw [namespacesOf] at hmove
    obtain ⟨hnode, hnodes⟩ := List.forall_mem_append.mp hmove
    have hname := name_exchanged_iff "constructor-arg" (by decide) hnode
    have hchildren : Moves move uri (namespacesOf children) := Moves.children hnode
    rw [arguments] at hparent
    rw [exchangedNodes, exchanged, arguments, arguments]
    by_cases hargument : name = ⟨some uri, "constructor-arg"⟩
    · rw [if_pos hargument] at hparent
      rw [if_pos (hname.mpr hargument), if_pos hargument,
        attribute?_exchangedAttributes _ (by decide) (by decide)]
      dsimp only at hparent ⊢
      cases hkey : Xml.attribute? "name" attributes with
      | none =>
        rw [hkey, inlinesOfArguments] at hparent
        obtain ⟨hslot, hrest⟩ := List.forall_mem_append.mp hparent
        have hvalue := slot_exchanged name.localName hslot
          (firstContent_exchangedNodes children hchildren)
        rw [prunedArguments, prunedArguments, hvalue, arguments_exchangedNodes nodes hnodes hrest]
      | some key =>
        rw [hkey, inlinesOfArguments] at hparent
        obtain ⟨hslot, hrest⟩ := List.forall_mem_append.mp hparent
        have hvalue := slot_exchanged name.localName hslot
          (firstContent_exchangedNodes children hchildren)
        rw [prunedArguments, prunedArguments, hvalue, Content.isUsable_eq hvalue,
          arguments_exchangedNodes nodes hnodes hrest]
    · rw [if_neg hargument] at hparent
      rw [if_neg (mt hname.mp hargument), if_neg hargument]
      exact arguments_exchangedNodes nodes hnodes hparent
  | .text _ :: nodes, hmove, hparent
  | .comment _ :: nodes, hmove, hparent
  | .instruction _ _ :: nodes, hmove, hparent => by
    simp only [arguments] at hparent
    simpa [exchangedNodes, exchanged, arguments] using arguments_exchangedNodes nodes hmove hparent
termination_by structural nodes => nodes

theorem properties_exchangedNodes : ∀ nodes : List Node,
    Moves move uri (namespacesOf nodes) →
    Parentless (inlinesOfProperties (properties .objects uri nodes)) →
      prunedProperties (properties .beans Dialect.beansNamespace (exchangedNodes move nodes)) =
        prunedProperties (properties .objects uri nodes)
  | [], _, _ => by simp [exchangedNodes, properties]
  | .element name attributes children :: nodes, hmove, hparent => by
    rw [namespacesOf] at hmove
    obtain ⟨hnode, hnodes⟩ := List.forall_mem_append.mp hmove
    have hname := name_exchanged_iff "property" (by decide) hnode
    have hchildren : Moves move uri (namespacesOf children) := Moves.children hnode
    rw [properties] at hparent
    rw [exchangedNodes, exchanged, properties, properties]
    by_cases hproperty : name = ⟨some uri, "property"⟩
    · rw [if_pos hproperty] at hparent
      rw [if_pos (hname.mpr hproperty), if_pos hproperty,
        attribute?_exchangedAttributes _ (by decide) (by decide)]
      cases hkey : Xml.attribute? "name" attributes with
      | none =>
        rw [hkey, inlinesOfProperties] at hparent
        rw [prunedProperties, prunedProperties, properties_exchangedNodes nodes hnodes hparent]
      | some key =>
        rw [hkey, inlinesOfProperties] at hparent
        obtain ⟨hslot, hrest⟩ := List.forall_mem_append.mp hparent
        have hvalue := slot_exchanged name.localName hslot
          (firstContent_exchangedNodes children hchildren)
        rw [prunedProperties, prunedProperties, hvalue, Content.isUsable_eq hvalue,
          properties_exchangedNodes nodes hnodes hrest]
    · rw [if_neg hproperty] at hparent
      rw [if_neg (mt hname.mp hproperty), if_neg hproperty]
      exact properties_exchangedNodes nodes hnodes hparent
  | .text _ :: nodes, hmove, hparent
  | .comment _ :: nodes, hmove, hparent
  | .instruction _ _ :: nodes, hmove, hparent => by
    simp only [properties] at hparent
    simpa [exchangedNodes, exchanged, properties] using properties_exchangedNodes nodes hmove hparent
termination_by structural nodes => nodes

end

/-! Whole documents. -/

/-- A document in the object markup of a namespace that uses neither of the two things
that bean markup does without: no declaration in it has a parent, and no element at its
top level is a shorthand. -/
structure Exchangeable (root : Node) : Prop where
  name : root.name = ⟨some uri, "objects"⟩
  space : uri ∈ Dialect.objects.namespaces
  parentless : ∀ declared ∈ (document .objects uri root).filterMap TopLevel.declared?,
    Parentless (declared.2 :: declared.2.inlines)
  classed : ∀ node ∈ Xml.elements root.children, node.name.uri = some uri →
    Classed node.name.localName node.attributes

theorem topLevel_native {v : Vocabulary} {uri : String} {name : Xml.Name}
    {attributes : List Attribute} {children : List Node} (huri : name.uri = some uri) :
    topLevel v uri (.element name attributes children) =
      .declared ((Xml.attribute? "id" attributes).getD "")
        ((Xml.attribute? "id" attributes).getD "").isEmpty
        (declarationOf v name.localName attributes children (arguments v uri children)
          (properties v uri children)) :=
  if_neg (not_not.mpr huri)

theorem topLevel_foreign {v : Vocabulary} {uri : String} {name : Xml.Name}
    {attributes : List Attribute} {children : List Node} (huri : name.uri ≠ some uri) :
    topLevel v uri (.element name attributes children) = .foreign name.localName :=
  if_pos huri

theorem topLevel_exchanged {node : Node} (hmove : Moves move uri (namespaces node))
    (hclassed : node.name.uri = some uri → Classed node.name.localName node.attributes)
    (hparent : ∀ declared, (topLevel .objects uri node).declared? = some declared →
      Parentless (declared.2 :: declared.2.inlines)) (helement : node.isElement) :
    (topLevel .beans Dialect.beansNamespace (exchanged move node)).pruned? =
      (topLevel .objects uri node).pruned? := by
  cases node with
  | element name attributes children =>
    have hspace : move name.uri = some Dialect.beansNamespace ↔ name.uri = some uri :=
      hmove _ (by simp [namespaces])
    have hchildren : Moves move uri (namespacesOf children) := hmove.children
    rw [exchanged]
    by_cases huri : name.uri = some uri
    · have hnamed : Classed name.localName attributes := hclassed huri
      rw [topLevel_native huri] at hparent
      obtain ⟨hself, hinner⟩ := List.forall_mem_cons.mp (hparent _ rfl)
      dsimp only at hinner
      rw [inlines_declarationOf hnamed] at hinner
      obtain ⟨hwritten, hlisted⟩ := List.forall_mem_append.mp hinner
      rw [topLevel_native (hspace.mpr huri), topLevel_native huri, TopLevel.pruned?,
        TopLevel.pruned?, declarationOf_exchanged move hnamed hself
          (arguments_exchangedNodes move uri children hchildren hwritten)
          (properties_exchangedNodes move uri children hchildren hlisted),
        attribute?_exchangedAttributes _ (by decide) (by decide)]
    · rw [topLevel_foreign (mt hspace.mp huri), topLevel_foreign huri, TopLevel.pruned?,
        TopLevel.pruned?]
  | _ => cases helement

theorem document_exchanged {root : Node} (hroot : Exchangeable uri root)
    (hmove : Moves move uri (namespaces root)) :
    (document .beans Dialect.beansNamespace (exchanged move root)).filterMap TopLevel.pruned? =
      (document .objects uri root).filterMap TopLevel.pruned? := by
  have helements : Xml.elements (exchanged move root).children =
      (Xml.elements root.children).map (exchanged move) := by
    simp only [Xml.elements, children_exchanged, exchangedNodes_eq_map, List.filter_map,
      Function.comp_def, isElement_exchanged]
  rw [document, document, helements, List.map_map, List.filterMap_map, List.filterMap_map]
  apply List.filterMap_congr
  intro node hnode
  obtain ⟨hmem, helement⟩ := List.mem_filter.mp hnode
  refine topLevel_exchanged move uri (hmove.children.of_mem hmem) (hroot.classed node hnode) ?_
    helement
  intro declared hdeclared
  refine hroot.parentless declared (List.mem_filterMap.mpr ⟨_, ?_, hdeclared⟩)
  exact List.mem_map_of_mem hnode

theorem rootNamespace_of_name {location expected space : String} {spaces : List String}
    {root : Node} (hname : root.name = ⟨some space, expected⟩) (hspace : space ∈ spaces) :
    rootNamespace location expected spaces root = .ok space := by
  simp [rootNamespace, hname, hspace]

/-- A tree in object markup and the same tree in bean markup define the same, or fail with
the same error, whatever unknown, misplaced and foreign elements are in it. Its elements
may move to other namespaces in any way that takes exactly those of the document to the
namespace of bean markup. -/
theorem readRoot_exchanged (location : String) (root : Node) (hroot : Exchangeable uri root)
    (hmove : Moves move uri (namespaces root)) :
    (Dialect.readRoot .beans location (exchanged move root)).answer =
      (Dialect.readRoot .objects location root).answer := by
  have hobjects : rootNamespace location Vocabulary.objects.root
      Vocabulary.objects.dialect.namespaces root = .ok uri :=
    rootNamespace_of_name hroot.name hroot.space
  have hname : (exchanged move root).name = ⟨some Dialect.beansNamespace, "beans"⟩ := by
    cases root with
    | element name attributes children =>
      have hsame : name = ⟨some uri, "objects"⟩ := hroot.name
      subst hsame
      have hspace := (hmove (some uri) (by simp [namespaces])).mpr rfl
      rw [exchanged, Node.name, hspace]
      rfl
    | _ => cases hroot.name
  have hbeans : rootNamespace location Vocabulary.beans.root
      Vocabulary.beans.dialect.namespaces (exchanged move root) = .ok Dialect.beansNamespace :=
    rootNamespace_of_name hname (by decide)
  rw [Dialect.readRoot, Dialect.readRoot, hobjects, hbeans, Traced.answer_bind, Traced.answer_bind]
  change (definitionsOf location _).answer = (definitionsOf location _).answer
  rw [← answer_definitionsOf_pruned, document_exchanged move uri hroot hmove,
    answer_definitionsOf_pruned]

end Exchange

instance (declarations : List Declaration) : Decidable (Parentless declarations) :=
  inferInstanceAs (Decidable (∀ d ∈ declarations, d.parent = .absent))

instance (name : String) (attributes : List Attribute) : Decidable (Classed name attributes) :=
  inferInstanceAs (Decidable (_ ∨ _))

/-- The move of the elements of one namespace to that of bean markup. -/
def moved (uri : String) (space : Option String) : Option String :=
  if space = some uri then some Dialect.beansNamespace else space

/-- The plain move will do where no element is in the namespace of bean markup already. -/
theorem moves_moved {uri : String} {spaces : List (Option String)}
    (hspaces : some Dialect.beansNamespace ∉ spaces) : Moves (moved uri) uri spaces := by
  intro space hspace
  unfold moved
  split
  · rename_i huri
    exact iff_of_true rfl huri
  · rename_i huri
    have hother : space ≠ some Dialect.beansNamespace := fun hbeans => hspaces (hbeans ▸ hspace)
    exact iff_of_false hother huri

/-- An element whose attributes are in no namespace. -/
def element (uri name : String) (attributes : List (String × String)) (children : List Node) :
    Node :=
  .element ⟨some uri, name⟩ (attributes.map fun a => ⟨⟨none, a.1⟩, a.2⟩) children

/-- Object markup with a reference, a mapping with one entry skipped, and an inline
declaration, among elements that are unknown, misplaced or foreign. -/
def stocked : Node :=
  let own := element Dialect.objectsNamespace
  own "objects" [] [
    own "object" [("id", "app"), ("class", "shop.App")] [
      own "constructor-arg" [] [own "ref" [("object", "db")] []],
      own "property" [("name", "limits")] [own "dict" [] [
        own "entry" [("key", "low"), ("value", "1")] [],
        own "entry" [("key", "high")] [own "map" [] []]]],
      own "property" [("name", "pools")] [own "list" [] [
        element "urn:notes" "object" [("id", "note")] [],
        own "object" [("class", "shop.Pool")] [own "property" [("name", "size")] [.text "5"]]]]],
    own "int" [("id", "port"), ("class", "shop.Port")] [],
    element "urn:notes" "object" [("id", "note"), ("class", "shop.Note")] []]

theorem readRoot_exchanged_stocked :
    Exchangeable Dialect.objectsNamespace stocked ∧
      Moves (moved Dialect.objectsNamespace) Dialect.objectsNamespace (namespaces stocked) ∧
      (Dialect.readRoot .objects "shop.xml" stocked).answer.isOk ∧
      (Dialect.readRoot .beans "shop.xml"
          (exchanged (moved Dialect.objectsNamespace) stocked)).answer =
        (Dialect.readRoot .objects "shop.xml" stocked).answer := by
  have hroot : Exchangeable Dialect.objectsNamespace stocked :=
    ⟨rfl, by decide, by decide +kernel, by decide +kernel⟩
  have hmove : Moves (moved Dialect.objectsNamespace) Dialect.objectsNamespace
      (namespaces stocked) := moves_moved (by decide +kernel)
  exact ⟨hroot, hmove, by decide +kernel, readRoot_exchanged _ _ "shop.xml" stocked hroot hmove⟩

/-- A document whose only element is foreign, and stands in the namespace of bean markup
already. -/
def adopted : Node :=
  element Dialect.objectsNamespace "objects" [] [
    element Dialect.beansNamespace "bean" [("id", "x"), ("class", "shop.X")] []]

/-- Where a foreign element stands in the namespace of bean markup, moving the document
there makes it a declaration. -/
theorem readRoot_moved_adopted :
    Exchangeable Dialect.objectsNamespace adopted ∧
      (Dialect.readRoot .beans "shop.xml"
          (exchanged (moved Dialect.objectsNamespace) adopted)).answer ≠
        (Dialect.readRoot .objects "shop.xml" adopted).answer := by
  refine ⟨⟨rfl, by decide, by decide +kernel, by decide +kernel⟩, fun hsame => ?_⟩
  have hbeans : (Dialect.readRoot .beans "shop.xml"
      (exchanged (moved Dialect.objectsNamespace) adopted)).answer.toOption.map List.length =
        some 1 := by decide +kernel
  have hobjects : (Dialect.readRoot .objects "shop.xml" adopted).answer.toOption.map List.length =
      some 0 := by decide +kernel
  rw [hsame, hobjects] at hbeans
  cases hbeans

end Wiring.Markup
