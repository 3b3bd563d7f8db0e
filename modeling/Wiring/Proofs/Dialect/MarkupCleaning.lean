import Wiring.Proofs.Dialect.Inside
import Wiring.Proofs.Elaboration.Stripping

/-!
Markup without what is skipped in it. Items, entries, properties and named arguments that
have no value are deleted, and so are elements that mean nothing where they stand. What is
left is read as what it was read as before, without what was skipped.
-/

namespace Wiring.Markup

open Xml (ownText_cons Node Attribute)

/-- Whether an element that declares an object is nothing but a shorthand. -/
def isShort (v : Vocabulary) (name : String) (attributes : List Attribute)
    (children : List Node) : Bool :=
  let declaration := declarationOf v name attributes children [] []
  Declaration.isShort declaration.typeName declaration.parent declaration.shorthand

/-- The content of a mapping entry. -/
def entryValue (v : Vocabulary) (uri : String) (attributes : List Attribute)
    (children : List Node) : Content :=
  ((entryContent v uri children).or
    ((Xml.attribute? "value" attributes).map Content.ofText)).getD .nothing

/-- Whether an element in a mapping is an entry with a key and a value. -/
def keepsEntry (v : Vocabulary) (uri : String) (name : Xml.Name) (attributes : List Attribute)
    (children : List Node) : Bool :=
  name = ⟨some uri, "entry"⟩ ∧ (entryKey? uri attributes children).isSome ∧
    (entryValue v uri attributes children).isUsable

/-- Whether an element in a declaration is an argument by position, or an argument or a
property with a name and a value. -/
def keepsPart (v : Vocabulary) (uri : String) (name : Xml.Name) (attributes : List Attribute)
    (children : List Node) : Bool :=
  match Xml.attribute? "name" attributes with
  | none => name = ⟨some uri, "constructor-arg"⟩
  | some _ => (name = ⟨some uri, "constructor-arg"⟩ ∨ name = ⟨some uri, "property"⟩) ∧
      (slot attributes (firstContent v uri children)).isUsable

/-- Whether an attribute gives the value of an argument or a property. -/
def isGiven (attributes : List Attribute) : Bool :=
  (Xml.attribute? "ref" attributes).isSome || (Xml.attribute? "value" attributes).isSome

mutual

/-- An element that stands for a value, without what is skipped in it. -/
def cleaned (v : Vocabulary) (uri : String) : Node → Node
  | .element name attributes children => .element name attributes <|
    if name.uri ≠ some uri then children
    else
      match v.tag? name.localName with
      | some .value =>
        if Text.isAllBlank (Xml.ownText children) then cleanedFirst v uri children else children
      | some .props => children.filter fun n => !n.isElement || n.isNamed uri "prop"
      | some (.sequence _) => cleanedItems v uri children
      | some .mapping => cleanedEntries v uri children
      | some .object =>
        if isShort v name.localName attributes children then children
        else cleanedParts v uri children
      | _ => children
  | node => node
termination_by structural node => node

/-- Some nodes with the first element among them cleaned. -/
def cleanedFirst (v : Vocabulary) (uri : String) : List Node → List Node
  | [] => []
  | node :: nodes =>
    if node.isElement then cleaned v uri node :: nodes else node :: cleanedFirst v uri nodes
termination_by structural nodes => nodes

def cleanedItems (v : Vocabulary) (uri : String) : List Node → List Node
  | [] => []
  | node :: nodes =>
    if node.isElement then
      if (content v uri node).isUsable then cleaned v uri node :: cleanedItems v uri nodes
      else cleanedItems v uri nodes
    else node :: cleanedItems v uri nodes
termination_by structural nodes => nodes

/-- The nodes in a mapping entry with the first element cleaned that is not its key. -/
def cleanedValue (v : Vocabulary) (uri : String) : List Node → List Node
  | [] => []
  | node :: nodes =>
    if node.isElement && !node.isNamed uri "key" then cleaned v uri node :: nodes
    else node :: cleanedValue v uri nodes
termination_by structural nodes => nodes

def cleanedEntries (v : Vocabulary) (uri : String) : List Node → List Node
  | [] => []
  | .element name attributes children :: nodes =>
    if keepsEntry v uri name attributes children then
      .element name attributes (cleanedValue v uri children) :: cleanedEntries v uri nodes
    else cleanedEntries v uri nodes
  | node :: nodes => node :: cleanedEntries v uri nodes
termination_by structural nodes => nodes

/-- The nodes in a declaration, with its arguments and properties cleaned. -/
def cleanedParts (v : Vocabulary) (uri : String) : List Node → List Node
  | [] => []
  | .element name attributes children :: nodes =>
    if keepsPart v uri name attributes children then
      .element name attributes
        (if isGiven attributes then children else cleanedFirst v uri children) ::
          cleanedParts v uri nodes
    else cleanedParts v uri nodes
  | node :: nodes => node :: cleanedParts v uri nodes
termination_by structural nodes => nodes

end

/-- A declaration at the top level without what is skipped in it. -/
def cleanedTop (v : Vocabulary) (uri : String) : Node → Node
  | .element name attributes children => .element name attributes <|
    if isShort v name.localName attributes children then children
    else cleanedParts v uri children
  | node => node

/-- A root element without what is skipped in it. -/
def cleanedRoot (v : Vocabulary) (uri : String) : Node → Node
  | .element name attributes children => .element name attributes <|
    (children.filter fun n => !n.isElement || n.name.uri = some uri).map (cleanedTop v uri)
  | node => node

/-! What deleting leaves as it is. -/

section Unchanged

variable (v : Vocabulary) (uri : String)

theorem isElement_cleaned (node : Node) : (cleaned v uri node).isElement = node.isElement := by
  cases node <;> simp [cleaned, Node.isElement]

theorem isNamed_cleaned (localName : String) (node : Node) :
    (cleaned v uri node).isNamed uri localName = node.isNamed uri localName := by
  cases node <;> simp [cleaned, Node.isNamed]

theorem content_cleaned_node (node : Node) : (cleaned v uri node).content = node.content := by
  cases node <;> simp [cleaned, Node.content]

theorem ownText_cleanedFirst (nodes : List Node) :
    Xml.ownText (cleanedFirst v uri nodes) = Xml.ownText nodes := by
  induction nodes with
  | nil => rw [cleanedFirst]
  | cons node nodes ih =>
    rw [cleanedFirst]
    split
    · rw [ownText_cons, ownText_cons, content_cleaned_node]
    · rw [ownText_cons, ownText_cons, ih]

theorem ownText_cleanedParts (nodes : List Node) :
    Xml.ownText (cleanedParts v uri nodes) = Xml.ownText nodes := by
  induction nodes with
  | nil => rw [cleanedParts]
  | cons node nodes ih =>
    cases node with
    | element name attributes children =>
      rw [cleanedParts]
      split
      · rw [ownText_cons, ownText_cons, ih]
        rfl
      · simp [ownText_cons, Node.content, ih]
    | _ => simp [cleanedParts, ownText_cons, ih]

theorem child?_cleanedValue (nodes : List Node) :
    Xml.child? uri "key" (cleanedValue v uri nodes) = Xml.child? uri "key" nodes := by
  induction nodes with
  | nil => rw [cleanedValue]
  | cons node nodes ih =>
    rw [cleanedValue]
    split
    · rename_i hvalue
      rw [Bool.and_eq_true, Bool.not_eq_true'] at hvalue
      simp [Xml.child?, isNamed_cleaned, hvalue.2]
    · unfold Xml.child? at ih ⊢
      rw [List.find?_cons, List.find?_cons, ih]

theorem entryKey?_cleanedValue (attributes : List Attribute) (nodes : List Node) :
    entryKey? uri attributes (cleanedValue v uri nodes) = entryKey? uri attributes nodes := by
  rw [entryKey?, entryKey?, child?_cleanedValue]

theorem props_filter (nodes : List Node) :
    props uri (nodes.filter fun n => !n.isElement || n.isNamed uri "prop") = props uri nodes := by
  rw [props, props, List.filter_filter]
  congr 2
  funext node
  cases node.isNamed uri "prop" <;> simp

end Unchanged

/-! What is read from what is left. -/

/-- An element without what is skipped in it is read as before, but for that. -/
def ReadsStripped (v : Vocabulary) (uri : String) (node : Node) : Prop :=
  content v uri (cleaned v uri node) = (content v uri node).stripped

section Lists

variable {v : Vocabulary} {uri : String} {nodes : List Node}

theorem firstContent_cleanedFirst (hreads : ∀ n : Node, n.Among nodes → ReadsStripped v uri n) :
    firstContent v uri (cleanedFirst v uri nodes) =
      (firstContent v uri nodes).map Content.stripped := by
  induction nodes with
  | nil => simp [cleanedFirst, firstContent]
  | cons node nodes ih =>
    have hnode : content v uri (cleaned v uri node) = (content v uri node).stripped :=
      hreads node (.of_mem List.mem_cons_self)
    have hrest := ih fun n hn => hreads n (hn.tail node)
    by_cases helement : node.isElement
    · simp [cleanedFirst, firstContent, helement, isElement_cleaned, hnode]
    · simpa [cleanedFirst, firstContent, helement] using hrest

theorem contents_cleanedItems (hreads : ∀ n : Node, n.Among nodes → ReadsStripped v uri n) :
    contents v uri (cleanedItems v uri nodes) = strippedItems (contents v uri nodes) := by
  induction nodes with
  | nil => simp [cleanedItems, contents, strippedItems]
  | cons node nodes ih =>
    have hnode : content v uri (cleaned v uri node) = (content v uri node).stripped :=
      hreads node (.of_mem List.mem_cons_self)
    have hrest := ih fun n hn => hreads n (hn.tail node)
    by_cases helement : node.isElement
    · cases husable : (content v uri node).isUsable with
      | true =>
        simp [cleanedItems, contents, helement, husable, isElement_cleaned, strippedItems, hnode,
          hrest]
      | false => simpa [cleanedItems, contents, helement, husable, strippedItems] using hrest
    · simpa [cleanedItems, contents, helement] using hrest

theorem entryContent_cleanedValue (hreads : ∀ n : Node, n.Among nodes → ReadsStripped v uri n) :
    entryContent v uri (cleanedValue v uri nodes) =
      (entryContent v uri nodes).map Content.stripped := by
  induction nodes with
  | nil => simp [cleanedValue, entryContent]
  | cons node nodes ih =>
    have hnode : content v uri (cleaned v uri node) = (content v uri node).stripped :=
      hreads node (.of_mem List.mem_cons_self)
    have hrest := ih fun n hn => hreads n (hn.tail node)
    cases hvalue : node.isElement && !node.isNamed uri "key" with
    | true => simp [cleanedValue, entryContent, hvalue, isElement_cleaned, isNamed_cleaned, hnode]
    | false => simpa [cleanedValue, entryContent, hvalue] using hrest

theorem stripped_ofText (text : String) : (Content.ofText text).stripped = Content.ofText text := by
  rw [Content.ofText, Content.stripped]

theorem entryValue_cleanedValue (hreads : ∀ n : Node, n.Among nodes → ReadsStripped v uri n)
    (attributes : List Attribute) :
    entryValue v uri attributes (cleanedValue v uri nodes) =
      (entryValue v uri attributes nodes).stripped := by
  unfold entryValue
  rw [entryContent_cleanedValue hreads]
  cases entryContent v uri nodes with
  | some value => rfl
  | none =>
    cases Xml.attribute? "value" attributes with
    | some text => exact (stripped_ofText text).symm
    | none => simp [Content.nothing, Content.stripped]

theorem slot_cleanedFirst (hreads : ∀ n : Node, n.Among nodes → ReadsStripped v uri n)
    (attributes : List Attribute) :
    slot attributes (firstContent v uri
        (if isGiven attributes then nodes else cleanedFirst v uri nodes)) =
      (slot attributes (firstContent v uri nodes)).stripped := by
  cases href : Xml.attribute? "ref" attributes with
  | some target => simp [slot, href, Content.stripped]
  | none =>
    cases hvalue : Xml.attribute? "value" attributes with
    | some text => simp [slot, href, hvalue, stripped_ofText]
    | none =>
      have hnot : isGiven attributes = false := by simp [isGiven, href, hvalue]
      rw [hnot, if_neg Bool.false_ne_true, firstContent_cleanedFirst hreads]
      cases firstContent v uri nodes with
      | some first => simp [slot, href, hvalue]
      | none => simp [slot, href, hvalue, Content.nothing, Content.stripped]

theorem entries_cons (name : Xml.Name) (attributes : List Attribute) (children nodes : List Node) :
    entries v uri (.element name attributes children :: nodes) =
      if name = ⟨some uri, "entry"⟩ then
        match entryKey? uri attributes children with
        | some key => .keyed key (entryValue v uri attributes children) :: entries v uri nodes
        | none => .keyless .keylessEntry :: entries v uri nodes
      else entries v uri nodes := by
  rw [entries]
  rfl

theorem entries_cleanedEntries (hreads : ∀ n : Node, n.Among nodes → ReadsStripped v uri n) :
    entries v uri (cleanedEntries v uri nodes) = strippedEntries (entries v uri nodes) := by
  induction nodes with
  | nil => simp [cleanedEntries, entries, strippedEntries]
  | cons node nodes ih =>
    have hrest := ih fun n hn => hreads n (hn.tail node)
    cases node with
    | element name attributes children =>
      have hvalue := entryValue_cleanedValue
        (fun n hn => hreads n (hn.of_children List.mem_cons_self)) attributes
      rw [cleanedEntries, entries_cons]
      by_cases hname : name = ⟨some uri, "entry"⟩
      · cases hkey : entryKey? uri attributes children with
        | none => simpa [keepsEntry, hname, hkey, strippedEntries] using hrest
        | some key =>
          cases husable : (entryValue v uri attributes children).isUsable with
          | true =>
            simp [keepsEntry, hname, hkey, husable, entries_cons, strippedEntries,
              entryKey?_cleanedValue, hvalue, hrest]
          | false => simpa [keepsEntry, hname, hkey, husable, strippedEntries] using hrest
      · simpa [keepsEntry, hname] using hrest
    | _ => simpa [cleanedEntries, entries] using hrest

theorem arguments_cleanedParts (hreads : ∀ n : Node, n.Among nodes → ReadsStripped v uri n) :
    arguments v uri (cleanedParts v uri nodes) = strippedArguments (arguments v uri nodes) := by
  induction nodes with
  | nil => simp [cleanedParts, arguments, strippedArguments]
  | cons node nodes ih =>
    have hrest := ih fun n hn => hreads n (hn.tail node)
    cases node with
    | element name attributes children =>
      have hslot := slot_cleanedFirst
        (fun n hn => hreads n (hn.of_children List.mem_cons_self)) attributes
      rw [cleanedParts, arguments]
      by_cases hname : name = ⟨some uri, "constructor-arg"⟩
      · cases hkey : Xml.attribute? "name" attributes with
        | none => simp [keepsPart, hname, hkey, arguments, strippedArguments, hslot, hrest]
        | some key =>
          cases husable : (slot attributes (firstContent v uri children)).isUsable with
          | true =>
            simp [keepsPart, hname, hkey, husable, arguments, strippedArguments, hslot, hrest]
          | false => simpa [keepsPart, hname, hkey, husable, strippedArguments] using hrest
      · split
        · simpa [arguments, hname] using hrest
        · simpa [hname] using hrest
    | _ => simpa [cleanedParts, arguments] using hrest

theorem properties_cleanedParts (hreads : ∀ n : Node, n.Among nodes → ReadsStripped v uri n) :
    properties v uri (cleanedParts v uri nodes) =
      strippedProperties (properties v uri nodes) := by
  induction nodes with
  | nil => simp [cleanedParts, properties, strippedProperties]
  | cons node nodes ih =>
    have hrest := ih fun n hn => hreads n (hn.tail node)
    cases node with
    | element name attributes children =>
      have hslot := slot_cleanedFirst
        (fun n hn => hreads n (hn.of_children List.mem_cons_self)) attributes
      rw [cleanedParts, properties]
      by_cases hname : name = ⟨some uri, "property"⟩
      · cases hkey : Xml.attribute? "name" attributes with
        | none => simpa [keepsPart, hname, hkey, strippedProperties] using hrest
        | some key =>
          cases husable : (slot attributes (firstContent v uri children)).isUsable with
          | true =>
            simp [keepsPart, hname, hkey, husable, properties, strippedProperties, hslot, hrest]
          | false => simpa [keepsPart, hname, hkey, husable, strippedProperties] using hrest
      · split
        · simpa [properties, hname] using hrest
        · simpa [hname] using hrest
    | _ => simpa [cleanedParts, properties] using hrest

theorem strippedEntries_props (uri : String) (nodes : List Node) :
    strippedEntries (props uri nodes) = props uri nodes := by
  unfold props
  induction nodes.filter fun n => n.isNamed uri "prop" with
  | nil => simp [strippedEntries]
  | cons node nodes ih =>
    have husable (text : String) : (Content.ofText text).isUsable = true := rfl
    simpa [strippedEntries, husable, stripped_ofText] using ih

/-- The declaration of an element is read from what is left as from the whole, but for what
is skipped. -/
theorem declarationOf_cleaned (hreads : ∀ n : Node, n.Among nodes → ReadsStripped v uri n)
    (name : String) (attributes : List Attribute) :
    let left := if isShort v name attributes nodes then nodes else cleanedParts v uri nodes
    declarationOf v name attributes left (arguments v uri left) (properties v uri left) =
      (declarationOf v name attributes nodes (arguments v uri nodes)
        (properties v uri nodes)).stripped := by
  have hshorthand : shorthand v name (cleanedParts v uri nodes) = shorthand v name nodes := by
    simp only [shorthand, ownText_cleanedParts]
  have hstripped : (shorthand v name nodes).stripped = shorthand v name nodes := by
    unfold shorthand
    split
    · split
      · rw [Shorthand.stripped, stripped_ofText]
      · rw [Shorthand.stripped]
    · rw [Shorthand.stripped]
  intro left
  unfold declarationOf
  rw [Declaration.stripped]
  cases hshort : isShort v name attributes nodes with
  | true =>
    have hleft : left = nodes := by simp [left, hshort]
    unfold isShort declarationOf at hshort
    dsimp only at hshort
    rw [hleft, hshort, if_pos rfl, hstripped]
  | false =>
    have hleft : left = cleanedParts v uri nodes := by simp [left, hshort]
    unfold isShort declarationOf at hshort
    dsimp only at hshort
    rw [hleft, hshort, if_neg Bool.false_ne_true, hshorthand, arguments_cleanedParts hreads,
      properties_cleanedParts hreads]

end Lists

/-- What is left of an element is read as the element is, without what is skipped in it. -/
theorem content_cleaned (v : Vocabulary) (uri : String) (node : Node) :
    content v uri (cleaned v uri node) = (content v uri node).stripped := by
  induction node using Node.induction_inside with
  | element name attributes children ih =>
    have hreads : ∀ n : Node, n.Among children → ReadsStripped v uri n := ih
    rw [cleaned, content, content]
    by_cases huri : name.uri = some uri
    · rw [if_neg (not_not.mpr huri), if_neg (not_not.mpr huri), if_neg (not_not.mpr huri)]
      cases htag : v.tag? name.localName with
      | none => simp [Content.stripped]
      | some tag =>
        cases tag with
        | reference =>
          dsimp only
          unfold reference
          dsimp only
          split <;> rw [Content.stripped]
        | value =>
          dsimp only
          cases hblank : Text.isAllBlank (Xml.ownText children) with
          | true =>
            rw [if_pos rfl, if_pos rfl, ownText_cleanedFirst, hblank, if_pos rfl,
              firstContent_cleanedFirst hreads]
            cases firstContent v uri children with
            | some first => rfl
            | none => exact (stripped_ofText _).symm
          | false =>
            rw [if_neg Bool.false_ne_true, if_neg Bool.false_ne_true, hblank,
              if_neg Bool.false_ne_true, stripped_ofText]
        | props =>
          dsimp only
          rw [Content.stripped, props_filter, strippedEntries_props]
        | sequence shape =>
          dsimp only
          rw [Content.stripped, contents_cleanedItems hreads]
        | mapping =>
          dsimp only
          rw [Content.stripped, entries_cleanedEntries hreads]
        | object =>
          dsimp only
          rw [Content.stripped]
          exact congrArg Content.inline (declarationOf_cleaned hreads name.localName attributes)
    · rw [if_pos huri, if_pos huri, Content.stripped]
  | _ => simp [cleaned, content, Content.nothing, Content.stripped]

/-- What is left of a declaration at the top level is read as the declaration is, without
what is skipped in it. -/
theorem topLevel_cleanedTop (v : Vocabulary) (uri : String) {node : Node}
    (hnative : node.name.uri = some uri) :
    some (topLevel v uri (cleanedTop v uri node)) = (topLevel v uri node).stripped? := by
  cases node with
  | element name attributes children =>
    have huri : name.uri = some uri := hnative
    have hreads : ∀ n : Node, n.Among children → ReadsStripped v uri n :=
      fun n _ => content_cleaned v uri n
    have hdeclaration := declarationOf_cleaned hreads name.localName attributes
    rw [cleanedTop]
    simp only [topLevel, Node.name, huri, ne_eq, not_true_eq_false, if_false, Node.attribute?,
      Node.attributes, Node.children, TopLevel.stripped?]
    rw [hdeclaration]
  | _ => cases hnative

/-- What is left of a document is read as the document is, without what is skipped in it. -/
theorem document_cleanedRoot (v : Vocabulary) (uri : String) (root : Node) :
    document v uri (cleanedRoot v uri root) =
      (document v uri root).filterMap TopLevel.stripped? := by
  have htop (nodes : List Node) :
      (Xml.elements ((nodes.filter fun n => !n.isElement || n.name.uri = some uri).map
        (cleanedTop v uri))).map (topLevel v uri) =
      ((Xml.elements nodes).map (topLevel v uri)).filterMap TopLevel.stripped? := by
    induction nodes with
    | nil => rfl
    | cons node nodes ih =>
      unfold Xml.elements at ih ⊢
      cases node with
      | element name attributes children =>
        by_cases huri : name.uri = some uri
        · have hnative : some (topLevel v uri (cleanedTop v uri
              (.element name attributes children))) = _ := topLevel_cleanedTop v uri huri
          have hleft : (cleanedTop v uri (.element name attributes children)).isElement = true := by
            rfl
          rw [List.filter_cons_of_pos (by simp [Node.name, huri]), List.map_cons,
            List.filter_cons_of_pos hleft, List.map_cons, ih, List.filter_cons_of_pos rfl,
            List.map_cons, List.filterMap_cons_some hnative.symm]
        · have hforeign : topLevel v uri (.element name attributes children) =
              .foreign name.localName := by
            simp [topLevel, Node.name, huri]
          rw [List.filter_cons_of_neg (by simp [Node.isElement, Node.name, huri]), ih,
            List.filter_cons_of_pos rfl, List.map_cons, hforeign, List.filterMap_cons_none rfl]
      | _ => simpa [Node.isElement, cleanedTop] using ih
  unfold document
  cases root with
  | element name attributes children => exact htop children
  | _ => rfl

end Wiring.Markup
