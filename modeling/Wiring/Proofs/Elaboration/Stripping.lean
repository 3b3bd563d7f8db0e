import Wiring.Proofs.Elaboration.Pruning

/-!
Declarations without what is skipped. Every named argument, property, item and entry that
has no value is taken out, at every depth that is looked at; all the rest stays as it is,
with all there is to say about it. What is left defines the same.
-/

namespace Wiring

/-- Whether a declaration is nothing but its shorthand. -/
def Declaration.isShort (typeName parent : TextAttribute) : Shorthand → Bool
  | .absent => false
  | .present .. => !Declaration.isTyped typeName parent

mutual

/-- The same content without what is skipped in it. -/
def Content.stripped : Content → Content
  | .scalar value => .scalar value
  | .reference target => .reference target
  | .sequence shape items => .sequence shape (strippedItems items)
  | .mapping entries => .mapping (strippedEntries entries)
  | .inline declaration => .inline declaration.stripped
  | .unusable complaints => .unusable complaints
termination_by structural content => content

def strippedItems : List Content → List Content
  | [] => []
  | item :: items =>
    if item.isUsable then item.stripped :: strippedItems items else strippedItems items
termination_by structural items => items

def strippedEntries : List WrittenEntry → List WrittenEntry
  | [] => []
  | .keyed key content :: entries =>
    if content.isUsable then .keyed key content.stripped :: strippedEntries entries
    else strippedEntries entries
  | .keyless _ :: entries => strippedEntries entries
termination_by structural entries => entries

/-- A positional argument stays, since its slot counts. -/
def strippedArguments : List WrittenArgument → List WrittenArgument
  | [] => []
  | .positional content :: arguments =>
    .positional content.stripped :: strippedArguments arguments
  | .named name content :: arguments =>
    if content.isUsable then .named name content.stripped :: strippedArguments arguments
    else strippedArguments arguments
  | .ignored _ :: arguments => strippedArguments arguments
termination_by structural arguments => arguments

def strippedProperties : List WrittenProperty → List WrittenProperty
  | [] => []
  | .named name content :: properties =>
    if content.isUsable then .named name content.stripped :: strippedProperties properties
    else strippedProperties properties
  | .unnamed :: properties => strippedProperties properties
  | .ignored _ :: properties => strippedProperties properties
termination_by structural properties => properties

def Shorthand.stripped : Shorthand → Shorthand
  | .absent => .absent
  | .present type content => .present type content.stripped
termination_by structural shorthand => shorthand

/-- The same declaration without what is skipped in it. What is not looked at stays. -/
def Declaration.stripped : Declaration → Declaration
  | ⟨explicitId, typeName, scope, lazyInit, isAbstract, parent, shorthand, element, arguments,
      properties⟩ =>
    if Declaration.isShort typeName parent shorthand then
      ⟨explicitId, typeName, scope, lazyInit, isAbstract, parent, shorthand.stripped, element,
        arguments, properties⟩
    else
      ⟨explicitId, typeName, scope, lazyInit, isAbstract, parent, shorthand, element,
        strippedArguments arguments, strippedProperties properties⟩
termination_by structural declaration => declaration

end

theorem Content.isUsable_stripped (content : Content) :
    content.stripped.isUsable = content.isUsable := by
  cases content <;> rw [Content.stripped] <;> rfl

-- The induction is on the syntax. Pruning takes out what stripping takes out, and of the
-- rest it only forgets what there is to say about it.
mutual

theorem Content.pruned_stripped : ∀ content : Content, content.stripped.pruned = content.pruned
  | .scalar _ => by rw [Content.stripped]
  | .reference _ => by rw [Content.stripped]
  | .sequence shape items => by
    rw [Content.stripped, Content.pruned, Content.pruned, prunedItems_stripped items]
  | .mapping entries => by
    rw [Content.stripped, Content.pruned, Content.pruned, prunedEntries_stripped entries]
  | .inline declaration => by
    rw [Content.stripped, Content.pruned, Content.pruned, declaration.pruned_stripped]
  | .unusable _ => by rw [Content.stripped]
termination_by structural content => content

theorem prunedItems_stripped : ∀ items : List Content,
    prunedItems (strippedItems items) = prunedItems items
  | [] => by rw [strippedItems]
  | item :: items => by
    cases husable : item.isUsable with
    | true =>
      rw [strippedItems, if_pos husable, prunedItems, item.isUsable_stripped, if_pos husable,
        prunedItems, if_pos husable, item.pruned_stripped, prunedItems_stripped items]
    | false =>
      rw [strippedItems, prunedItems, husable, if_neg Bool.false_ne_true,
        if_neg Bool.false_ne_true, prunedItems_stripped items]
termination_by structural items => items

theorem prunedEntries_stripped : ∀ entries : List WrittenEntry,
    prunedEntries (strippedEntries entries) = prunedEntries entries
  | [] => by rw [strippedEntries]
  | .keyless _ :: entries => by
    rw [strippedEntries, prunedEntries, prunedEntries_stripped entries]
  | .keyed key content :: entries => by
    cases husable : content.isUsable with
    | true =>
      rw [strippedEntries, if_pos husable, prunedEntries, content.isUsable_stripped,
        if_pos husable, prunedEntries, if_pos husable, content.pruned_stripped,
        prunedEntries_stripped entries]
    | false =>
      rw [strippedEntries, prunedEntries, husable, if_neg Bool.false_ne_true,
        if_neg Bool.false_ne_true, prunedEntries_stripped entries]
termination_by structural entries => entries

theorem prunedArguments_stripped : ∀ arguments : List WrittenArgument,
    prunedArguments (strippedArguments arguments) = prunedArguments arguments
  | [] => by rw [strippedArguments]
  | .positional content :: arguments => by
    rw [strippedArguments, prunedArguments, prunedArguments, content.pruned_stripped,
      prunedArguments_stripped arguments]
  | .named name content :: arguments => by
    cases husable : content.isUsable with
    | true =>
      rw [strippedArguments, if_pos husable, prunedArguments, content.isUsable_stripped,
        if_pos husable, prunedArguments, if_pos husable, content.pruned_stripped,
        prunedArguments_stripped arguments]
    | false =>
      rw [strippedArguments, prunedArguments, husable, if_neg Bool.false_ne_true,
        if_neg Bool.false_ne_true, prunedArguments_stripped arguments]
  | .ignored _ :: arguments => by
    rw [strippedArguments, prunedArguments, prunedArguments_stripped arguments]
termination_by structural arguments => arguments

theorem prunedProperties_stripped : ∀ properties : List WrittenProperty,
    prunedProperties (strippedProperties properties) = prunedProperties properties
  | [] => by rw [strippedProperties]
  | .named name content :: properties => by
    cases husable : content.isUsable with
    | true =>
      rw [strippedProperties, if_pos husable, prunedProperties, content.isUsable_stripped,
        if_pos husable, prunedProperties, if_pos husable, content.pruned_stripped,
        prunedProperties_stripped properties]
    | false =>
      rw [strippedProperties, prunedProperties, husable, if_neg Bool.false_ne_true,
        if_neg Bool.false_ne_true, prunedProperties_stripped properties]
  | .unnamed :: properties => by
    rw [strippedProperties, prunedProperties, prunedProperties_stripped properties]
  | .ignored _ :: properties => by
    rw [strippedProperties, prunedProperties, prunedProperties_stripped properties]
termination_by structural properties => properties

theorem Shorthand.pruned_stripped : ∀ shorthand : Shorthand,
    shorthand.stripped.pruned = shorthand.pruned
  | .absent => by rw [Shorthand.stripped]
  | .present type content => by
    rw [Shorthand.stripped, Shorthand.pruned, Shorthand.pruned, content.pruned_stripped]
termination_by structural shorthand => shorthand

theorem Declaration.pruned_stripped : ∀ declaration : Declaration,
    declaration.stripped.pruned = declaration.pruned
  | ⟨_, typeName, scope, lazyInit, isAbstract, parent, shorthand, element, arguments,
      properties⟩ => by
    rw [Declaration.stripped]
    split
    · rw [Declaration.pruned, Declaration.pruned, shorthand.pruned_stripped]
    · rw [Declaration.pruned, Declaration.pruned, prunedArguments_stripped arguments,
        prunedProperties_stripped properties]
termination_by structural declaration => declaration

end

/-- The same at the top level, where foreign elements are skipped. -/
def TopLevel.stripped? : TopLevel → Option TopLevel
  | .declared id idless declaration => some (.declared id idless declaration.stripped)
  | .foreign _ => none
  | .unidentified => some .unidentified

/-- A document without what is skipped defines the same. -/
theorem answer_definitionsOf_stripped (source : String) (document : List TopLevel) :
    (definitionsOf source (document.filterMap TopLevel.stripped?)).answer =
      (definitionsOf source document).answer := by
  have hpruned : (document.filterMap TopLevel.stripped?).filterMap TopLevel.pruned? =
      document.filterMap TopLevel.pruned? := by
    rw [List.filterMap_filterMap]
    congr 1
    funext top
    cases top with
    | declared id idless declaration =>
      simp [TopLevel.stripped?, TopLevel.pruned?, declaration.pruned_stripped]
    | foreign element => rfl
    | unidentified => rfl
  rw [← answer_definitionsOf_pruned, hpruned, answer_definitionsOf_pruned]

end Wiring
