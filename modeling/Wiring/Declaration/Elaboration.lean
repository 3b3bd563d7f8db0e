import Wiring.Declaration.Basic
import Wiring.Definition.Naming
import Wiring.Template.Ancestry

/-!
Elaboration makes drafts of declarations. Every value gets its name, unusable pieces
are skipped and reported, and each inline declaration becomes a definition of its own
that is emitted just before the value that holds it is finished, so a nested one comes
before the one around it. Only an unknown scope is an error.
-/

namespace Wiring

/-- What is emitted on the way: log entries and inline definitions. -/
inductive Emission where
  | event (event : Event)
  | definition (definition : ObjectDefinition)

/-- An elaboration: what was emitted in order, and the outcome. -/
abbrev Elaboration (α : Type) := Traced Emission ReadError α

namespace Emission

def event? : Emission → Option Event
  | .event e => some e
  | .definition _ => none

def definition? : Emission → Option ObjectDefinition
  | .event _ => none
  | .definition d => some d

end Emission

namespace Elaboration

def log (e : Event) : Elaboration Unit := Traced.record (.event e)

def logIf (condition : Bool) (e : Event) : Elaboration Unit :=
  if condition then log e else pure ()

/-- Logs complaints about the value of a name. -/
def complain (complaints : List Complaint) (name : String) : Elaboration Unit :=
  Traced.recordAll (complaints.map fun c => .event (.complaint c name))

/-- The draft that the attributes of a declaration give, without arguments. -/
def outline (source id : String) (typeName : TextAttribute) (scopeToken : Option String)
    (lazyInit isAbstract : Bool) (parent : TextAttribute) : Elaboration Draft := do
  logIf (typeName = .unreadable) (.unreadableAttribute source id "class")
  let scope ← Traced.ofExcept (Scope.ofDeclared source id scopeToken)
  logIf (parent = .unreadable) (.unreadableAttribute source id "parent")
  return {
    id, scope, lazyInit, isAbstract
    factory := typeName.factory
    parent := parent.templateId
    args := Arguments.empty
    inner := [] }

end Elaboration

open Elaboration

mutual

/-- The value of some content under a name, if it has one. `owner` is the id of the
definition the content lies in. -/
def Content.elaborate (source owner name : String) :
    Content → Elaboration (Option ValueDefinition)
  | .scalar value => pure (some (.scalar name value))
  | .reference target => pure (some (.reference name target))
  | .sequence shape items => do
    let values ← elaborateItems source owner name shape 0 items
    return some (.sequence name shape values)
  | .mapping entries => do
    let values ← elaborateEntries source owner name [] entries
    return some (.mapping name values)
  | .inline declaration => do
    let draft ← declaration.elaborate source
      (Naming.inner owner name declaration.explicitId)
    let definition := draft.declared
    log (.parsedInline definition.id)
    Traced.record (.definition definition)
    return some (.inner name definition)
  | .unusable complaints => do
    complain complaints name
    return none
termination_by structural content => content

/-- The values of the items of a sequence. An item that has none is skipped, and the
next one takes its index. -/
def elaborateItems (source owner name : String) (shape : Shape) (index : Nat) :
    List Content → Elaboration (List ValueDefinition)
  | [] => pure []
  | item :: items => do
    match ← item.elaborate source owner (Naming.element name shape.label index) with
    | some value =>
      let values ← elaborateItems source owner name shape (index + 1) items
      return value :: values
    | none => elaborateItems source owner name shape index items
termination_by structural items => items

/-- The entries of a mapping, put one after the other into those before them. -/
def elaborateEntries (source owner name : String) (done : Entries ValueDefinition) :
    List WrittenEntry → Elaboration (Entries ValueDefinition)
  | [] => pure done
  | .keyless complaint :: entries => do
    complain [complaint] name
    elaborateEntries source owner name done entries
  | .keyed key content :: entries => do
    match ← content.elaborate source owner (Naming.entry name key) with
    | some value => elaborateEntries source owner name (done.put key value) entries
    | none =>
      complain [.unhandledEntry] (Naming.entry name key)
      elaborateEntries source owner name done entries
termination_by structural entries => entries

/-- The constructor arguments of the definition `owner`, added to those before them. -/
def elaborateArguments (source owner : String) (done : Arguments) :
    List WrittenArgument → Elaboration Arguments
  | [] => pure done
  | .positional content :: arguments => do
    let value ← content.elaborate source owner (Naming.positional done.positional.length)
    elaborateArguments source owner { done with positional := done.positional ++ [value] }
      arguments
  | .named name content :: arguments => do
    match ← content.elaborate source owner name with
    | some value =>
      elaborateArguments source owner { done with named := done.named.put name value }
        arguments
    | none =>
      log (.unrecognizedValue source owner name)
      elaborateArguments source owner done arguments
  | .ignored label :: arguments => do
    log (.unrecognizedValue source owner label)
    elaborateArguments source owner done arguments
termination_by structural arguments => arguments

def elaborateProperties (source owner : String) :
    List WrittenProperty → Elaboration (List ValueDefinition)
  | [] => pure []
  | .named name content :: properties => do
    match ← content.elaborate source owner name with
    | some value =>
      let values ← elaborateProperties source owner properties
      return value :: values
    | none =>
      log (.unrecognizedValue source owner name)
      elaborateProperties source owner properties
  | .unnamed :: properties => do
    log (.unnamedProperty source owner)
    elaborateProperties source owner properties
  | .ignored label :: properties => do
    log (.unrecognizedValue source owner label)
    elaborateProperties source owner properties
termination_by structural properties => properties

/-- The only argument of a shorthand. -/
def Shorthand.elaborate (source owner : String) :
    Shorthand → Elaboration (Option (Builtin × Option ValueDefinition))
  | .absent => pure none
  | .present type content => do
    let value ← content.elaborate source owner (Naming.positional 0)
    return some (type, value)
termination_by structural shorthand => shorthand

/-- The draft of a declaration under its id. A declaration with neither a type nor a
parent is a shorthand if it can be, and then nothing else of it counts. -/
def Declaration.elaborate (source id : String) : Declaration → Elaboration Draft
  | ⟨_, typeName, scopeToken, lazyInit, isAbstract, parent, shorthand, element, arguments,
      properties⟩ => do
    let draft ← outline source id typeName scopeToken lazyInit isAbstract parent
    let short ← (if draft.isTyped then pure none else shorthand.elaborate source id)
    match short with
    | some (type, value) =>
      return { draft with
        factory := .builtin type
        args := { Arguments.empty with positional := [value] } }
    | none =>
      logIf (!draft.isTyped) (.untyped source id element)
      let args ← elaborateArguments source id Arguments.empty arguments
      let values ← elaborateProperties source id properties
      return { draft with args := { args with properties := values } }
termination_by structural declaration => declaration

end

/-- The draft of a top-level declaration, with the definitions written inline in it. -/
def Declaration.draft (source id : String) (declaration : Declaration) : Reading Draft :=
  let elaboration := declaration.elaborate source id
  { trace := elaboration.trace.filterMap Emission.event?
    answer := elaboration.answer.map fun draft =>
      { draft with inner := elaboration.trace.filterMap Emission.definition? } }

/-- The drafts of what stands at the top level of a document. -/
def draftsOf (source : String) : List TopLevel → Reading (List Draft)
  | [] => pure []
  | .foreign element :: rest => do
    Traced.record (.foreignDeclaration source element)
    draftsOf source rest
  | .unidentified :: _ => Traced.fail (.malformed source .missingObjectId)
  | .declared id idless declaration :: rest => do
    if idless then Traced.record (.missingId source)
    let draft ← declaration.draft source id
    let drafts ← draftsOf source rest
    return draft :: drafts

/-- The definitions of a document, templates merged. -/
def definitionsOf (source : String) (document : List TopLevel) :
    Reading (List ObjectDefinition) := do
  let drafts ← draftsOf source document
  resolveTemplates source drafts

end Wiring
