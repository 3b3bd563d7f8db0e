import Wiring.Definition.Factory
import Wiring.Definition.Scalar
import Wiring.Definition.Shape
import Wiring.Report.Event

/-!
Declarations as written, in no particular dialect. A dialect says how its documents are
laid out as declarations; what declarations mean is the same for all of them. Written
content has no names yet, and it may hold pieces that nothing can be made of, together
with what is to be said about them.
-/

namespace Wiring

/-- An attribute that should be a text. -/
inductive TextAttribute where
  | absent
  | given (text : String)
  /-- Something is given that is no text. -/
  | unreadable
deriving DecidableEq, Inhabited

namespace TextAttribute

/-- The text of an attribute, if it has one. -/
def text? : TextAttribute → Option String
  | .given text => some text
  | _ => none

/-- An attribute that is a text if it is given at all. -/
def ofText? : Option String → TextAttribute
  | some text => .given text
  | none => .absent

def factory (typeName : TextAttribute) : Factory := Factory.ofClass typeName.text?

/-- The id of a declared parent template; a blank one is none. -/
def templateId (parent : TextAttribute) : Option String :=
  (parent.text?.filter fun p => !Text.isAllBlank p).map Text.trim

end TextAttribute

mutual

/-- Content of an argument, a property or a place in a collection. -/
inductive Content where
  | scalar (value : Scalar)
  | reference (target : String)
  | sequence (shape : Shape) (items : List Content)
  | mapping (entries : List WrittenEntry)
  | inline (declaration : Declaration)
  /-- Nothing that has a value; there may be nothing to say about it. -/
  | unusable (complaints : List Complaint)

inductive WrittenEntry where
  | keyed (key : String) (content : Content)
  /-- An entry whose key cannot be told. -/
  | keyless (complaint : Complaint)

inductive WrittenArgument where
  | positional (content : Content)
  | named (name : String) (content : Content)
  /-- Something that is no argument, reported under a label. -/
  | ignored (label : String)

inductive WrittenProperty where
  | named (name : String) (content : Content)
  | unnamed
  /-- Something that is no property, reported under a label. -/
  | ignored (label : String)

/-- A built-in type with the content of its only argument, the short way to declare a
plain value. -/
inductive Shorthand where
  | absent
  | present (type : Builtin) (content : Content)

structure Declaration where
  /-- The id an inline declaration gives itself. -/
  explicitId : Option String
  typeName : TextAttribute
  scope : Option String
  lazyInit : Bool
  isAbstract : Bool
  parent : TextAttribute
  /-- Consulted if there is neither a type nor a parent. -/
  shorthand : Shorthand
  /-- The name of the element, for dialects that have elements. -/
  element : Option String
  arguments : List WrittenArgument
  properties : List WrittenProperty

end

/-- What stands at the top level of a document. -/
inductive TopLevel where
  /-- A declaration with its id. `idless` tells that no id is given at all. -/
  | declared (id : String) (idless : Bool) (declaration : Declaration)
  /-- An element of another vocabulary. -/
  | foreign (element : String)
  /-- A declaration that is not allowed to go without an id. -/
  | unidentified

namespace Content

instance : Inhabited Content := ⟨.unusable []⟩

def ofText (text : String) : Content := .scalar (Scalar.ofText text)

/-- Nothing at all, which is not worth a word. -/
def nothing : Content := .unusable []

end Content

end Wiring
