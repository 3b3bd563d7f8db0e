/-!
The dialects a source can be written in, and the namespaces by which the markup dialects
are told apart.
-/

namespace Wiring

inductive Dialect where
  /-- Flat component markup. -/
  | legacy
  /-- Object markup with templates, in two schema versions. -/
  | objects
  /-- Bean markup. -/
  | springBeans
  /-- Structured text. -/
  | yaml
deriving DecidableEq, Inhabited

namespace Dialect

def name : Dialect → String
  | .legacy => "legacy"
  | .objects => "objects"
  | .springBeans => "spring-beans"
  | .yaml => "yaml"

def all : List Dialect := [.legacy, .objects, .springBeans, .yaml]

/-- The dialect of a name, which must be spelled exactly. -/
def ofName? (name : String) : Option Dialect := all.find? fun d => d.name == name

theorem ofName?_name (d : Dialect) : ofName? d.name = some d := by
  cases d <;> decide

def legacyNamespace : String :=
  "http://www.springframework.org/springpython/schema/pycontainer-components"

def objectsNamespace : String := "http://www.springframework.org/springpython/schema/objects"

/-- The namespace of object markup in schema version 1.1. -/
def objectsNamespace11 : String :=
  "http://www.springframework.org/springpython/schema/objects/1.1"

def beansNamespace : String := "http://www.springframework.org/schema/beans"

/-- The namespaces of a dialect; structured text has none. -/
def namespaces : Dialect → List String
  | .legacy => [legacyNamespace]
  | .objects => [objectsNamespace, objectsNamespace11]
  | .springBeans => [beansNamespace]
  | .yaml => []

def ofNamespace? (uri : String) : Option Dialect :=
  [Dialect.legacy, .objects, .springBeans].find? fun d => d.namespaces.contains uri

end Dialect

end Wiring
