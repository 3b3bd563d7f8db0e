import Wiring.Report.ReadError
import Wiring.Xml.Document

/-!
Markup documents and the elements they are rooted in.
-/

namespace Wiring.Markup

def parseRoot (location text : String) : Except ReadError Xml.Node :=
  match Xml.parse? text with
  | some root => .ok root
  | none => .error (.malformed location .unparsable)

/-- The namespace of a root element that is to have a name and one of some namespaces. -/
def rootNamespace (location expected : String) (namespaces : List String) (root : Xml.Node) :
    Except ReadError String :=
  match root.name.uri with
  | some uri =>
    if root.name.localName = expected ∧ uri ∈ namespaces then .ok uri
    else .error (.malformed location (.wrongRoot expected namespaces root.name.localName uri))
  | none => .error (.malformed location (.wrongRoot expected namespaces root.name.localName ""))

end Wiring.Markup
