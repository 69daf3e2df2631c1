import ApiDocs.Facts
import ApiDocs.Fault
import ApiDocs.Json.Reader
/-!
# Sources of facts

A source answers what the endpoints, types and exceptions of a service are, and may fail to. The
usual source is a facts document.
-/
namespace ApiDocs.Facts

/-- A facts document: the types have distinct class paths. -/
structure Document where
  endpoints : List Endpoint
  types : Keyed TypeFacts
  exceptions : List ExceptionFacts
  errorResponse : Option String

namespace Document

def ofNode (n : Node) : Reading Document := do
  let r ← Record.ofNode ["endpoints", "types", "exceptions", "errorResponse"] n
  let endpoints ← r.listOrEmpty "endpoints" Endpoint.ofNode
  let types ← r.listOrEmpty "types" TypeFacts.ofNode
  let exceptions ← r.listOrEmpty "exceptions" ExceptionFacts.ofNode
  let errorResponse ← r.optional "errorResponse" Reading.text
  return ⟨endpoints, Keyed.ofList (types.map fun t => (t.classPath, t)), exceptions, errorResponse⟩

/-- Reads the text of a facts document. -/
def ofText (text : String) : Outcome Document :=
  let unfit : Fault := .parse "Failed to parse facts JSON: the text is not a facts document"
  match Json.read text with
  | none => .error unfit
  | some n =>
    match ofNode n with
    | .ok d => .ok d
    | .error .form => .error unfit
    | .error .wideBlank => .error .wideBlank

end Document

/-- Where facts come from. Some types may be refused, with a reason. -/
structure Source where
  endpoints : Outcome (List Endpoint)
  types : Keyed TypeFacts
  refused : Keyed String
  exceptions : Outcome (List ExceptionFacts)
  errorResponse : Option String

namespace Source

def ofDocument (d : Document) : Source :=
  ⟨.ok d.endpoints, d.types, Keyed.empty, .ok d.exceptions, d.errorResponse⟩

/-- The facts of a type. -/
def typeFacts (s : Source) (path : String) : Outcome TypeFacts :=
  match s.refused.get? path with
  | some reason => .error (.generation reason)
  | none =>
    match s.types.get? path with
    | some facts => .ok facts
    | none => .error (.resolution ("No facts for type " ++ path))

end Source

end ApiDocs.Facts
