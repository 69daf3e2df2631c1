import ApiDocs.Endpoint.Tags
import ApiDocs.ReturnType
import ApiDocs.StableId
import ApiDocs.Text.Capital
/-!
# Building definitions

Each endpoint becomes one definition. An endpoint that cannot be documented is skipped with the
reason and leaves all others as they are.
-/
namespace ApiDocs.Endpoint

/-- The group of endpoints without one. -/
def defaultGroup : String := "Ungrouped"

/-- What definitions are built from beside the endpoints. -/
structure Context where
  source : Facts.Source
  service : Service
  conventions : Conventions
  catalog : ErrorCatalog

/-- A part of a route with a slash in front; nothing for an empty one. -/
def withSlash (part : String) : String :=
  if part.isEmpty then "" else if Text.startsWith part "/" then part else "/" ++ part

/-- The route of a method below that of its class, beginning with a slash. -/
def joinRoute (outer inner : String) : String :=
  let url := withSlash (Text.dropEndChar '/' (Text.trim outer)) ++ withSlash (Text.trim inner)
  if url.isEmpty then "/" else url

/-- The name of an endpoint: that of the route, else the first line of the comment, else that of the
method. -/
def displayName (e : Facts.Endpoint) : String :=
  match nonEmpty (e.mappingName.map Text.trim) with
  | some name => name
  | none => e.comment.firstLine?.getD e.methodName

/-- The table of responses: those of tags, success if no tag gives one, and the status of each
error with the name of its group. -/
def responseTable (s : Summary) : Sorted String :=
  let described := if s.hasResponseTag then s.responses else s.responses.put "200" "Success"
  s.errors.foldl (fun table e => table.put (toString e.status) e.group) described

/-- The result of building one definition, and the models it refers to as far as it came. -/
structure Built where
  definition : Outcome Definition
  references : PathSet

/-- The inputs of an endpoint with all its tags taken in, and what they say. -/
def documented (ctx : Context) (e : Facts.Endpoint) (i : Inputs) : Inputs × Summary :=
  let (i, s) := e.comment.tags.foldl (applyTag ctx.source ctx.catalog) (i, Summary.empty)
  (i, e.throws.foldl (fun s x => s.linkError ctx.catalog (TypeName.simple x)) s)

/-- Builds the definition of an endpoint. -/
def build (ctx : Context) (e : Facts.Endpoint) : Built :=
  let method := Text.upper (Text.trim e.httpMethod)
  if method.isEmpty then
    ⟨.error (.resolution (e.handler ++ "#" ++ e.methodName ++ " has no HTTP method")), Sorted.empty⟩
  else
    let (inputs, fault) := Inputs.empty.addAll ctx.source ctx.conventions e.parameters
    match fault with
    | some fault => ⟨.error fault, inputs.references⟩
    | none =>
      let url := joinRoute e.handlerPath e.path
      let name := displayName e
      let (inputs, s) := documented ctx e inputs
      let returned := ReturnType.ofType ctx.conventions e.returnType
      let references :=
        PathSet.addAll (returned.content.filter ctx.conventions.isModel).toList inputs.references
      let definition : Definition :=
        { id := stableId [url, name, method]
          name
          className := s.className
          description := Text.trim e.comment.description
          group := s.group.getD defaultGroup
          groupId := e.groupId.getD e.handler
          method
          urlMapping := url
          parameters := inputs.parameters.values
          headers := Header.merge inputs.headers.values ctx.service.headers
          returnClass := returned.content
          returnDescription := s.returnDescription
          returnShape := returned.shape
          needsSession := s.needsSession
          responses := responseTable s
          errors := s.errors }
      ⟨.ok definition, references⟩

/-- An endpoint that could not be documented. -/
structure Skipped where
  handler : String
  methodName : String
  reason : String
  deriving DecidableEq, Repr

/-- The definitions of a run by handler, the models they refer to, and the endpoints left out. -/
structure Definitions where
  groups : Keyed (List Definition)
  references : PathSet
  skipped : List Skipped

namespace Definitions

def empty : Definitions := ⟨Keyed.empty, Sorted.empty, []⟩

/-- All definitions, handler by handler. -/
def toList (d : Definitions) : List Definition :=
  d.groups.values.flatten

def size (d : Definitions) : Nat :=
  d.toList.length

/-- Takes in what was built for an endpoint. -/
def add (d : Definitions) (e : Facts.Endpoint) (b : Built) : Definitions :=
  match b.definition with
  | .ok definition =>
    { d with
      groups := d.groups.alter e.handler fun before => before.getD [] ++ [definition]
      references := PathSet.addAll b.references.keys d.references }
  | .error fault =>
    { d with skipped := d.skipped ++ [⟨e.handler, e.methodName, fault.message⟩] }

/-- Builds the definitions of some endpoints. -/
def ofEndpoints (ctx : Context) (es : List Facts.Endpoint) : Definitions :=
  es.foldl (fun d e => d.add e (build ctx e)) empty

end Definitions

end ApiDocs.Endpoint
