import ApiDocs.ErrorGroup
import ApiDocs.Header
import ApiDocs.ReturnShape
/-!
# API definitions

The normalised description of one endpoint, from which all documents are rendered.
-/
namespace ApiDocs

/-- Where a parameter is sent. -/
inductive Location where
  | path
  | query
  | body
  deriving DecidableEq, Repr

namespace Location

def word : Location → String
  | .path => "PATH"
  | .query => "QUERY"
  | .body => "BODY"

def ofNode : Node → Reading Location :=
  Reading.word [("PATH", .path), ("QUERY", .query), ("BODY", .body)]

end Location

structure Parameter where
  name : String
  /-- The simple name of a scalar, or one of `Array`, `Enum` and `Object`. -/
  typeName : String
  classPath : String
  description : String
  isOptional : Bool
  defaultValue : Option String
  location : Location
  isEnum : Bool
  /-- Whether it is a sequence of values of the class. -/
  isArray : Bool
  deriving DecidableEq, Repr

namespace Parameter

def toJson (p : Parameter) : Json :=
  .obj
    ([("name", .str p.name), ("type", .str p.typeName), ("classPath", .str p.classPath),
      ("description", .str p.description), ("isOptional", .bool p.isOptional)] ++
     Json.present "defaultValue" (p.defaultValue.map .str) ++
     [("parameterKind", .str p.location.word), ("isEnum", .bool p.isEnum),
      ("isArray", .bool p.isArray)])

def memberNames : List String :=
  ["name", "type", "classPath", "description", "isOptional", "defaultValue", "parameterKind",
   "isEnum", "isArray"]

def ofNode (n : Node) : Reading Parameter := do
  let r ← Record.ofNode memberNames n
  return {
    name := ← r.required "name" Reading.text
    typeName := ← r.required "type" Reading.text
    classPath := ← r.required "classPath" Reading.text
    description := ← r.textOrEmpty "description"
    isOptional := ← r.flag "isOptional"
    defaultValue := ← r.optional "defaultValue" Reading.text
    location := ← r.required "parameterKind" Location.ofNode
    isEnum := ← r.flag "isEnum"
    isArray := ← r.flag "isArray" }

end Parameter

structure Definition where
  id : String
  name : String
  className : String
  description : String
  group : String
  groupId : String
  method : String
  urlMapping : String
  parameters : List Parameter
  headers : List Header
  returnClass : Option String
  returnDescription : String
  returnShape : ReturnShape
  needsSession : Bool
  /-- What each status code means. -/
  responses : Sorted String
  errors : List ErrorGroup
  deriving DecidableEq

namespace Definition

/-- The parameters sent in a place, in order. -/
def parametersIn (d : Definition) (location : Location) : List Parameter :=
  d.parameters.filter fun p => p.location == location

/-- The parameter that is the body, if there is one. -/
def body? (d : Definition) : Option Parameter :=
  (d.parametersIn .body).head?

def toJson (d : Definition) : Json :=
  .obj
    ([("id", .str d.id), ("name", .str d.name), ("className", .str d.className),
      ("description", .str d.description), ("group", .str d.group), ("groupId", .str d.groupId),
      ("method", .str d.method), ("urlMapping", .str d.urlMapping),
      ("parameters", .list (d.parameters.map Parameter.toJson)),
      ("headers", .list (d.headers.map Header.toJson))] ++
     Json.present "returnClass" (d.returnClass.map .str) ++
     [("returnDescription", .str d.returnDescription)] ++
     d.returnShape.flags ++
     [("isNeedsSession", .bool d.needsSession),
      ("responseStatus", Json.ofSorted .str d.responses),
      ("errors", .list (d.errors.map ErrorGroup.toJson))])

def memberNames : List String :=
  ["id", "name", "className", "description", "group", "groupId", "method", "urlMapping",
   "parameters", "headers", "returnClass", "returnDescription"] ++ ReturnShape.flagNames ++
  ["isNeedsSession", "responseStatus", "errors"]

/-- Reads a definition from an object, whose other members have to be readable too. -/
def ofNode (n : Node) : Reading Definition := do
  let r ← Record.byNameAmong memberNames n
  return {
    id := ← r.required "id" Reading.text
    name := ← r.required "name" Reading.text
    className := ← r.textOrEmpty "className"
    description := ← r.textOrEmpty "description"
    group := ← r.required "group" Reading.text
    groupId := ← r.textOrEmpty "groupId"
    method := ← r.required "method" Reading.text
    urlMapping := ← r.required "urlMapping" Reading.text
    parameters := ← r.listOrEmpty "parameters" Parameter.ofNode
    headers := ← r.listOrEmpty "headers" Header.ofNode
    returnClass := ← r.optional "returnClass" Reading.text
    returnDescription := ← r.textOrEmpty "returnDescription"
    returnShape := ← ReturnShape.ofRecord r
    needsSession := ← r.flag "isNeedsSession"
    responses := ← r.withDefault "responseStatus" Sorted.empty (Reading.sorted Reading.text)
    errors := ← r.listOrEmpty "errors" ErrorGroup.ofNode }

end Definition

end ApiDocs
