import ApiDocs.Text.Blank
import ApiDocs.Text.Pieces
import ApiDocs.TypeExpr.Document
/-!
# Facts

What can be observed about annotated handlers and their types, with no interpretation applied: the
endpoints, their parameters and comments, the types they mention, and the exceptions they throw.
-/
namespace ApiDocs.Facts

/-- How a parameter is bound to the request. -/
inductive Binding where
  | path (name : Option String) (required : Bool)
  | query (name : Option String) (required : Bool) (defaultValue : Option String)
  | body
  | header (name : Option String) (required : Bool) (defaultValue : Option String)
  /-- The members of the parameter's type are query parameters of their own. -/
  | queryObject
  /-- A paging request with declared defaults. -/
  | pageDefaults (page size offset : Nat) (column direction : Option String)
  /-- No binding is declared; the parameter is sent in the query. -/
  | unbound
  deriving DecidableEq, Repr, Inhabited

namespace Binding

def toJson : Binding → Json
  | .path name required =>
    .obj [("kind", .str "path"), ("name", .text? name), ("required", .bool required)]
  | .query name required value =>
    .obj [("kind", .str "query"), ("name", .text? name), ("required", .bool required),
      ("defaultValue", .text? value)]
  | .body => .obj [("kind", .str "body")]
  | .header name required value =>
    .obj [("kind", .str "header"), ("name", .text? name), ("required", .bool required),
      ("defaultValue", .text? value)]
  | .queryObject => .obj [("kind", .str "queryObject")]
  | .pageDefaults page size offset column direction =>
    .obj [("kind", .str "pageDefaults"), ("page", .int page), ("size", .int size),
      ("offset", .int offset), ("column", .text? column), ("direction", .text? direction)]
  | .unbound => .obj [("kind", .str "unbound")]

def memberNames : String → List String
  | "path" => ["name", "required"]
  | "query" | "header" => ["name", "required", "defaultValue"]
  | "pageDefaults" => ["page", "size", "offset", "column", "direction"]
  | _ => []

/-- Page numbers and sizes have thirty-two bits. -/
def countBound : Nat := Nat.pow 2 32

/-- The binding of a kind with the other members of its record. -/
def ofRecord (kind : String) (r : Record) : Reading Binding :=
  match kind with
  | "path" => do
    let name ← r.optional "name" Reading.text
    let required ← r.withDefault "required" true Reading.boolean
    return .path name required
  | "query" => do
    let name ← r.optional "name" Reading.text
    let required ← r.withDefault "required" true Reading.boolean
    let value ← r.optional "defaultValue" Reading.text
    return .query name required value
  | "body" => .ok .body
  | "header" => do
    let name ← r.optional "name" Reading.text
    let required ← r.withDefault "required" true Reading.boolean
    let value ← r.optional "defaultValue" Reading.text
    return .header name required value
  | "queryObject" => .ok .queryObject
  | "pageDefaults" => do
    let page ← r.withDefault "page" 0 (Reading.natBelow countBound)
    let size ← r.withDefault "size" 10 (Reading.natBelow countBound)
    let offset ← r.withDefault "offset" 0 (Reading.natBelow countBound)
    let column ← r.optional "column" Reading.text
    let direction ← r.optional "direction" Reading.text
    return .pageDefaults page size offset column direction
  | "unbound" => .ok .unbound
  | _ => .error .form

/-- Reads a binding from an object with its kind among the members, or from a list that begins with
its kind. All parts have to be readable. -/
def ofNode (n : Node) : Reading Binding :=
  match n with
  | .list (first :: rest) => do
    let kind ← Reading.text first
    let _ ← Reading.json (.list rest)
    let r ← Record.ofNode (memberNames kind) (.list rest)
    ofRecord kind r
  | .obj _ => do
    let tag ← Record.byNameAmong ["kind"] n
    let kind ← tag.required "kind" Reading.text
    let r ← Record.ofNode (memberNames kind) n
    ofRecord kind r
  | _ => .error .form

end Binding

structure Parameter where
  name : String
  type : TypeExpr
  isEnum : Bool
  binding : Binding
  deriving Inhabited

namespace Parameter

def toJson (p : Parameter) : Json :=
  .obj [("name", .str p.name), ("type", p.type.toJson), ("isEnum", .bool p.isEnum),
    ("binding", p.binding.toJson)]

def ofNode (n : Node) : Reading Parameter := do
  let r ← Record.ofNode ["name", "type", "isEnum", "binding"] n
  return {
    name := ← r.required "name" Reading.text
    type := ← r.required "type" TypeExpr.ofNode
    isEnum := ← r.flag "isEnum"
    binding := ← r.withDefault "binding" .unbound Binding.ofNode }

end Parameter

/-- A tag of a comment, such as `@param name value`. -/
structure Tag where
  tag : String
  name : Option String
  value : Option String
  deriving DecidableEq, Repr, Inhabited

namespace Tag

/-- The name without blanks at its ends, empty if there is none. -/
def nameText (t : Tag) : String :=
  (t.name.map Text.trim).getD ""

/-- The value without blanks at its ends, empty if there is none. -/
def valueText (t : Tag) : String :=
  (t.value.map Text.trim).getD ""

def toJson (t : Tag) : Json :=
  .obj [("tag", .str t.tag), ("name", .text? t.name), ("value", .text? t.value)]

def ofNode (n : Node) : Reading Tag := do
  let r ← Record.ofNode ["tag", "name", "value"] n
  return {
    tag := ← r.required "tag" Reading.text
    name := ← r.optional "name" Reading.text
    value := ← r.optional "value" Reading.text }

end Tag

structure Comment where
  description : String
  tags : List Tag
  deriving DecidableEq, Repr, Inhabited

namespace Comment

/-- The first line of the description that holds more than blanks. -/
def firstLine? (c : Comment) : Option String :=
  ((Text.lines c.description).map Text.trim).find? fun line => !line.isEmpty

def toJson (c : Comment) : Json :=
  .obj [("description", .str c.description), ("tags", .list (c.tags.map Tag.toJson))]

def ofNode (n : Node) : Reading Comment := do
  let r ← Record.ofNode ["description", "tags"] n
  return {
    description := ← r.textOrEmpty "description"
    tags := ← r.listOrEmpty "tags" Tag.ofNode }

end Comment

/-- A handler method that answers a route. -/
structure Endpoint where
  /-- The class that declares the method. -/
  handler : String
  /-- The route that all methods of the class share. -/
  handlerPath : String
  groupId : Option String
  methodName : String
  /-- The name given on the route itself. -/
  mappingName : Option String
  httpMethod : String
  path : String
  parameters : List Parameter
  returnType : TypeExpr
  comment : Comment
  /-- The exceptions the method declares. -/
  throws : List String
  deriving Inhabited

namespace Endpoint

def toJson (e : Endpoint) : Json :=
  .obj
    [("handler", .str e.handler), ("handlerPath", .str e.handlerPath),
     ("groupId", .text? e.groupId), ("methodName", .str e.methodName),
     ("mappingName", .text? e.mappingName), ("httpMethod", .str e.httpMethod),
     ("path", .str e.path), ("parameters", .list (e.parameters.map Parameter.toJson)),
     ("returnType", e.returnType.toJson), ("comment", e.comment.toJson),
     ("throws", .texts e.throws)]

def memberNames : List String :=
  ["handler", "handlerPath", "groupId", "methodName", "mappingName", "httpMethod", "path",
   "parameters", "returnType", "comment", "throws"]

def ofNode (n : Node) : Reading Endpoint := do
  let r ← Record.ofNode memberNames n
  return {
    handler := ← r.required "handler" Reading.text
    handlerPath := ← r.textOrEmpty "handlerPath"
    groupId := ← r.optional "groupId" Reading.text
    methodName := ← r.required "methodName" Reading.text
    mappingName := ← r.optional "mappingName" Reading.text
    httpMethod := ← r.required "httpMethod" Reading.text
    path := ← r.textOrEmpty "path"
    parameters := ← r.listOrEmpty "parameters" Parameter.ofNode
    returnType := ← r.withDefault "returnType" (TypeExpr.named "void") TypeExpr.ofNode
    comment := ← r.withDefault "comment" ⟨"", []⟩ Comment.ofNode
    throws := ← r.listOrEmpty "throws" Reading.text }

end Endpoint

inductive TypeKind where
  | object
  | enum
  deriving DecidableEq, Repr, Inhabited

namespace TypeKind

def word : TypeKind → String
  | .object => "object"
  | .enum => "enum"

def ofNode : Node → Reading TypeKind :=
  Reading.word [("object", .object), ("enum", .enum)]

end TypeKind

/-- A member of a type. -/
structure Member where
  name : String
  type : TypeExpr
  isEnum : Bool
  required : Bool
  /-- Whether the service leaves it out of its messages. -/
  ignored : Bool
  comment : String
  deriving Inhabited

namespace Member

def toJson (m : Member) : Json :=
  .obj [("name", .str m.name), ("type", m.type.toJson), ("isEnum", .bool m.isEnum),
    ("required", .bool m.required), ("ignored", .bool m.ignored), ("comment", .str m.comment)]

def ofNode (n : Node) : Reading Member := do
  let r ← Record.ofNode ["name", "type", "isEnum", "required", "ignored", "comment"] n
  return {
    name := ← r.required "name" Reading.text
    type := ← r.required "type" TypeExpr.ofNode
    isEnum := ← r.flag "isEnum"
    required := ← r.flag "required"
    ignored := ← r.flag "ignored"
    comment := ← r.textOrEmpty "comment" }

end Member

/-- A constant of an enumeration. -/
structure Constant where
  name : String
  comment : String
  deriving DecidableEq, Repr, Inhabited

namespace Constant

def toJson (c : Constant) : Json :=
  .obj [("name", .str c.name), ("comment", .str c.comment)]

def ofNode (n : Node) : Reading Constant := do
  let r ← Record.ofNode ["name", "comment"] n
  return { name := ← r.required "name" Reading.text, comment := ← r.textOrEmpty "comment" }

/-- Members that every enumeration has and that are no constants of its own. -/
def isSynthetic (name : String) : Bool :=
  Text.startsWith name "$" || name == "name" || name == "ordinal"

end Constant

/-- The declared shape of a type. -/
structure TypeFacts where
  classPath : String
  kind : TypeKind
  comment : String
  superclass : Option String
  /-- The members it declares itself. -/
  members : List Member
  constants : List Constant
  deriving Inhabited

namespace TypeFacts

def toJson (t : TypeFacts) : Json :=
  .obj
    [("classPath", .str t.classPath), ("kind", .str t.kind.word), ("comment", .str t.comment),
     ("superclass", .text? t.superclass), ("members", .list (t.members.map Member.toJson)),
     ("constants", .list (t.constants.map Constant.toJson))]

def ofNode (n : Node) : Reading TypeFacts := do
  let r ← Record.ofNode ["classPath", "kind", "comment", "superclass", "members", "constants"] n
  return {
    classPath := ← r.required "classPath" Reading.text
    kind := ← r.withDefault "kind" .object TypeKind.ofNode
    comment := ← r.textOrEmpty "comment"
    superclass := ← r.optional "superclass" Reading.text
    members := ← r.listOrEmpty "members" Member.ofNode
    constants := ← r.listOrEmpty "constants" Constant.ofNode }

/-- The names of the constants that are its own. -/
def constantNames (t : TypeFacts) : List String :=
  (t.constants.map (·.name)).filter fun n => !Constant.isSynthetic n

end TypeFacts

/-- An error code of an exception. -/
structure ErrorCode where
  name : String
  code : String
  messageKey : String
  deriving DecidableEq, Repr, Inhabited

namespace ErrorCode

def toJson (c : ErrorCode) : Json :=
  .obj [("name", .str c.name), ("code", .str c.code), ("messageKey", .str c.messageKey)]

def ofNode (n : Node) : Reading ErrorCode := do
  let r ← Record.ofNode ["name", "code", "messageKey"] n
  return {
    name := ← r.required "name" Reading.text
    code := ← r.required "code" Reading.text
    messageKey := ← r.textOrEmpty "messageKey" }

end ErrorCode

/-- An exception and the error codes it carries. -/
structure ExceptionFacts where
  name : String
  status : Option Nat
  /-- The name of a status constant, such as `NOT_FOUND`. -/
  statusName : Option String
  superclass : Option String
  codes : List ErrorCode
  deriving DecidableEq, Repr, Inhabited

namespace ExceptionFacts

/-- Status codes have sixteen bits. -/
def statusBound : Nat := Nat.pow 2 16

def toJson (e : ExceptionFacts) : Json :=
  .obj
    [("name", .str e.name),
     ("status", match e.status with | some s => .int s | none => .null),
     ("statusName", .text? e.statusName), ("superclass", .text? e.superclass),
     ("codes", .list (e.codes.map ErrorCode.toJson))]

def ofNode (n : Node) : Reading ExceptionFacts := do
  let r ← Record.ofNode ["name", "status", "statusName", "superclass", "codes"] n
  return {
    name := ← r.required "name" Reading.text
    status := ← r.optional "status" (Reading.natBelow statusBound)
    statusName := ← r.optional "statusName" Reading.text
    superclass := ← r.optional "superclass" Reading.text
    codes := ← r.listOrEmpty "codes" ErrorCode.ofNode }

end ExceptionFacts

end ApiDocs.Facts
