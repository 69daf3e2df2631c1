import ApiDocs.OpenApi.Schema
import ApiDocs.Text.Capital
/-!
# OpenAPI documents

The part of the format that is rendered: the operations of each path by method, the component
schemas, and the security schemes. Maps keep the order in which they were written.
-/
namespace ApiDocs.OpenApi

/-- The content of a body by media type. -/
abbrev Content := Keyed SchemaRef

namespace Content

/-- Content that is JSON. -/
def json (schema : SchemaRef) : Content :=
  Keyed.empty.put "application/json" schema

def toJson (c : Content) : Json :=
  Json.ofKeyed (fun s => .obj [("schema", SchemaRef.toJson s)]) c

def mediaType (n : Node) : Reading SchemaRef := do
  (← Record.ofNode ["schema"] n).required "schema" SchemaRef.ofNode

def ofNode : Node → Reading Content :=
  Reading.keyed mediaType

end Content

structure Parameter where
  name : String
  location : String
  description : Option String
  required : Bool
  schema : SchemaRef

namespace Parameter

def toJson (p : Parameter) : Json :=
  .obj ([("name", .str p.name), ("in", .str p.location)] ++
    Json.present "description" (p.description.map .str) ++
    [("required", .bool p.required), ("schema", SchemaRef.toJson p.schema)])

def ofNode (n : Node) : Reading Parameter := do
  let r ← Record.ofNode ["name", "in", "description", "required", "schema"] n
  return {
    name := ← r.required "name" Reading.text
    location := ← r.required "in" Reading.text
    description := ← r.optional "description" Reading.text
    required := ← r.flag "required"
    schema := ← r.required "schema" SchemaRef.ofNode }

end Parameter

structure RequestBody where
  description : Option String
  content : Content
  required : Bool

namespace RequestBody

def toJson (b : RequestBody) : Json :=
  .obj (Json.present "description" (b.description.map .str) ++
    [("content", b.content.toJson), ("required", .bool b.required)])

def ofNode (n : Node) : Reading RequestBody := do
  let r ← Record.ofNode ["description", "content", "required"] n
  return {
    description := ← r.optional "description" Reading.text
    content := ← r.required "content" Content.ofNode
    required := ← r.flag "required" }

end RequestBody

structure Response where
  description : String
  content : Content

namespace Response

def toJson (r : Response) : Json :=
  .obj ([("description", .str r.description)] ++
    if r.content.isEmpty then [] else [("content", r.content.toJson)])

def ofNode (n : Node) : Reading Response := do
  let r ← Record.ofNode ["description", "content"] n
  return {
    description := ← r.required "description" Reading.text
    content := ← r.withDefault "content" Keyed.empty Content.ofNode }

end Response

/-- The schemes that have to be satisfied together, with their scopes. -/
abbrev Requirement := Keyed (List String)

structure Operation where
  summary : String
  description : String
  tags : List String
  id : String
  parameters : List Parameter
  body : Option RequestBody
  responses : Keyed Response
  security : List Requirement

namespace Operation

def toJson (o : Operation) : Json :=
  .obj ([("summary", .str o.summary)] ++
    (if o.description.isEmpty then [] else [("description", .str o.description)]) ++
    [("tags", .texts o.tags), ("operationId", .str o.id)] ++
    Json.nonempty "parameters" Parameter.toJson o.parameters ++
    Json.present "requestBody" (o.body.map RequestBody.toJson) ++
    [("responses", Json.ofKeyed Response.toJson o.responses)] ++
    Json.nonempty "security" (Json.ofKeyed .texts) o.security)

def memberNames : List String :=
  ["summary", "description", "tags", "operationId", "parameters", "requestBody", "responses",
   "security"]

def ofNode (n : Node) : Reading Operation := do
  let r ← Record.ofNode memberNames n
  return {
    summary := ← r.textOrEmpty "summary"
    description := ← r.textOrEmpty "description"
    tags := ← r.listOrEmpty "tags" Reading.text
    id := ← r.required "operationId" Reading.text
    parameters := ← r.listOrEmpty "parameters" Parameter.ofNode
    body := ← r.optional "requestBody" RequestBody.ofNode
    responses := ← r.withDefault "responses" Keyed.empty (Reading.keyed Response.ofNode)
    security := ← r.listOrEmpty "security" (Reading.keyed (Reading.list Reading.text)) }

end Operation

/-- The methods that a path can have. -/
inductive Method where
  | get
  | post
  | put
  | patch
  | delete
  | head
  | options
  deriving DecidableEq, Repr

namespace Method

def word : Method → String
  | .get => "get"
  | .post => "post"
  | .put => "put"
  | .patch => "patch"
  | .delete => "delete"
  | .head => "head"
  | .options => "options"

def all : List Method :=
  [.get, .post, .put, .patch, .delete, .head, .options]

/-- The method of a name, in letters of any case. -/
def ofName? (name : String) : Option Method :=
  all.find? fun m => m.word == Text.lowerAscii name

end Method

/-- The operations of a path. -/
structure PathItem where
  get : Option Operation
  post : Option Operation
  put : Option Operation
  patch : Option Operation
  delete : Option Operation
  head : Option Operation
  options : Option Operation

namespace PathItem

def empty : PathItem := ⟨none, none, none, none, none, none, none⟩

def operation? (p : PathItem) : Method → Option Operation
  | .get => p.get
  | .post => p.post
  | .put => p.put
  | .patch => p.patch
  | .delete => p.delete
  | .head => p.head
  | .options => p.options

/-- Writes the operation of a method. -/
def set (p : PathItem) (m : Method) (o : Operation) : PathItem :=
  match m with
  | .get => { p with get := some o }
  | .post => { p with post := some o }
  | .put => { p with put := some o }
  | .patch => { p with patch := some o }
  | .delete => { p with delete := some o }
  | .head => { p with head := some o }
  | .options => { p with options := some o }

def toJson (p : PathItem) : Json :=
  .obj (Method.all.flatMap fun m => Json.present m.word ((p.operation? m).map Operation.toJson))

def ofNode (n : Node) : Reading PathItem := do
  let r ← Record.ofNode (Method.all.map Method.word) n
  return {
    get := ← r.optional "get" Operation.ofNode
    post := ← r.optional "post" Operation.ofNode
    put := ← r.optional "put" Operation.ofNode
    patch := ← r.optional "patch" Operation.ofNode
    delete := ← r.optional "delete" Operation.ofNode
    head := ← r.optional "head" Operation.ofNode
    options := ← r.optional "options" Operation.ofNode }

end PathItem

/-- A key that is sent in a header. -/
structure SecurityScheme where
  type : String
  location : String
  name : String
  description : Option String
  deriving DecidableEq, Repr

namespace SecurityScheme

def toJson (s : SecurityScheme) : Json :=
  .obj ([("type", .str s.type), ("in", .str s.location), ("name", .str s.name)] ++
    Json.present "description" (s.description.map .str))

def ofNode (n : Node) : Reading SecurityScheme := do
  let r ← Record.ofNode ["type", "in", "name", "description"] n
  return {
    type := ← r.required "type" Reading.text
    location := ← r.required "in" Reading.text
    name := ← r.required "name" Reading.text
    description := ← r.optional "description" Reading.text }

end SecurityScheme

structure Components where
  schemas : Keyed Schema
  securitySchemes : Keyed SecurityScheme

namespace Components

def empty : Components := ⟨Keyed.empty, Keyed.empty⟩

def toJson (c : Components) : Json :=
  .obj ([("schemas", Json.ofKeyed Schema.toJson c.schemas)] ++
    if c.securitySchemes.isEmpty then []
    else [("securitySchemes", Json.ofKeyed SecurityScheme.toJson c.securitySchemes)])

def ofNode (n : Node) : Reading Components := do
  let r ← Record.ofNode ["schemas", "securitySchemes"] n
  let schemas ← r.withDefault "schemas" Keyed.empty (Reading.keyed Schema.ofNode)
  let schemes ← r.withDefault "securitySchemes" Keyed.empty (Reading.keyed SecurityScheme.ofNode)
  return ⟨schemas, schemes⟩

end Components

structure Info where
  title : String
  version : String
  description : Option String
  deriving DecidableEq, Repr

namespace Info

def toJson (i : Info) : Json :=
  .obj ([("title", .str i.title), ("version", .str i.version)] ++
    Json.present "description" (i.description.map .str))

def ofNode (n : Node) : Reading Info := do
  let r ← Record.ofNode ["title", "version", "description"] n
  return {
    title := ← r.required "title" Reading.text
    version := ← r.required "version" Reading.text
    description := ← r.optional "description" Reading.text }

end Info

structure Server where
  url : String
  description : Option String
  deriving DecidableEq, Repr

namespace Server

def toJson (s : Server) : Json :=
  .obj ([("url", .str s.url)] ++ Json.present "description" (s.description.map .str))

def ofNode (n : Node) : Reading Server := do
  let r ← Record.ofNode ["url", "description"] n
  return {
    url := ← r.required "url" Reading.text
    description := ← r.optional "description" Reading.text }

end Server

/-- The tag of a group, as an object with its name. -/
def tagJson (name : String) : Json :=
  .obj [("name", .str name)]

def tagOfNode (n : Node) : Reading String := do
  (← Record.ofNode ["name"] n).required "name" Reading.text

structure Document where
  version : String
  info : Info
  servers : List Server
  tags : List String
  paths : Keyed PathItem
  components : Components

namespace Document

/-- The operation of a path and a method in letters of any case. -/
def operation? (d : Document) (path method : String) : Option Operation := do
  let item ← d.paths.get? path
  let m ← Method.ofName? method
  item.operation? m

def toJson (d : Document) : Json :=
  .obj ([("openapi", .str d.version), ("info", d.info.toJson)] ++
    Json.nonempty "servers" Server.toJson d.servers ++ Json.nonempty "tags" tagJson d.tags ++
    [("paths", Json.ofKeyed PathItem.toJson d.paths), ("components", d.components.toJson)])

def ofNode (n : Node) : Reading Document := do
  let r ← Record.ofNode ["openapi", "info", "servers", "tags", "paths", "components"] n
  return {
    version := ← r.required "openapi" Reading.text
    info := ← r.required "info" Info.ofNode
    servers := ← r.listOrEmpty "servers" Server.ofNode
    tags := ← r.listOrEmpty "tags" tagOfNode
    paths := ← r.withDefault "paths" Keyed.empty (Reading.keyed PathItem.ofNode)
    components := ← r.withDefault "components" Components.empty Components.ofNode }

end Document

end ApiDocs.OpenApi
