import ApiDocs.Node
/-!
# Request collections

A collection of requests in folders, in the Postman format, and environments with the values that
its requests refer to. Collections are read back so that what users changed in them can be kept: any
member may be missing, and a URL may be a bare text.
-/
namespace ApiDocs

namespace Collection

/-- A request header. -/
structure HeaderEntry where
  key : String
  value : String
  type : String
  description : Option String
  deriving DecidableEq, Repr

namespace HeaderEntry

def toJson (h : HeaderEntry) : Json :=
  .obj ([("key", .str h.key), ("value", .str h.value), ("type", .str h.type)] ++
    Json.present "description" (h.description.map .str))

def ofNode (n : Node) : Reading HeaderEntry := do
  let r ← Record.ofNode ["key", "value", "type", "description"] n
  return {
    key := ← r.required "key" Reading.text
    value := ← r.textOrEmpty "value"
    type := ← r.withDefault "type" "text" Reading.text
    description := ← r.optional "description" Reading.text }

end HeaderEntry

/-- A query parameter of a URL. -/
structure QueryEntry where
  key : String
  value : Option String
  description : Option String
  disabled : Bool
  deriving DecidableEq, Repr

namespace QueryEntry

def toJson (q : QueryEntry) : Json :=
  .obj ([("key", .str q.key), ("value", .text? q.value)] ++
    Json.present "description" (q.description.map .str) ++ Json.whenTrue "disabled" q.disabled)

def ofNode (n : Node) : Reading QueryEntry := do
  let r ← Record.ofNode ["key", "value", "description", "disabled"] n
  return {
    key := ← r.required "key" Reading.text
    value := ← r.optional "value" Reading.text
    description := ← r.optional "description" Reading.text
    disabled := ← r.flag "disabled" }

end QueryEntry

/-- A variable in the path of a URL. -/
structure PathEntry where
  key : String
  value : String
  description : Option String
  deriving DecidableEq, Repr

namespace PathEntry

def toJson (v : PathEntry) : Json :=
  .obj ([("key", .str v.key), ("value", .str v.value)] ++
    Json.present "description" (v.description.map .str))

def ofNode (n : Node) : Reading PathEntry := do
  let r ← Record.ofNode ["key", "value", "description"] n
  return {
    key := ← r.required "key" Reading.text
    value := ← r.textOrEmpty "value"
    description := ← r.optional "description" Reading.text }

end PathEntry

structure Url where
  raw : String
  host : List String
  path : List String
  query : List QueryEntry
  pathEntries : List PathEntry
  deriving DecidableEq, Repr

namespace Url

def toJson (u : Url) : Json :=
  .obj ([("raw", .str u.raw), ("host", .texts u.host), ("path", .texts u.path)] ++
    Json.nonempty "query" QueryEntry.toJson u.query ++
    Json.nonempty "variable" PathEntry.toJson u.pathEntries)

/-- Reads a URL from its text, or from an object all of which has to be readable. -/
def ofNode (n : Node) : Reading Url :=
  match n with
  | .str raw => .ok ⟨raw, [], [], [], []⟩
  | n => do
    let _ ← Reading.json n
    let r ← Record.byName ["raw", "host", "path", "query", "variable"] n
    return {
      raw := ← r.textOrEmpty "raw"
      host := ← r.listOrEmpty "host" Reading.text
      path := ← r.listOrEmpty "path" Reading.text
      query := ← r.listOrEmpty "query" QueryEntry.ofNode
      pathEntries := ← r.listOrEmpty "variable" PathEntry.ofNode }

end Url

structure Body where
  mode : String
  raw : String
  options : Option Json

namespace Body

/-- A body that holds a JSON text. -/
def ofJsonText (raw : String) : Body :=
  ⟨"raw", raw, some (.obj [("raw", .obj [("language", .str "json")])])⟩

def toJson (b : Body) : Json :=
  .obj ([("mode", .str b.mode), ("raw", .str b.raw)] ++ Json.present "options" b.options)

def ofNode (n : Node) : Reading Body := do
  let r ← Record.ofNode ["mode", "raw", "options"] n
  return {
    mode := ← r.required "mode" Reading.text
    raw := ← r.textOrEmpty "raw"
    options := ← r.optional "options" Reading.json }

end Body

structure Request where
  method : String
  headers : List HeaderEntry
  body : Option Body
  url : Url
  description : Option String

namespace Request

def toJson (r : Request) : Json :=
  .obj ([("method", .str r.method), ("header", .list (r.headers.map HeaderEntry.toJson))] ++
    Json.present "body" (r.body.map Body.toJson) ++ [("url", r.url.toJson)] ++
    Json.present "description" (r.description.map .str))

def ofNode (n : Node) : Reading Request := do
  let r ← Record.ofNode ["method", "header", "body", "url", "description"] n
  return {
    method := ← r.required "method" Reading.text
    headers := ← r.listOrEmpty "header" HeaderEntry.ofNode
    body := ← r.optional "body" Body.ofNode
    url := ← r.required "url" Url.ofNode
    description := ← r.optional "description" Reading.text }

end Request

/-- A folder, which has items of its own, or a request; it may be both. -/
structure Item where
  id : Option String
  name : String
  items : Option (List Item)
  request : Option Request
  /-- The saved responses, just as they were. -/
  responses : List Json

namespace Item

/-- A folder of items. -/
def folder (id name : String) (items : List Item) : Item :=
  ⟨some id, name, some items, none, []⟩

/-- The items of a folder. -/
def children (i : Item) : List Item :=
  i.items.getD []

mutual

def toJson : Item → Json
  | ⟨id, name, items, request, responses⟩ =>
    .obj (Json.present "id" (id.map .str) ++ [("name", .str name)] ++ itemsMember items ++
      Json.present "request" (request.map Request.toJson) ++
      Json.nonempty "response" (fun v => v) responses)

/-- The member for the items of a folder. -/
def itemsMember : Option (List Item) → List (String × Json)
  | none => []
  | some items => [("item", .list (listToJson items))]

def listToJson : List Item → List Json
  | [] => []
  | i :: rest => toJson i :: listToJson rest

end

/-- Reads an item of at most `fuel` levels. -/
def ofNodeWithin : Nat → Node → Reading Item
  | 0, _ => .error .form
  | fuel + 1, n => do
    let r ← Record.ofNode ["id", "name", "item", "request", "response"] n
    return {
      id := ← r.optional "id" Reading.text
      name := ← r.required "name" Reading.text
      items := ← r.optional "item" (Reading.list (ofNodeWithin fuel))
      request := ← r.optional "request" Request.ofNode
      responses := ← r.listOrEmpty "response" Reading.json }

mutual

/-- How many items an item has, itself included. -/
def count : Item → Nat
  | ⟨_, _, items, _, _⟩ => countIn items + 1

def countIn : Option (List Item) → Nat
  | none => 0
  | some items => countAll items

def countAll : List Item → Nat
  | [] => 0
  | i :: rest => count i + countAll rest

end

theorem countAll_append (is js : List Item) : countAll (is ++ js) = countAll is + countAll js := by
  induction is with
  | nil => simp [countAll]
  | cons i rest ih => simp [countAll, ih, Nat.add_assoc]

theorem count_eq (i : Item) : i.count = countAll i.children + 1 := by
  cases i with
  | mk id name items request responses => cases items <;> simp [count, countIn, countAll, children]

/-- The requests among pending items and all that is in them: an item before its children. -/
def requestsAmong : List Item → List Item
  | [] => []
  | i :: pending =>
    let rest := requestsAmong (i.children ++ pending)
    if i.request.isSome then i :: rest else rest
termination_by pending => countAll pending
decreasing_by
  simp only [countAll, countAll_append, count_eq]
  omega

end Item

/-- How requests are authorized. -/
structure AuthEntry where
  key : String
  value : String
  type : String
  deriving DecidableEq, Repr

namespace AuthEntry

def toJson (a : AuthEntry) : Json :=
  .obj [("key", .str a.key), ("value", .str a.value), ("type", .str a.type)]

def ofNode (n : Node) : Reading AuthEntry := do
  let r ← Record.ofNode ["key", "value", "type"] n
  return {
    key := ← r.required "key" Reading.text
    value := ← r.required "value" Reading.text
    type := ← r.withDefault "type" "string" Reading.text }

end AuthEntry

structure Auth where
  type : String
  entries : List AuthEntry
  deriving DecidableEq, Repr

namespace Auth

def toJson (a : Auth) : Json :=
  .obj [("type", .str a.type), ("apikey", .list (a.entries.map AuthEntry.toJson))]

def ofNode (n : Node) : Reading Auth := do
  let r ← Record.ofNode ["type", "apikey"] n
  return {
    type := ← r.required "type" Reading.text
    entries := ← r.listOrEmpty "apikey" AuthEntry.ofNode }

end Auth

/-- The format that collections say they have. -/
def schemaUrl : String :=
  "https://schema.getpostman.com/json/collection/v2.1.0/collection.json"

structure Info where
  id : Option String
  name : String
  description : String
  schema : String
  version : Option String
  deriving DecidableEq, Repr

namespace Info

def toJson (i : Info) : Json :=
  .obj (Json.present "_postman_id" (i.id.map .str) ++
    [("name", .str i.name), ("description", .str i.description), ("schema", .str i.schema)] ++
    Json.present "version" (i.version.map .str))

def ofNode (n : Node) : Reading Info := do
  let r ← Record.ofNode ["_postman_id", "name", "description", "schema", "version"] n
  return {
    id := ← r.optional "_postman_id" Reading.text
    name := ← r.required "name" Reading.text
    description := ← r.textOrEmpty "description"
    schema := ← r.withDefault "schema" schemaUrl Reading.text
    version := ← r.optional "version" Reading.text }

end Info

end Collection

structure Collection where
  info : Collection.Info
  items : List Collection.Item
  auth : Option Collection.Auth

namespace Collection

def toJson (c : Collection) : Json :=
  .obj ([("info", c.info.toJson), ("item", .list (Item.listToJson c.items))] ++
    Json.present "auth" (c.auth.map Auth.toJson))

def ofNode (n : Node) : Reading Collection := do
  let r ← Record.ofNode ["info", "item", "auth"] n
  return {
    info := ← r.required "info" Info.ofNode
    items := ← r.listOrEmpty "item" (Item.ofNodeWithin n.height)
    auth := ← r.optional "auth" Auth.ofNode }

/-- All requests, those in folders too, in document order. -/
def requests (c : Collection) : List Item :=
  Item.requestsAmong c.items

/-- The first request with an id. -/
def findRequest? (c : Collection) (id : String) : Option Item :=
  c.requests.find? fun i => i.id == some id

/-- The first folder with a name, at the top. -/
def folder? (c : Collection) (name : String) : Option Item :=
  c.items.find? fun i => i.items.isSome && i.name == name

/-- A value of an environment. -/
structure EnvironmentEntry where
  key : String
  value : String
  type : String
  enabled : Bool
  deriving DecidableEq, Repr

namespace EnvironmentEntry

def toJson (v : EnvironmentEntry) : Json :=
  .obj [("key", .str v.key), ("value", .str v.value), ("type", .str v.type),
    ("enabled", .bool v.enabled)]

def ofNode (n : Node) : Reading EnvironmentEntry := do
  let r ← Record.ofNode ["key", "value", "type", "enabled"] n
  return {
    key := ← r.required "key" Reading.text
    value := ← r.textOrEmpty "value"
    type := ← r.withDefault "type" "default" Reading.text
    enabled := ← r.withDefault "enabled" true Reading.boolean }

end EnvironmentEntry

structure Environment where
  id : Option String
  name : String
  values : List EnvironmentEntry
  deriving DecidableEq, Repr

namespace Environment

def toJson (e : Environment) : Json :=
  .obj (Json.present "id" (e.id.map .str) ++
    [("name", .str e.name), ("values", .list (e.values.map EnvironmentEntry.toJson))])

def ofNode (n : Node) : Reading Environment := do
  let r ← Record.ofNode ["id", "name", "values"] n
  return {
    id := ← r.optional "id" Reading.text
    name := ← r.required "name" Reading.text
    values := ← r.listOrEmpty "values" EnvironmentEntry.ofNode }

end Environment

end Collection

end ApiDocs
