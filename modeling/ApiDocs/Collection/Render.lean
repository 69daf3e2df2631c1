import ApiDocs.Collection.Merge
import ApiDocs.Description
import ApiDocs.Example
import ApiDocs.Service
import ApiDocs.StableId
import ApiDocs.Text.Capital
/-!
# Rendering collections

One folder for each group of definitions and one request for each definition, in first-seen order.
An item that an earlier collection has keeps the values and the saved responses it had there.
-/
namespace ApiDocs.Collection

/-- What collections are rendered from beside the definitions. -/
structure Context where
  service : Service
  conventions : Conventions
  models : Models

/-- The host of a service without a server. -/
def defaultHost : String := "\x7b\x7bhost\x7d\x7d"

/-- A text that holds more than blanks. -/
def shown (s : String) : Option String :=
  if (Text.trim s).isEmpty then none else some s

/-! ## Paths -/

/-- The characters of names in braces. -/
def isPlaceholderChar (c : Char) : Bool :=
  c != '/' && c != '\x7b' && c != '\x7d'

/-- Writes names in braces after a colon. `skip` counts the characters of the last one that are
still to be passed over. -/
def colonPlaceholders : Nat → List Char → List Char
  | _, [] => []
  | skip + 1, _ :: rest => colonPlaceholders skip rest
  | 0, c :: rest =>
    let name := rest.takeWhile isPlaceholderChar
    if c = '\x7b' ∧ name ≠ [] ∧ (rest.dropWhile isPlaceholderChar).head? = some '\x7d' then
      ':' :: (name ++ colonPlaceholders (name.length + 1) rest)
    else c :: colonPlaceholders 0 rest

/-- A route with its placeholders in the form of collections: a colon and the name. -/
def requestPath (route : String) : String :=
  String.ofList (colonPlaceholders 0 route.toList)

/-- The host of requests to a service. -/
def hostOf (s : Service) : String :=
  if s.serverUrl.isEmpty then defaultHost else Text.dropEndChar '/' s.serverUrl

/-- The query entries that stand for a paging request. -/
def pagingEntries : List QueryEntry :=
  [⟨"size", some "10", some "Page size", false⟩, ⟨"page", some "1", some "Page number", false⟩]

def queryEntries (c : Conventions) (p : Parameter) : List QueryEntry :=
  if p.classPath = c.xpageNation then pagingEntries
  else [⟨p.name, p.defaultValue, shown p.description, false⟩]

def pathEntry (p : Parameter) : PathEntry :=
  ⟨p.name, "", shown p.description⟩

/-- The parts of a path that are not empty. -/
def segments (path : String) : List String :=
  ((Text.splitAt '/' path.toList).filter fun s => !s.isEmpty).map String.ofList

def urlOf (ctx : Context) (d : Definition) : Url :=
  let host := hostOf ctx.service
  let path := requestPath d.urlMapping
  { raw := host ++ "/" ++ ctx.service.version ++ path
    host := [host]
    path := ctx.service.version :: segments path
    query := (d.parametersIn .query).flatMap (queryEntries ctx.conventions)
    pathEntries := (d.parametersIn .path).map pathEntry }

/-! ## Requests -/

def headerEntry (h : Header) : HeaderEntry :=
  ⟨h.name, h.defaultValue.getD "", "text", shown h.description⟩

/-- The request of a definition as it is generated. -/
def requestOf (ctx : Context) (d : Definition) : Request where
  method := Text.upperAscii d.method
  headers := (Header.merge d.headers ctx.service.headers).map headerEntry
  body := d.body?.map fun p =>
    Body.ofJsonText (Example.parameterValue ctx.conventions ctx.models p).pretty
  url := urlOf ctx d
  description := shown (Description.describe ctx.conventions ctx.models d)

/-- The status that a success is shown with: the first that begins with a two, or the first. -/
def successStatus (responses : Sorted String) : String × String :=
  match responses.entries.find? fun r => Text.startsWith r.1 "2" with
  | some r => r
  | none => responses.entries.head?.getD ("200", "Success")

/-- The number of a status code of sixteen bits, with or without a plus sign. -/
def codeNumber? (code : String) : Option Nat :=
  let digits := match code.toList with
    | '+' :: rest => rest
    | cs => cs
  if digits.isEmpty || !digits.all Char.isDigit then none
  else
    let n := Json.digitsValue digits
    if n < Nat.pow 2 16 then some n else none

/-- The saved response of a new item. -/
def successResponse (ctx : Context) (d : Definition) (request : Request) : Json :=
  let (code, status) := successStatus d.responses
  .obj
    [("name", .str "success response"), ("originalRequest", request.toJson),
     ("status", .str status), ("code", .int ((codeNumber? code).getD 200)),
     ("_postman_previewlanguage", .str "json"),
     ("header", .list
       [.obj [("key", .str "Content-Type"), ("value", .str "application/json")]]),
     ("body", .str (((Example.responseBody? ctx.conventions ctx.models d).map Json.pretty).getD ""))]

/-- The item of a definition, with what an earlier item of its id had. -/
def itemOf (ctx : Context) (d : Definition) (old : Option Item) : Item :=
  let fresh := requestOf ctx d
  let request := match old.bind (·.request) with
    | some r => mergeRequest fresh r
    | none => fresh
  let responses := match old with
    | some o => o.responses
    | none => [successResponse ctx d request]
  ⟨some d.id, d.name, none, some request, responses⟩

/-! ## The collection -/

/-- The last request of a collection that has an id. -/
def saved? (previous : Option Collection) (id : String) : Option Item :=
  previous.bind fun c => c.requests.reverse.find? fun i => i.id == some id

/-- The items of definitions by group. -/
def groupsOf (ctx : Context) (previous : Option Collection) (ds : List Definition) :
    Keyed (List Item) :=
  ds.foldl (fun groups d =>
    groups.alter d.group fun before => before.getD [] ++ [itemOf ctx d (saved? previous d.id)])
    Keyed.empty

def folderOf (ctx : Context) (group : String × List Item) : Item :=
  Item.folder (stableId [ctx.service.id, group.1]) group.1 group.2

def authOf (s : Service) : Option Auth :=
  s.tokenAuth?.map fun a =>
    ⟨"apikey", [⟨"key", a.headerKey, "string"⟩, ⟨"value", a.value, "string"⟩]⟩

/-- The collection of some definitions, with what was kept in an earlier one. -/
def render (ctx : Context) (ds : List Definition) (previous : Option Collection) : Collection where
  info :=
    { id := previous.bind (·.info.id)
      name := ctx.service.displayName
      description := ctx.service.introduction
      schema := schemaUrl
      version := some ctx.service.version }
  items := (groupsOf ctx previous ds).entries.map (folderOf ctx)
  auth := authOf ctx.service

/-- The environment of a place the service runs in. -/
def environmentOf (d : Deployment) : Environment where
  id := d.uid
  name := d.name
  values := d.settings.map fun v => ⟨v.name, v.value, "default", true⟩

/-- The environments of a service. -/
def environments (s : Service) : List Environment :=
  s.deployments.map environmentOf

end ApiDocs.Collection
