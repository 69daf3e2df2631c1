import ApiDocs.Header
/-!
# Services

The service that is documented: its names, its server, the environments it runs in, the headers and
the authorization that all its endpoints share.
-/
namespace ApiDocs

/-- How requests are authorized. -/
structure Auth where
  type : String
  headerKey : String
  value : String
  description : String
  deriving DecidableEq, Repr

namespace Auth

/-- Whether requests carry a token in a header. -/
def isToken (a : Auth) : Bool :=
  a.type == "token"

def toJson (a : Auth) : Json :=
  .obj [("type", .str a.type), ("headerKey", .str a.headerKey), ("value", .str a.value),
    ("description", .str a.description)]

def ofNode (n : Node) : Reading Auth := do
  let r ← Record.ofNode ["type", "headerKey", "value", "description"] n
  return {
    type := ← r.withDefault "type" "token" Reading.text
    headerKey := ← r.required "headerKey" Reading.text
    value := ← r.textOrEmpty "value"
    description := ← r.textOrEmpty "description" }

end Auth

/-- A named value of an environment. -/
structure Setting where
  name : String
  value : String
  deriving DecidableEq, Repr

namespace Setting

def toJson (s : Setting) : Json :=
  .obj [("name", .str s.name), ("value", .str s.value)]

def ofNode (n : Node) : Reading Setting := do
  let r ← Record.ofNode ["name", "value"] n
  return { name := ← r.required "name" Reading.text, value := ← r.textOrEmpty "value" }

end Setting

/-- A place the service runs in, with the uid under which it may already be published. -/
structure Deployment where
  name : String
  uid : Option String
  settings : List Setting
  deriving DecidableEq, Repr

namespace Deployment

def toJson (d : Deployment) : Json :=
  .obj ([("name", .str d.name)] ++ Json.present "postmanUid" (d.uid.map .str) ++
    [("variables", .list (d.settings.map Setting.toJson))])

def ofNode (n : Node) : Reading Deployment := do
  let r ← Record.ofNode ["name", "postmanUid", "variables"] n
  return {
    name := ← r.required "name" Reading.text
    uid := ← r.optional "postmanUid" Reading.text
    settings := ← r.listOrEmpty "variables" Setting.ofNode }

end Deployment

structure Service where
  id : String
  name : String
  introduction : String
  serverUrl : String
  version : String
  deployments : List Deployment
  headers : List Header
  auth : Option Auth
  deriving DecidableEq, Repr

namespace Service

def defaultVersion : String := "v1.0"

/-- A service of which nothing but the id is known. -/
def ofId (id : String) : Service :=
  ⟨id, "", "", "", defaultVersion, [], [], none⟩

/-- The name of a service, or its id. -/
def displayName (s : Service) : String :=
  if s.name.isEmpty then s.id else s.name

/-- The authorization, if it is by token. -/
def tokenAuth? (s : Service) : Option Auth :=
  s.auth.filter Auth.isToken

def toJson (s : Service) : Json :=
  .obj
    ([("serviceId", .str s.id), ("name", .str s.name), ("introduction", .str s.introduction),
      ("apiServerUrl", .str s.serverUrl), ("version", .str s.version),
      ("envVariable", .list (s.deployments.map Deployment.toJson)),
      ("headers", .list (s.headers.map Header.toJson))] ++
     Json.present "auth" (s.auth.map Auth.toJson))

def memberNames : List String :=
  ["serviceId", "name", "introduction", "apiServerUrl", "version", "envVariable", "headers", "auth"]

def ofNode (n : Node) : Reading Service := do
  let r ← Record.ofNode memberNames n
  return {
    id := ← r.required "serviceId" Reading.text
    name := ← r.textOrEmpty "name"
    introduction := ← r.textOrEmpty "introduction"
    serverUrl := ← r.textOrEmpty "apiServerUrl"
    version := ← r.withDefault "version" defaultVersion Reading.text
    deployments := ← r.listOrEmpty "envVariable" Deployment.ofNode
    headers := ← r.listOrEmpty "headers" Header.ofNode
    auth := ← r.optional "auth" Auth.ofNode }

end Service

end ApiDocs
