import ApiDocs.Definition
import ApiDocs.Model
import ApiDocs.Service
/-!
# Bundles

One document with everything that is known about a service, less its environments.
-/
namespace ApiDocs

/-- What a bundle says about the service itself. -/
structure BundleService where
  id : String
  name : String
  serverUrl : String
  version : String
  introduction : String
  auth : Option Auth
  headers : List Header
  deriving DecidableEq, Repr

namespace BundleService

def ofService (s : Service) : BundleService :=
  ⟨s.id, s.name, s.serverUrl, s.version, s.introduction, s.auth, s.headers⟩

def toJson (s : BundleService) : Json :=
  .obj ([("serviceId", .str s.id), ("name", .str s.name), ("apiServerUrl", .str s.serverUrl),
      ("version", .str s.version), ("introduction", .str s.introduction)] ++
    Json.present "auth" (s.auth.map Auth.toJson) ++
    [("headers", .list (s.headers.map Header.toJson))])

def ofNode (n : Node) : Reading BundleService := do
  let r ← Record.ofNode
    ["serviceId", "name", "apiServerUrl", "version", "introduction", "auth", "headers"] n
  return {
    id := ← r.required "serviceId" Reading.text
    name := ← r.required "name" Reading.text
    serverUrl := ← r.required "apiServerUrl" Reading.text
    version := ← r.required "version" Reading.text
    introduction := ← r.required "introduction" Reading.text
    auth := ← r.optional "auth" Auth.ofNode
    headers := ← r.listOrEmpty "headers" Header.ofNode }

end BundleService

structure Bundle where
  service : BundleService
  definitions : List Definition
  models : Models
  errors : List ErrorGroup
  errorResponse : Option Model

namespace Bundle

def toJson (b : Bundle) : Json :=
  .obj ([("service", b.service.toJson), ("apis", .list (b.definitions.map Definition.toJson)),
      ("models", Json.ofKeyed Model.toJson b.models),
      ("errors", .list (b.errors.map ErrorGroup.toJson))] ++
    Json.present "errorResponse" (b.errorResponse.map Model.toJson))

def ofNode (n : Node) : Reading Bundle := do
  let r ← Record.ofNode ["service", "apis", "models", "errors", "errorResponse"] n
  return {
    service := ← r.required "service" BundleService.ofNode
    definitions := ← r.required "apis" (Reading.list Definition.ofNode)
    models := ← r.required "models" (Reading.keyed Model.ofNode)
    errors := ← r.required "errors" (Reading.list ErrorGroup.ofNode)
    errorResponse := ← r.optional "errorResponse" Model.ofNode }

end Bundle

end ApiDocs
