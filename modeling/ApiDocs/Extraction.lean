import ApiDocs.Endpoint.Build
import ApiDocs.ModelGraph
/-!
# Extraction

All that is known about a service after its facts have been read: the definitions of its endpoints,
the models they refer to, and its errors.
-/
namespace ApiDocs

structure Extraction where
  endpoints : Endpoint.Definitions
  registry : Registry
  errors : ErrorCatalog
  /-- The model of the body of error responses. -/
  errorResponse : Option Model

namespace Extraction

/-- The catalog of the exceptions of a source. -/
def catalogOf (source : Facts.Source) (config : Config) : Outcome ErrorCatalog :=
  source.exceptions.map fun es => ErrorCatalog.ofExceptions es config.messages

/-- The definitions of the endpoints of a source. -/
def definitionsOf (source : Facts.Source) (config : Config) (catalog : ErrorCatalog) :
    Outcome Endpoint.Definitions :=
  source.endpoints.map fun es =>
    Endpoint.Definitions.ofEndpoints ⟨source, config.service, config.conventions, catalog⟩ es

/-- Extracts everything from a source. Only a source that cannot list its exceptions or endpoints is
a fault. -/
def ofSource (source : Facts.Source) (config : Config) : Outcome Extraction := do
  let errors ← catalogOf source config
  let endpoints ← definitionsOf source config errors
  let modeler := Modeler.ofConfig source config
  let registry := modeler.resolveAll endpoints.references.keys
  match source.errorResponse with
  | none => return ⟨endpoints, registry, errors, none⟩
  | some path =>
    let registry := modeler.resolve registry path
    return ⟨endpoints, registry, errors, registry.models.get? path⟩

end Extraction

end ApiDocs
