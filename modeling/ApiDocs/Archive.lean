import ApiDocs.Bundle
import ApiDocs.Disk.Document
/-!
# Archives

The documents of a service in a folder: the service itself, its endpoints by handler, its models by
class path, its errors, and what is rendered from them. Bundles are put together from the documents
that are there, not from what is known otherwise.
-/
namespace ApiDocs

/-- A folder of documents. -/
structure Archive where
  root : String
  deriving DecidableEq, Repr

namespace Archive

/-! ## Layout -/

def below (a : Archive) (names : List String) : String :=
  names.foldl Path.join a.root

def servicePath (a : Archive) (id : String) : String :=
  a.below [id ++ ".json"]

def endpointsFolder (a : Archive) : String :=
  a.below ["api"]

def endpointsPath (a : Archive) (handler : String) : String :=
  a.below ["api", handler ++ ".json"]

def modelsFolder (a : Archive) : String :=
  a.below ["model"]

def modelPath (a : Archive) (classPath : String) : String :=
  a.below ["model", classPath ++ ".json"]

def errorsPath (a : Archive) : String :=
  a.below ["error", "errors.json"]

def errorResponsePath (a : Archive) : String :=
  a.below ["error", "error-response.json"]

def openApiPath (a : Archive) : String :=
  a.below ["openapi.json"]

def collectionPath (a : Archive) : String :=
  a.below ["postman", "collection.json"]

/-- A name in which every character but the letters and digits of ASCII, dots, hyphens and
underscores is an underscore. -/
def plainName (name : String) : String :=
  String.ofList (name.toList.map fun c =>
    if c.isAlphanum || c == '.' || c == '-' || c == '_' then c else '_')

def environmentPath (a : Archive) (name : String) : String :=
  a.below ["postman", "env-" ++ plainName name ++ ".json"]

def bundlePath (a : Archive) : String :=
  a.below ["spec-bundle.json"]

/-! ## Writing -/

/-- Writes a document; the path that it was written to is returned. -/
def write (path : String) (v : Json) (d : Disk) : Outcome String × Disk :=
  match d.writeDocument path v with
  | (.ok (), d) => (.ok path, d)
  | (.error fault, d) => (.error fault, d)

def writeService (a : Archive) (s : Service) : Disk → Outcome String × Disk :=
  write (a.servicePath s.id) s.toJson

def writeEndpoints (a : Archive) (handler : String) (ds : List Definition) :
    Disk → Outcome String × Disk :=
  write (a.endpointsPath handler) (.list (ds.map Definition.toJson))

def writeModel (a : Archive) (classPath : String) (m : Model) : Disk → Outcome String × Disk :=
  write (a.modelPath classPath) m.toJson

def writeErrors (a : Archive) (errors : List ErrorGroup) : Disk → Outcome String × Disk :=
  write a.errorsPath (.list (errors.map ErrorGroup.toJson))

def writeErrorResponse (a : Archive) (m : Model) : Disk → Outcome String × Disk :=
  write a.errorResponsePath m.toJson

/-- Takes away some folders, those that are there. -/
def clearFolders : List String → Disk → Outcome Unit × Disk
  | [], d => (.ok (), d)
  | path :: rest, d =>
    if d.hasEntry path then
      match d.removeFolder path with
      | (.ok (), d) => clearFolders rest d
      | (.error p, d) => (.error (.generation ("Failed to clear " ++ path ++ ": " ++ p.message)), d)
    else clearFolders rest d

/-- Takes away the documents of endpoints and models. -/
def clear (a : Archive) : Disk → Outcome Unit × Disk :=
  clearFolders [a.endpointsFolder, a.modelsFolder]

/-! ## Reading -/

/-- The documents in a folder that can be read, with their paths, by name. -/
def readable {α : Type} (read : Node → Reading α) (folder : String) (d : Disk) :
    List (String × α) :=
  match d.documentsIn folder with
  | .error _ => []
  | .ok paths =>
    (paths.filter d.hasFile).filterMap fun path =>
      match d.readDocument read path with
      | .ok a => some (path, a)
      | .error _ => none

/-- The definitions of all endpoints, handler by handler in the order of the file names. -/
def readEndpoints (a : Archive) (d : Disk) : List Definition :=
  (readable (Reading.list Definition.ofNode) a.endpointsFolder d).flatMap (·.2)

/-- The class path that a document is kept under. -/
def classPathOf (path : String) : String :=
  (Path.splitName ((Path.fileName? path).getD "")).1

/-- All models by class path, in the order of the file names. -/
def readModels (a : Archive) (d : Disk) : Models :=
  Keyed.ofList ((readable Model.ofNode a.modelsFolder d).map fun (path, m) => (classPathOf path, m))

/-- The errors; none if they were never written or cannot be read. -/
def readErrors (a : Archive) (d : Disk) : List ErrorGroup :=
  match d.readDocument (Reading.list ErrorGroup.ofNode) a.errorsPath with
  | .ok errors => errors
  | .error _ => []

/-- The model of error responses, if it can be read. -/
def readErrorResponse (a : Archive) (d : Disk) : Option Model :=
  match d.readDocument Model.ofNode a.errorResponsePath with
  | .ok m => some m
  | .error _ => none

/-! ## Bundles -/

/-- The bundle of a service and of the documents that are there. -/
def bundle (a : Archive) (s : Service) (d : Disk) : Bundle :=
  ⟨BundleService.ofService s, a.readEndpoints d, a.readModels d, a.readErrors d,
    a.readErrorResponse d⟩

def writeBundle (a : Archive) (s : Service) (d : Disk) : Outcome String × Disk :=
  write a.bundlePath (a.bundle s d).toJson d

end Archive

end ApiDocs
