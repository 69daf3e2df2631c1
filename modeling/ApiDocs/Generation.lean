import ApiDocs.Archive
import ApiDocs.Collection.Render
import ApiDocs.Extraction
import ApiDocs.OpenApi.Render
/-!
# Generation

A run extracts everything from a source and writes it to an archive in seven stages. Only a source
that cannot be extracted ends a run. A stage that fails holds up no other, and within a stage a
document that cannot be written holds up no other document; the report tells which stages did not
complete, and why.
-/
namespace ApiDocs.Generation

inductive Stage where
  | service
  | endpoints
  | models
  | errors
  | openApi
  | collection
  | bundle
  deriving DecidableEq, Repr

namespace Stage

def word : Stage → String
  | .service => "service"
  | .endpoints => "endpoints"
  | .models => "models"
  | .errors => "errors"
  | .openApi => "openapi"
  | .collection => "postman"
  | .bundle => "bundle"

end Stage

structure Report where
  endpoints : Nat
  skippedEndpoints : Nat
  models : Nat
  unresolvedModels : Nat
  errorGroups : Nat
  completed : List Stage
  failures : List (Stage × String)
  /-- The paths of the documents that were written. -/
  written : List String
  deriving DecidableEq, Repr

namespace Report

/-- What was extracted, before anything is written. -/
def ofExtraction (x : Extraction) : Report :=
  ⟨x.endpoints.size, x.endpoints.skipped.length, x.registry.models.size, x.registry.failures.length,
    x.errors.toList.length, [], [], []⟩

def isSuccess (r : Report) : Bool :=
  r.failures.isEmpty

/-- The paths among some outcomes. -/
def pathsOf : List (Outcome String) → List String
  | [] => []
  | .ok path :: rest => path :: pathsOf rest
  | .error _ :: rest => pathsOf rest

/-- The faults among some outcomes. -/
def faultsOf : List (Outcome String) → List Fault
  | [] => []
  | .ok _ :: rest => faultsOf rest
  | .error fault :: rest => fault :: faultsOf rest

/-- Takes in a stage and what became of its documents. It is complete if all were written. -/
def record (r : Report) (stage : Stage) (outcomes : List (Outcome String)) : Report :=
  let faults := faultsOf outcomes
  { r with
    completed := if faults.isEmpty then r.completed ++ [stage] else r.completed
    failures := r.failures ++ faults.map fun fault => (stage, fault.message)
    written := r.written ++ pathsOf outcomes }

end Report

/-- A write of a document. -/
abbrev Write := Disk → Outcome String × Disk

/-- Does all writes in order, whatever becomes of each. -/
def writeAll : List Write → Disk → List (Outcome String) × Disk
  | [], d => ([], d)
  | write :: rest, d =>
    let (outcome, d) := write d
    let (outcomes, d) := writeAll rest d
    (outcome :: outcomes, d)

/-- Does all writes of a stage. -/
def runStage (stage : Stage) (writes : List Write) (s : Report × Disk) : Report × Disk :=
  let (outcomes, d) := writeAll writes s.2
  (s.1.record stage outcomes, d)

/-- What a run writes to. -/
structure Plan where
  config : Config
  archive : Archive
  /-- The collection that was published before, whose changes are kept. -/
  previous : Option Collection

namespace Plan

/-- Documents of an earlier run are taken away before the service is written. -/
def writeService (p : Plan) : Write := fun d =>
  match p.archive.clear d with
  | (.ok (), d) => p.archive.writeService p.config.service d
  | (.error fault, d) => (.error fault, d)

def endpointWrites (p : Plan) (x : Extraction) : List Write :=
  x.endpoints.groups.entries.map fun (handler, ds) => p.archive.writeEndpoints handler ds

def modelWrites (p : Plan) (x : Extraction) : List Write :=
  x.registry.models.entries.map fun (classPath, m) => p.archive.writeModel classPath m

def errorWrites (p : Plan) (x : Extraction) : List Write :=
  p.archive.writeErrors x.errors.toList ::
    (x.errorResponse.map p.archive.writeErrorResponse).toList

def writeOpenApi (p : Plan) (x : Extraction) : Write := fun d =>
  match OpenApi.render ⟨p.config.service, p.config.conventions, x.registry.models⟩
      x.endpoints.toList with
  | .ok document => Archive.write p.archive.openApiPath document.toJson d
  | .error fault => (.error fault, d)

def collectionWrites (p : Plan) (x : Extraction) : List Write :=
  let ctx : Collection.Context := ⟨p.config.service, p.config.conventions, x.registry.models⟩
  Archive.write p.archive.collectionPath
      (Collection.render ctx x.endpoints.toList p.previous).toJson ::
    (Collection.environments p.config.service).map fun e =>
      Archive.write (p.archive.environmentPath e.name) e.toJson

/-- The stages of a run with their writes, in order. -/
def stages (p : Plan) (x : Extraction) : List (Stage × List Write) :=
  [(.service, [p.writeService]), (.endpoints, p.endpointWrites x), (.models, p.modelWrites x),
   (.errors, p.errorWrites x), (.openApi, [p.writeOpenApi x]), (.collection, p.collectionWrites x),
   (.bundle, [p.archive.writeBundle p.config.service])]

/-- Extracts everything from a source and writes it. -/
def run (p : Plan) (source : Facts.Source) (d : Disk) : Outcome Report × Disk :=
  match Extraction.ofSource source p.config with
  | .error fault => (.error fault, d)
  | .ok x =>
    let (report, d) :=
      (p.stages x).foldl (fun s stage => runStage stage.1 stage.2 s) (Report.ofExtraction x, d)
    (.ok report, d)

end Plan

end ApiDocs.Generation
