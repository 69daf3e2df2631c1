import ApiDocs.Collection.Folder
import ApiDocs.CommandLine.Request
import ApiDocs.CommandLine.Session
import ApiDocs.Disk.Inputs
import ApiDocs.Generation
/-!
# Commands

What each command does with a disk and what it prints.
-/
namespace ApiDocs.CommandLine

open Session

/-! ## What is read -/

/-- The id of a service by the name of its facts file: what stands before the first dot. -/
def serviceIdOf? (path : String) : Option String :=
  match Path.fileName? path with
  | none => none
  | some name =>
    let id := Text.trim (String.ofList (name.toList.takeWhile (· != '.')))
    if id.isEmpty then none else some id

def loadConfigFile (path : String) : Session Config := do
  expect ("Failed to load config " ++ path) (← ask (Config.ofFile path))

/-- The configuration of a file, or one for a service that is known by its id alone. -/
def loadConfig (source : SourceOptions) : Session Config :=
  match source.config with
  | some path => loadConfigFile path
  | none =>
    match source.service.orElse fun _ => serviceIdOf? source.facts with
    | some id => pure (Config.ofServiceId id)
    | none => fail "Could not infer a service id, pass --service or --config"

def loadFacts (path : String) : Session Facts.Source := do
  note ("→ Loading facts from " ++ path)
  let facts ← expect "Failed to load facts file" (← ask (Facts.Document.ofFile path))
  note ("✓ Loaded " ++ toString facts.endpoints.length ++ " endpoints and " ++
    toString facts.types.size ++ " types")
  return Facts.Source.ofDocument facts

def loadPrevious : Option String → Session (Option Collection)
  | none => pure none
  | some path => do
    let c ← expect ("Failed to read previous collection " ++ path)
      (← ask (Disk.readDocument Collection.ofNode path))
    return some c

def extract (source : Facts.Source) (config : Config) : Session Extraction :=
  expect "Failed to extract endpoint metadata" (Extraction.ofSource source config)

/-! ## Publishing -/

def publishedLine (kind : String) (p : Collection.Published) : String :=
  "✓ " ++ kind ++ " " ++ p.name ++ " " ++ p.action.word ++ " (" ++ p.uid ++ ")"

def publish (config : Config) (models : Models) (ds : List Definition) (folder : String) :
    Session Unit := do
  print ("→ Publishing to " ++ folder)
  let ctx : Collection.Context := ⟨config.service, config.conventions, models⟩
  let report ← change
    (Collection.publish ctx (Collection.Folder.workspace folder) config.service.displayName ds)
  printAll (report.collection.toList.map (publishedLine "Collection"))
  printAll (report.environments.map (publishedLine "Environment"))
  report.failures.forM fun failure => note ("✗ " ++ failure)
  if !report.isSuccess then
    fail ("Publishing failed for " ++ toString report.failures.length ++ " document(s)")

/-! ## Commands -/

def reportLines (r : Generation.Report) : List String :=
  ["✓ Extracted " ++ toString r.endpoints ++ " endpoints, " ++ toString r.models ++ " models, " ++
    toString r.errorGroups ++ " error groups"] ++
  (if r.skippedEndpoints = 0 then []
    else ["⚠ Skipped " ++ toString r.skippedEndpoints ++
      " endpoint(s) that could not be resolved"]) ++
  (if r.unresolvedModels = 0 then []
    else ["⚠ Skipped " ++ toString r.unresolvedModels ++ " model(s) that could not be resolved"])

def generate (verbose : Bool) (source : SourceOptions) (output : String)
    (previous publishFolder : Option String) : Session Unit := do
  let config ← loadConfig source
  let facts ← loadFacts source.facts
  let previous ← loadPrevious previous
  if verbose then
    printAll ["  Service: " ++ config.service.id, "  Version: " ++ config.service.version,
      "  Output: " ++ output]
  print "→ Generating documents..."
  let archive : Archive := ⟨output⟩
  let plan : Generation.Plan := ⟨config, archive, previous⟩
  let report ← expect "Failed to extract endpoint metadata" (← change (plan.run facts))
  printAll (reportLines report)
  report.failures.forM fun (stage, text) => note ("✗ " ++ stage.word ++ " failed: " ++ text)
  if verbose then
    printAll ("\nWritten documents:" :: report.written.map ("  " ++ ·))
  match publishFolder with
  | some folder => publish config (← ask archive.readModels) (← ask archive.readEndpoints) folder
  | none => pure ()
  if !report.isSuccess then
    fail (toString report.failures.length ++ " document(s) or stage(s) failed")
  printAll ["\n✓ Generation complete!", "\nGenerated files:", "  " ++ archive.openApiPath,
    "  " ++ archive.collectionPath, "  " ++ archive.bundlePath]

def openApi (source : SourceOptions) (output : Option String) : Session Unit := do
  let config ← loadConfig source
  let x ← extract (← loadFacts source.facts) config
  let document ← expect "Failed to render OpenAPI document"
    (OpenApi.render ⟨config.service, config.conventions, x.registry.models⟩ x.endpoints.toList)
  match output with
  | some path =>
    expect ("Failed to write " ++ path) (← change (Disk.writeDocument path document.toJson))
    note ("✓ Wrote " ++ toString document.paths.size ++ " paths to " ++ path)
  | none => print document.toJson.pretty

/-- Writes the documents of some environments, and counts those that could not be written. -/
def writeEnvironments (archive : Archive) : List Collection.Environment → Session Nat
  | [] => pure 0
  | e :: rest => do
    match ← change (Disk.writeDocument (archive.environmentPath e.name) e.toJson) with
    | .ok () =>
      print ("✓ Wrote environment " ++ e.name)
      writeEnvironments archive rest
    | .error fault =>
      note ("⚠ Skipped environment " ++ e.name ++ ": " ++ fault.message)
      return (← writeEnvironments archive rest) + 1

def collection (source : SourceOptions) (output : String) (previous publishFolder : Option String) :
    Session Unit := do
  let config ← loadConfig source
  let previous ← loadPrevious previous
  let x ← extract (← loadFacts source.facts) config
  let ctx : Collection.Context := ⟨config.service, config.conventions, x.registry.models⟩
  let c := Collection.render ctx x.endpoints.toList previous
  let archive : Archive := ⟨output⟩
  let path := archive.collectionPath
  expect ("Failed to write " ++ path) (← change (Disk.writeDocument path c.toJson))
  print ("✓ Wrote " ++ toString c.requests.length ++ " requests to " ++ path)
  let skipped ← writeEnvironments archive (Collection.environments config.service)
  match publishFolder with
  | some folder => publish config x.registry.models x.endpoints.toList folder
  | none => pure ()
  if skipped ≠ 0 then
    fail (toString skipped ++ " environment document(s) could not be written")

def bundle (config service : Option String) (output : String) : Session Unit := do
  let config ← match config, service with
    | some path, _ => loadConfigFile path
    | none, some id => pure (Config.ofServiceId id)
    | none, none => fail "Either --config or --service must be provided"
  print ("→ Assembling bundle from " ++ output)
  let path ← expect "Failed to write spec bundle"
    (← change ((Archive.mk output).writeBundle config.service))
  print ("✓ Wrote " ++ path)

/-- A text with spaces after it, so that it has at least `n` characters. -/
def padded (n : Nat) (s : String) : String :=
  s ++ String.ofList (List.replicate (n - s.length) ' ')

def definitionLines (verbose : Bool) (version : String) (d : Definition) : List String :=
  ("    " ++ padded 7 d.method ++ " /" ++ version ++ d.urlMapping ++ "  " ++ d.name) ::
    (if verbose then ["            group: " ++ d.group ++ ", id: " ++ d.id] else [])

def serviceLines (s : Service) : List String :=
  ["\nService:", "  Id: " ++ s.id, "  Name: " ++ s.displayName, "  Version: " ++ s.version]

def endpointLines (verbose : Bool) (version : String) (e : Endpoint.Definitions) : List String :=
  ["\nEndpoints:"] ++
  (e.groups.entries.flatMap fun (handler, ds) =>
    ("  " ++ handler) :: ds.flatMap (definitionLines verbose version)) ++
  (e.skipped.map fun s => "  ⚠ " ++ s.handler ++ "#" ++ s.methodName ++ ": " ++ s.reason)

def modelLines (verbose : Bool) (r : Registry) : List String :=
  ["\nModels:", "  Resolved: " ++ toString r.models.size] ++
  (if verbose then
    r.models.entries.map fun (path, m) =>
      "  • " ++ path ++ " (" ++ m.kind.word ++ ", " ++ toString m.fields.length ++ " fields)"
    else []) ++
  (r.failures.map fun (path, reason) => "  ⚠ " ++ path ++ ": " ++ reason)

def errorLines (errors : ErrorCatalog) (response : Option Model) : List String :=
  ["\nErrors:"] ++
  (errors.toList.map fun g =>
    "  " ++ toString g.status ++ " " ++ g.group ++ " (" ++ toString g.codes.length ++ " codes)") ++
  (response.toList.map fun m => "  Error response: " ++ m.name)

def inspect (verbose : Bool) (source : SourceOptions) : Session Unit := do
  let config ← loadConfig source
  let x ← extract (← loadFacts source.facts) config
  printAll (serviceLines config.service)
  printAll (endpointLines verbose config.service.version x.endpoints)
  printAll (modelLines verbose x.registry)
  printAll (errorLines x.errors x.errorResponse)

def Request.session (r : Request) : Session Unit :=
  match r.command with
  | .generate source output previous publishFolder =>
    generate r.verbose source output previous publishFolder
  | .openApi source output => openApi source output
  | .collection source output previous publishFolder =>
    collection source output previous publishFolder
  | .bundle config service output => bundle config service output
  | .inspect source => inspect r.verbose source

/-! ## Running a command line -/

def name : String := "restmeta"

def version : String := "0.4.1"

def usage : String :=
  "Usage: restmeta [OPTIONS] <generate|openapi|postman|bundle|inspect>\n"

/-- What is left of a run: its exit code, what it printed, and the disk. -/
structure Ended where
  code : Nat
  out : String
  err : String
  disk : Disk

/-- Carries out the words of a command line. -/
def run (args : List String) (d : Disk) : Ended :=
  match Request.ofArguments args with
  | .error .help => ⟨0, usage, "", d⟩
  | .error .version => ⟨0, name ++ " " ++ version ++ "\n", "", d⟩
  | .error .usage => ⟨2, "", usage, d⟩
  | .ok request =>
    match request.session.run.run ⟨d, "", ""⟩ with
    | (.ok (), c) => ⟨0, c.out, c.err, c.disk⟩
    | (.error failure, c) => ⟨1, c.out, c.err ++ failure.report, c.disk⟩

end ApiDocs.CommandLine
