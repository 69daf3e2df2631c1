import ApiDocs.Collection.Render
import ApiDocs.Fault
/-!
# Publishing

A collection and its environments are brought to a workspace: a document that is there already is
replaced, any other is created. What was published before is fetched first, so that the changes of
users are kept. A document that cannot be published is reported and holds up no other.
-/
namespace ApiDocs.Collection

/-- A document of the workspace. -/
structure RemoteEntry where
  uid : String
  id : Option String
  name : String
  deriving DecidableEq, Repr

namespace RemoteEntry

def toJson (e : RemoteEntry) : Json :=
  .obj ([("uid", .str e.uid)] ++ Json.present "id" (e.id.map .str) ++ [("name", .str e.name)])

def ofNode (n : Node) : Reading RemoteEntry := do
  let r ← Record.ofNode ["uid", "id", "name"] n
  return {
    uid := ← r.required "uid" Reading.text
    id := ← r.optional "id" Reading.text
    name := ← r.required "name" Reading.text }

end RemoteEntry

/-- A workspace with states `σ`: each answer may depend on all that was asked before. -/
structure Workspace (σ : Type) where
  findCollection : String → σ → Outcome (Option RemoteEntry) × σ
  fetchCollection : String → σ → Outcome Collection × σ
  createCollection : Collection → σ → Outcome String × σ
  replaceCollection : String → Collection → σ → Outcome Unit × σ
  findEnvironment : String → σ → Outcome (Option RemoteEntry) × σ
  createEnvironment : Environment → σ → Outcome String × σ
  replaceEnvironment : String → Environment → σ → Outcome Unit × σ

/-! ## Records of what was asked -/

/-- Something asked of a workspace. -/
inductive Call where
  | findCollection (name : String)
  | fetchCollection (uid : String)
  | createCollection (c : Collection)
  | replaceCollection (uid : String) (c : Collection)
  | findEnvironment (name : String)
  | createEnvironment (e : Environment)
  | replaceEnvironment (uid : String) (e : Environment)

namespace Workspace

variable {σ : Type}

/-- Asks, and writes down what was asked. -/
def recorded {α : Type} (call : Call) (ask : σ → Outcome α × σ) (s : σ × List Call) :
    Outcome α × (σ × List Call) :=
  let (answer, state) := ask s.1
  (answer, state, s.2 ++ [call])

/-- The workspace that writes down what it is asked. -/
def recording (w : Workspace σ) : Workspace (σ × List Call) where
  findCollection name := recorded (.findCollection name) (w.findCollection name)
  fetchCollection uid := recorded (.fetchCollection uid) (w.fetchCollection uid)
  createCollection c := recorded (.createCollection c) (w.createCollection c)
  replaceCollection uid c := recorded (.replaceCollection uid c) (w.replaceCollection uid c)
  findEnvironment name := recorded (.findEnvironment name) (w.findEnvironment name)
  createEnvironment e := recorded (.createEnvironment e) (w.createEnvironment e)
  replaceEnvironment uid e := recorded (.replaceEnvironment uid e) (w.replaceEnvironment uid e)

end Workspace

/-! ## Reports -/

inductive Action where
  | created
  | replaced
  deriving DecidableEq, Repr

def Action.word : Action → String
  | .created => "created"
  | .replaced => "replaced"

/-- A document that was published. -/
structure Published where
  name : String
  uid : String
  action : Action
  deriving DecidableEq, Repr

structure PublishReport where
  collection : Option Published
  environments : List Published
  failures : List String
  deriving DecidableEq, Repr

namespace PublishReport

def empty : PublishReport := ⟨none, [], []⟩

def isSuccess (r : PublishReport) : Bool :=
  r.failures.isEmpty

def fail (r : PublishReport) (kind name : String) (fault : Fault) : PublishReport :=
  { r with failures := r.failures ++ [kind ++ " '" ++ name ++ "': " ++ fault.message] }

end PublishReport

/-! ## Publishing -/

variable {σ : Type}

/-- The collection that was published before; none if there is none or it cannot be fetched. -/
def fetchPrevious (w : Workspace σ) (existing : Option RemoteEntry) (s : σ) :
    Option Collection × σ :=
  match existing with
  | none => (none, s)
  | some entry =>
    match w.fetchCollection entry.uid s with
    | (.ok c, s) => (some c, s)
    | (.error _, s) => (none, s)

/-- A collection with the id under which the workspace knows it. -/
def withRemoteId (c : Collection) (entry : RemoteEntry) : Collection :=
  match entry.id with
  | some id => { c with info := { c.info with id := some id } }
  | none => c

/-- Publishes the collection of some definitions. -/
def publishCollection (ctx : Context) (w : Workspace σ) (name : String) (ds : List Definition)
    (s : σ) : Outcome Published × σ :=
  match w.findCollection name s with
  | (.error fault, s) => (.error fault, s)
  | (.ok existing, s) =>
    let (previous, s) := fetchPrevious w existing s
    let c := render ctx ds previous
    match existing with
    | some entry =>
      match w.replaceCollection entry.uid (withRemoteId c entry) s with
      | (.ok (), s) => (.ok ⟨name, entry.uid, .replaced⟩, s)
      | (.error fault, s) => (.error fault, s)
    | none =>
      match w.createCollection c s with
      | (.ok uid, s) => (.ok ⟨name, uid, .created⟩, s)
      | (.error fault, s) => (.error fault, s)

/-- The uid of an environment: that found in the workspace, else the configured one. Failing to look
is a fault only without a configured one. -/
def environmentUid (e : Environment) : Outcome (Option RemoteEntry) → Outcome (Option String)
  | .ok (some entry) => .ok (some entry.uid)
  | .ok none => .ok e.id
  | .error fault =>
    match e.id with
    | some uid => .ok (some uid)
    | none => .error fault

/-- Publishes an environment. -/
def publishEnvironment (w : Workspace σ) (e : Environment) (s : σ) : Outcome Published × σ :=
  let (found, s) := w.findEnvironment e.name s
  match environmentUid e found with
  | .error fault => (.error fault, s)
  | .ok (some uid) =>
    match w.replaceEnvironment uid e s with
    | (.ok (), s) => (.ok ⟨e.name, uid, .replaced⟩, s)
    | (.error fault, s) => (.error fault, s)
  | .ok none =>
    match w.createEnvironment e s with
    | (.ok uid, s) => (.ok ⟨e.name, uid, .created⟩, s)
    | (.error fault, s) => (.error fault, s)

/-- Publishes some environments, one after the other. -/
def publishEnvironments (w : Workspace σ) (report : PublishReport) (s : σ) :
    List Environment → PublishReport × σ
  | [] => (report, s)
  | e :: rest =>
    match publishEnvironment w e s with
    | (.ok published, s) =>
      publishEnvironments w { report with environments := report.environments ++ [published] } s rest
    | (.error fault, s) => publishEnvironments w (report.fail "environment" e.name fault) s rest

/-- Publishes the collection of some definitions under a name, and then every environment. -/
def publish (ctx : Context) (w : Workspace σ) (name : String) (ds : List Definition) (s : σ) :
    PublishReport × σ :=
  let (outcome, s) := publishCollection ctx w name ds s
  let report := match outcome with
    | .ok published => { PublishReport.empty with collection := some published }
    | .error fault => PublishReport.empty.fail "collection" name fault
  publishEnvironments w report s (environments ctx.service)

end ApiDocs.Collection
