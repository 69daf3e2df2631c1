import ApiDocs.Collection.Publish
import ApiDocs.Disk.Document
import ApiDocs.StableId
/-!
# A workspace in a folder

Collections and environments are published to a folder, each to a file of its own that is named for
its uid. A name is looked up in the documents themselves, in the order of the uids.
-/
namespace ApiDocs.Collection.Folder

def collectionsFolder (root : String) : String :=
  Path.join root "collections"

def environmentsFolder (root : String) : String :=
  Path.join root "environments"

def documentPath (folder uid : String) : String :=
  Path.join folder (uid ++ ".json")

/-- The documents in a folder with their uids, by uid. -/
def listed (folder : String) (d : Disk) : Outcome (List (String × String)) :=
  if d.hasEntry folder then
    match d.documentsIn folder with
    | .error p => .error (.remote ("Failed to list " ++ folder ++ ": " ++ p.message))
    | .ok paths =>
      let uidOf (path : String) := (Path.splitName ((Path.fileName? path).getD "")).1
      .ok ((paths.map fun path => (uidOf path, path)).mergeSort fun a b => !(b.1 < a.1))
  else .ok []

/-- The first document in a folder that can be read and has the name. -/
def find {α : Type} (read : Node → Reading α) (entryOf : String → α → RemoteEntry)
    (folder name : String) (d : Disk) : Outcome (Option RemoteEntry) :=
  (listed folder d).map fun documents =>
    documents.findSome? fun (uid, path) =>
      match d.readDocument read path with
      | .ok a => if (entryOf uid a).name = name then some (entryOf uid a) else none
      | .error _ => none

def collectionEntry (uid : String) (c : Collection) : RemoteEntry :=
  ⟨uid, c.info.id, c.info.name⟩

def environmentEntry (uid : String) (e : Environment) : RemoteEntry :=
  ⟨uid, e.id, e.name⟩

def unknown (uid : String) : Fault :=
  .remote ("No document with uid " ++ uid)

def fetch (root uid : String) (d : Disk) : Outcome Collection :=
  let path := documentPath (collectionsFolder root) uid
  if d.hasEntry path then d.readDocument Collection.ofNode path else .error (unknown uid)

/-- Writes a document that is there already. -/
def replace (folder uid : String) (v : Json) (d : Disk) : Outcome Unit × Disk :=
  let path := documentPath folder uid
  if d.hasEntry path then d.writeDocument path v else (.error (unknown uid), d)

/-- Writes a document under a uid. -/
def create (folder uid : String) (v : Json) (d : Disk) : Outcome String × Disk :=
  match d.writeDocument (documentPath folder uid) v with
  | (.ok (), d) => (.ok uid, d)
  | (.error fault, d) => (.error fault, d)

/-- A new collection has the uid that its name determines, and that is its id if it has none. -/
def createCollection (root : String) (c : Collection) (d : Disk) : Outcome String × Disk :=
  let uid := stableId ["collection", c.info.name]
  let c := { c with info := { c.info with id := some (c.info.id.getD uid) } }
  create (collectionsFolder root) uid c.toJson d

def createEnvironment (root : String) (e : Environment) (d : Disk) : Outcome String × Disk :=
  let uid := stableId ["environment", e.name]
  create (environmentsFolder root) uid { e with id := some (e.id.getD uid) }.toJson d

/-- The workspace that a folder of a disk holds. -/
def workspace (root : String) : Workspace Disk where
  findCollection name d :=
    (find Collection.ofNode collectionEntry (collectionsFolder root) name d, d)
  fetchCollection uid d := (fetch root uid d, d)
  createCollection := createCollection root
  replaceCollection uid c := replace (collectionsFolder root) uid c.toJson
  findEnvironment name d :=
    (find Environment.ofNode environmentEntry (environmentsFolder root) name d, d)
  createEnvironment := createEnvironment root
  replaceEnvironment uid e := replace (environmentsFolder root) uid e.toJson

end ApiDocs.Collection.Folder
