import ApiDocs.CommandLine.Commands
/-!
# The command line

Takes what a request can reach from the file system into a disk, carries the request out on it, and
brings what has changed back to the file system.
-/
namespace ApiDocs.CommandLine

/-- The paths that a request reads or changes. -/
def Request.reach (r : Request) : List String :=
  let ofSource (source : SourceOptions) := source.facts :: source.config.toList
  let ofArchive (root : String) :=
    let a : Archive := ⟨root⟩
    [a.endpointsFolder, a.modelsFolder, a.errorsPath, a.errorResponsePath, a.openApiPath,
      a.collectionPath, a.bundlePath]
  let ofWorkspace (root : String) :=
    [Collection.Folder.collectionsFolder root, Collection.Folder.environmentsFolder root]
  match r.command with
  | .generate source output previous publishFolder =>
    ofSource source ++ previous.toList ++ ofArchive output ++
      publishFolder.toList.flatMap ofWorkspace
  | .openApi source output => ofSource source ++ output.toList
  | .collection source output previous publishFolder =>
    ofSource source ++ previous.toList ++ ofArchive output ++
      publishFolder.toList.flatMap ofWorkspace
  | .bundle config _ output => config.toList ++ ofArchive output
  | .inspect source => ofSource source

/-- The place that a path names. -/
def placeOf (home : Disk.Place) (path : String) : Disk.Place :=
  (Path.pieces path).foldl
    (fun place name =>
      if name.isEmpty || name == "." then place
      else if name == ".." then place.dropLast
      else place ++ [name])
    (if Path.isAbsolute path then [] else home)

/-- The absolute path of a place. -/
def pathOf (place : Disk.Place) : String :=
  "/" ++ Text.join "/" place

/-- Takes in what stands at a place, with everything below it if `deep`. -/
partial def takeIn (deep : Bool) (place : Disk.Place) (d : Disk) : IO Disk := do
  try
    let path ← IO.FS.realPath (pathOf place)
    if ← path.isDir then
      let mut d := d.put place .folder
      if deep then
        for e in ← path.readDir do
          d ← takeIn true (place ++ [e.fileName]) d
      return d
    else
      let text ← try IO.FS.readFile path catch _ => pure ""
      return d.put place (.file text)
  catch _ => return d

/-- Takes in what stands on the way to a place. -/
def takeInWay (place : Disk.Place) (d : Disk) : IO Disk :=
  (List.range place.length).foldlM (fun d n => takeIn false (place.take n) d) d

/-- Takes in what stands at a path. -/
def takeInPath (d : Disk) (path : String) : IO Disk := do
  let place := placeOf d.home path
  takeIn true place (← takeInWay place d)

/-- Makes the file system say what `new` says, where it differs from `old`. -/
def bringBack (old new : Disk) : IO Unit := do
  for (place, e) in old.entries.reverse do
    if (new.at? place).isNone then
      if e.isFolder then IO.FS.removeDir (pathOf place) else IO.FS.removeFile (pathOf place)
  for (place, e) in new.entries do
    if old.at? place != some e then
      match e with
      | .folder => IO.FS.createDir (pathOf place)
      | .file text => IO.FS.writeFile (pathOf place) text

/-- The disk that a command line can reach. -/
def reachable (args : List String) : IO Disk := do
  let home := placeOf [] (← IO.currentDir).toString
  let start ← takeIn false home (← takeInWay home { Disk.empty with home })
  match Request.ofArguments args with
  | .ok r => r.reach.foldlM takeInPath start
  | .error _ => return start

/-- Carries out the words of a command line on the file system. -/
def carryOut (args : List String) : IO UInt32 := do
  let d ← reachable args
  let ended := run args d
  bringBack d ended.disk
  IO.print ended.out
  IO.eprint ended.err
  return ended.code.toUInt32

end ApiDocs.CommandLine

def main (args : List String) : IO UInt32 :=
  ApiDocs.CommandLine.carryOut args
