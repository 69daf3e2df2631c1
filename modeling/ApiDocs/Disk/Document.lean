import ApiDocs.Disk.Basic
import ApiDocs.Fault
import ApiDocs.Json.Reader
import ApiDocs.Json.Writer
/-!
# Documents on a disk

A document is a JSON value in a file of its own, spread over lines and ended by a line feed.
-/
namespace ApiDocs.Disk

/-- Writes a document, and makes the folders that it stands in. -/
def writeDocument (path : String) (v : Json) (d : Disk) : Outcome Unit × Disk :=
  let folder := Path.parent? path
  match (match folder with | some above => makeFolders above d | none => (.ok (), d)) with
  | (.error p, d) =>
    (.error (.generation
      ("Failed to create directory " ++ folder.getD "" ++ ": " ++ p.message)), d)
  | (.ok (), d) =>
    match writeText path (v.pretty ++ "\n") d with
    | (.error p, d) => (.error (.generation ("Failed to write " ++ path ++ ": " ++ p.message)), d)
    | (.ok (), d) => (.ok (), d)

/-- The value that the document at a path spells. -/
def readDocument {α : Type} (read : Node → Reading α) (path : String) (d : Disk) : Outcome α :=
  match d.readText path with
  | .error p => .error (.parse ("Failed to read " ++ path ++ ": " ++ p.message))
  | .ok text =>
    match (Json.read text).map read with
    | some (.ok a) => .ok a
    | some (.error .wideBlank) => .error .wideBlank
    | _ => .error (.parse ("Failed to parse " ++ path ++ ": the text does not fit its type"))

/-- The paths of the documents in a folder, those in it whose names end in `.json`, by name. -/
def documentsIn (folder : String) (d : Disk) : Except Problem (List String) :=
  (d.list folder).map fun names =>
    (names.filter fun n => (Path.splitName n).2 == some "json").map (Path.join folder)

end ApiDocs.Disk
