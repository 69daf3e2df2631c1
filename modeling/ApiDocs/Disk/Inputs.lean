import ApiDocs.Config
import ApiDocs.Disk.Document
import ApiDocs.Facts.Source
import ApiDocs.Text.Quoted
/-!
# What a run is given

The configuration and the facts of a run, each read from a file.
-/
namespace ApiDocs

/-- The configuration that a YAML file spells. -/
def Config.ofFile (path : String) (d : Disk) : Outcome Config :=
  match d.readText path with
  | .error p =>
    .error (.parse ("Failed to read config file " ++ Text.quoted path ++ ": " ++ p.message))
  | .ok text =>
    (Config.ofYaml text).mapError fun fault =>
      .parse ("Failed to parse config YAML from " ++ Text.quoted path ++ ": " ++ fault.message)

/-- The facts that a JSON file spells. -/
def Facts.Document.ofFile (path : String) (d : Disk) : Outcome Facts.Document :=
  match d.readText path with
  | .error p => .error (.parse ("Failed to read facts file " ++ path ++ ": " ++ p.message))
  | .ok text => Facts.Document.ofText text

end ApiDocs
