import ApiDocs.Conventions
import ApiDocs.Fault
import ApiDocs.Service
import ApiDocs.Text.Blank
import ApiDocs.Yaml.Reader
/-!
# Configurations

What a run has to be told about a service beside the facts.
-/
namespace ApiDocs

structure Config where
  service : Service
  conventions : Conventions
  /-- Only types of these packages are documented; all types if there are none. -/
  basePackages : List String
  /-- The messages of error codes by key. -/
  messages : Keyed String

namespace Config

def ofServiceId (id : String) : Config :=
  ⟨Service.ofId id, Conventions.default, [], Keyed.empty⟩

def toJson (c : Config) : Json :=
  .obj [("service", c.service.toJson), ("conventions", c.conventions.toJson),
    ("basePackages", .texts c.basePackages), ("messages", Json.ofKeyed .str c.messages)]

def ofNode (n : Node) : Reading Config := do
  let r ← Record.ofNode ["service", "conventions", "basePackages", "messages"] n
  return {
    service := ← r.required "service" Service.ofNode
    conventions := ← r.withDefault "conventions" Conventions.default Conventions.ofNode
    basePackages := ← r.listOrEmpty "basePackages" Reading.text
    messages := ← r.withDefault "messages" Keyed.empty (Reading.keyed Reading.text) }

/-- The configuration that a YAML text spells. Its service has to have an id. -/
def ofYaml (text : String) : Outcome Config :=
  match (Yaml.read text).map ofNode with
  | some (.ok c) =>
    if (Text.trim c.service.id).isEmpty then
      .error (.parse "service.serviceId must not be empty")
    else .ok c
  | _ => .error .yaml

end Config

end ApiDocs
