import ApiDocs.Node
import ApiDocs.Scalar
/-!
# Schemas

The part of the schema language that documents use: a schema describes a value in place, or refers
to a component by name.
-/
namespace ApiDocs.OpenApi

/-- A reference to a component, or something in its place. -/
inductive OrRef (α : Type) where
  | ref (target : String)
  | inline (value : α)

structure Schema where
  type : Option String
  format : Option String
  description : Option String
  properties : List (String × OrRef Schema)
  required : List String
  items : Option (OrRef Schema)
  constants : List Json
  allOf : List (OrRef Schema)
  defaultValue : Option Json

abbrev SchemaRef := OrRef Schema

namespace Schema

def empty : Schema := ⟨none, none, none, [], [], none, [], [], none⟩

instance : Inhabited Schema := ⟨empty⟩

def ofType (type : String) : Schema := { empty with type := some type }

/-- A scalar type with its format. -/
def scalar (s : Scalar.Schema) : Schema :=
  { empty with type := some s.type, format := s.format }

/-- A list of values of a schema. -/
def array (items : SchemaRef) : Schema :=
  { empty with type := some "array", items := some items }

/-- An object with these properties; a repeated name keeps its place and takes the last schema. -/
def object (properties : List (String × SchemaRef)) : Schema :=
  { empty with
    type := some "object"
    properties := properties.foldl (fun taken p => Pairs.put p.1 p.2 taken) [] }

/-- One of some texts. -/
def enumeration (constants : List String) : Schema :=
  { empty with type := some "string", constants := constants.map .str }

/-- Describes a schema, unless there is nothing to say. -/
def describe (s : Schema) (description : String) : Schema :=
  if description.isEmpty then s else { s with description := some description }

end Schema

/-! ## References -/

/-- Where components are found in a document. -/
def componentPath (name : String) : String :=
  "#/components/schemas/" ++ name

namespace SchemaRef

/-- A reference to a component. -/
def component (name : String) : SchemaRef := .ref (componentPath name)

/-- The target of a reference. -/
def target? : SchemaRef → Option String
  | .ref target => some target
  | .inline _ => none

/-- The schema that stands in place. -/
def schema? : SchemaRef → Option Schema
  | .ref _ => none
  | .inline s => some s

/-- Describes a schema; a reference is wrapped to carry the description. -/
def describe (s : SchemaRef) (description : String) : SchemaRef :=
  if description.isEmpty then s
  else match s with
    | .inline s => .inline (s.describe description)
    | .ref target =>
      .inline { Schema.empty with description := some description, allOf := [.ref target] }

/-- A list of the schema, if it is one. -/
def listed (s : SchemaRef) (isArray : Bool) : SchemaRef :=
  if isArray then .inline (Schema.array s) else s

end SchemaRef

/-! ## Documents -/

mutual

def Schema.toJson : Schema → Json
  | ⟨type, format, description, properties, required, items, constants, allOf, defaultValue⟩ =>
    .obj (Json.present "type" (type.map .str) ++ Json.present "format" (format.map .str) ++
      Json.present "description" (description.map .str) ++ Schema.propertiesMember properties ++
      Json.nonempty "required" .str required ++ Schema.itemsMember items ++
      Json.nonempty "enum" (fun v => v) constants ++ Schema.allOfMember allOf ++
      Json.present "default" defaultValue)

def Schema.refToJson : OrRef Schema → Json
  | .ref target => .obj [("$ref", .str target)]
  | .inline s => s.toJson

/-- The member for the properties, if there are any. -/
def Schema.propertiesMember : List (String × OrRef Schema) → List (String × Json)
  | [] => []
  | (k, s) :: rest =>
    [("properties", .obj ((k, Schema.refToJson s) :: Schema.propertiesToJson rest))]

def Schema.propertiesToJson : List (String × OrRef Schema) → List (String × Json)
  | [] => []
  | (k, s) :: rest => (k, Schema.refToJson s) :: Schema.propertiesToJson rest

/-- The member for the items, if they have a schema. -/
def Schema.itemsMember : Option (OrRef Schema) → List (String × Json)
  | none => []
  | some s => [("items", Schema.refToJson s)]

/-- The member for the schemas that all hold, if there are any. -/
def Schema.allOfMember : List (OrRef Schema) → List (String × Json)
  | [] => []
  | s :: rest => [("allOf", .list (Schema.refToJson s :: Schema.listToJson rest))]

def Schema.listToJson : List (OrRef Schema) → List Json
  | [] => []
  | s :: rest => Schema.refToJson s :: Schema.listToJson rest

end

namespace Schema

def memberNames : List String :=
  ["type", "format", "description", "properties", "required", "items", "enum", "allOf", "default"]

/-- The target that an object refers to, if it is a reference: its other members do not count. -/
def targetOf? (n : Node) : Option String :=
  match n with
  | .obj _ =>
    match (do (← Record.byName ["$ref"] n).required "$ref" Reading.text : Reading String) with
    | .ok target => some target
    | .error _ => none
  | _ => none

/-- Reads a schema of at most `fuel` levels. -/
def ofNodeWithin : Nat → Node → Reading Schema
  | 0, _ => .error .form
  | fuel + 1, n => do
    let ref (n : Node) : Reading SchemaRef :=
      match targetOf? n with
      | some target => .ok (.ref target)
      | none => (ofNodeWithin fuel n).map .inline
    let refIn (n : Node) : Reading SchemaRef := do
      let _ ← Reading.json n
      ref n
    let r ← Record.ofNode memberNames n
    return {
      type := ← r.optional "type" Reading.text
      format := ← r.optional "format" Reading.text
      description := ← r.optional "description" Reading.text
      properties := (← r.withDefault "properties" Keyed.empty (Reading.keyed refIn)).entries
      required := ← r.listOrEmpty "required" Reading.text
      items := ← r.optional "items" refIn
      constants := ← r.listOrEmpty "enum" Reading.json
      allOf := ← r.listOrEmpty "allOf" refIn
      defaultValue := ← r.optional "default" Reading.json }

def ofNode (n : Node) : Reading Schema :=
  ofNodeWithin n.height n

end Schema

namespace SchemaRef

def toJson : SchemaRef → Json := Schema.refToJson

/-- Reads a reference or a schema. All parts of it have to be readable. -/
def ofNode (n : Node) : Reading SchemaRef := do
  let _ ← Reading.json n
  match Schema.targetOf? n with
  | some target => .ok (.ref target)
  | none => (Schema.ofNode n).map .inline

end SchemaRef

end ApiDocs.OpenApi
