import ApiDocs.ReturnShape
/-!
# Models

The documented shape of one type: the fields of an object or the constants of an enumeration. The
kind of a field is written as a label that all structural kinds and every scalar name share.
-/
namespace ApiDocs

inductive FieldKind where
  | scalar (name : String)
  | object
  | array
  | enum
  deriving DecidableEq, Repr

namespace FieldKind

/-- Whether the field refers to a type with a document of its own. -/
def isReference : FieldKind → Bool
  | .scalar _ => false
  | _ => true

def label : FieldKind → String
  | .scalar name => name
  | .object => "Object"
  | .array => "Array"
  | .enum => "Enum"

/-- The kind that a label stands for. -/
def ofLabel (s : String) : FieldKind :=
  if s = "Object" then .object
  else if s = "Array" then .array
  else if s = "Enum" then .enum
  else .scalar s

end FieldKind

structure Field where
  name : String
  kind : FieldKind
  classPath : String
  description : String
  isOptional : Bool
  /-- The page that the field's type is wrapped in. -/
  page : Option PageKind
  deriving DecidableEq, Repr

namespace Field

def toJson (f : Field) : Json :=
  .obj
    ([("name", .str f.name), ("type", .str f.kind.label), ("classPath", .str f.classPath),
      ("description", .str f.description), ("isOptional", .bool f.isOptional)] ++
     Json.present "pagingType" (f.page.map PageKind.toJson))

def memberNames : List String :=
  ["name", "type", "classPath", "description", "isOptional", "pagingType"]

def ofNode (n : Node) : Reading Field := do
  let r ← Record.ofNode memberNames n
  return {
    name := ← r.required "name" Reading.text
    kind := FieldKind.ofLabel (← r.required "type" Reading.text)
    classPath := ← r.required "classPath" Reading.text
    description := ← r.textOrEmpty "description"
    isOptional := ← r.withDefault "isOptional" true Reading.boolean
    page := ← r.optional "pagingType" PageKind.ofNode }

end Field

inductive ModelKind where
  | object
  | enum
  deriving DecidableEq, Repr

namespace ModelKind

def word : ModelKind → String
  | .object => "Object"
  | .enum => "Enum"

def ofNode : Node → Reading ModelKind :=
  Reading.word [("Object", .object), ("Enum", .enum)]

end ModelKind

structure Model where
  name : String
  kind : ModelKind
  description : String
  fields : List Field
  deriving DecidableEq, Repr

namespace Model

def isEnum (m : Model) : Bool :=
  m.kind == .enum

/-- The names of the fields, which are the constants of an enumeration. -/
def constants (m : Model) : List String :=
  m.fields.map (·.name)

def toJson (m : Model) : Json :=
  .obj [("name", .str m.name), ("type", .str m.kind.word), ("description", .str m.description),
    ("fields", .list (m.fields.map Field.toJson))]

def ofNode (n : Node) : Reading Model := do
  let r ← Record.ofNode ["name", "type", "description", "fields"] n
  return {
    name := ← r.required "name" Reading.text
    kind := ← r.required "type" ModelKind.ofNode
    description := ← r.textOrEmpty "description"
    fields := ← r.listOrEmpty "fields" Field.ofNode }

end Model

/-- The models of a service by class path. -/
abbrev Models := Keyed Model

end ApiDocs
