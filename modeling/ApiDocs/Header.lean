import ApiDocs.Node
/-!
# Headers

Request headers of an endpoint or of the whole service. Merging two lists lists each name once, in
first-seen order, with the first header of that name.
-/
namespace ApiDocs

structure Header where
  name : String
  typeName : String
  classPath : String
  description : String
  isOptional : Bool
  defaultValue : Option String
  deriving DecidableEq, Repr

namespace Header

/-- A required header that holds a text. -/
def ofText (name description : String) : Header :=
  ⟨name, "String", "java.lang.String", description, false, none⟩

def toJson (h : Header) : Json :=
  .obj
    ([("name", .str h.name), ("type", .str h.typeName), ("classPath", .str h.classPath),
      ("description", .str h.description), ("isOptional", .bool h.isOptional)] ++
     Json.present "defaultValue" (h.defaultValue.map .str))

def memberNames : List String :=
  ["name", "type", "classPath", "description", "isOptional", "defaultValue"]

def ofNode (n : Node) : Reading Header := do
  let r ← Record.ofNode memberNames n
  return {
    name := ← r.required "name" Reading.text
    typeName := ← r.withDefault "type" "String" Reading.text
    classPath := ← r.withDefault "classPath" "java.lang.String" Reading.text
    description := ← r.textOrEmpty "description"
    isOptional := ← r.flag "isOptional"
    defaultValue := ← r.optional "defaultValue" Reading.text }

/-- The headers of which no earlier one has the name; `seen` are the names before them. -/
def firstOfName (seen : List String) : List Header → List Header
  | [] => []
  | h :: rest =>
    if h.name ∈ seen then firstOfName seen rest else h :: firstOfName (h.name :: seen) rest

/-- The headers of an endpoint and those common to all, each name once. -/
def merge (own common : List Header) : List Header :=
  firstOfName [] (own ++ common)

end Header

end ApiDocs
