import ApiDocs.Conventions
import ApiDocs.Definition
import ApiDocs.Model
/-!
# Examples

The example value of a type: scalars are written as their class path, enumerations as a list of
their constants, sequences as one element, and objects field by field. A type that is already being
written further out is written as an empty object, so that models may refer to each other in
circles.
-/
namespace ApiDocs.Example

def long : Json := .str "java.lang.Long"
def integer : Json := .str "java.lang.Integer"
def boolean : Json := .str "java.lang.Boolean"
def text : Json := .str "java.lang.String"

def sortValue : Json :=
  .obj [("sorted", boolean), ("unsorted", boolean), ("empty", boolean)]

def orderValue : Json :=
  .obj [("column", text), ("direction", text)]

/-- The fields of a page around its content. -/
def pageValue (kind : PageKind) (content : Json) : Json :=
  match kind with
  | .spring => .obj
      [("content", .list [content]), ("totalElements", long), ("totalPages", integer),
       ("size", integer), ("number", integer), ("numberOfElements", integer), ("first", boolean),
       ("last", boolean), ("empty", boolean), ("sort", sortValue)]
  | .xpage => .obj
      [("page", integer), ("size", integer), ("offset", integer), ("hasNext", boolean),
       ("totalCount", long), ("sort", text), ("orders", .list [orderValue]),
       ("pageRows", .list [content])]

/-- The value of a paging request or an order. -/
def carrierValue? (c : Conventions) (path : String) : Option Json :=
  if path = c.sort then some sortValue
  else if path = c.xorder then some orderValue
  else if path = c.pageable then
    some (.obj [("page", integer), ("size", integer), ("sort", sortValue)])
  else if path = c.xpageNation then
    some (.obj [("page", integer), ("size", integer), ("offset", integer), ("sort", text),
      ("orders", .list [orderValue])])
  else none

/-- The constants of an enumeration. -/
def enumListing (m : Model) : String :=
  Text.join " | " m.constants

/-- The value of a field, where `inner` gives that of its class. -/
def fieldValue (inner : String → Json) (f : Field) : Json :=
  match f.page, f.kind with
  | some kind, _ => pageValue kind (inner f.classPath)
  | none, .scalar _ => .str f.classPath
  | none, .array => .list [inner f.classPath]
  | none, _ => inner f.classPath

/-- The members of an object; a repeated name keeps its place and takes the last value. -/
def objectOf (members : List (String × Json)) : Json :=
  .obj (members.foldl (fun taken m => Pairs.put m.1 m.2 taken) [])

/-- The value of a class inside the classes of `outer`. The number bounds how many may be inside
each other. -/
def valueWithin (c : Conventions) (models : Models) : Nat → List String → String → Json
  | 0, _, _ => .obj []
  | depth + 1, outer, path =>
    if c.isScalar path then .str path
    else match carrierValue? c path with
      | some v => v
      | none =>
        match models.get? path with
        | none => .obj []
        | some m =>
          if m.isEnum then .str (enumListing m)
          else if path ∈ outer then .obj []
          else objectOf <| m.fields.map fun f =>
            (f.name, fieldValue (valueWithin c models depth (path :: outer)) f)

/-- The example value of a class. No more classes than there are models can be inside each other. -/
def value (c : Conventions) (models : Models) (path : String) : Json :=
  valueWithin c models (models.size + 2) [] path

/-- The example value of a parameter. -/
def parameterValue (c : Conventions) (models : Models) (p : Parameter) : Json :=
  let v := value c models p.classPath
  if p.isArray then .list [v] else v

/-- The example value of content in a shape. -/
def shaped (c : Conventions) (models : Models) (shape : ReturnShape) (path : String) : Json :=
  let v := value c models path
  match shape with
  | .plain => v
  | .array => .list [v]
  | .paged kind => pageValue kind v

/-- The example response of an endpoint; none when nothing is returned. -/
def responseBody? (c : Conventions) (models : Models) (d : Definition) : Option Json :=
  d.returnClass.map (shaped c models d.returnShape)

end ApiDocs.Example
