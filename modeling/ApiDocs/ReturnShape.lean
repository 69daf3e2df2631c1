import ApiDocs.Node
/-!
# Return shapes

How the content of a response is wrapped: plainly, in a list, or in a page. Documents spell a shape
as flags beside the other members of a definition.
-/
namespace ApiDocs

/-- The two kinds of pages. -/
inductive PageKind where
  | spring
  | xpage
  deriving DecidableEq, Repr

namespace PageKind

def word : PageKind → String
  | .spring => "spring"
  | .xpage => "xpage"

/-- What the name of the schema of a page begins with. -/
def schemaLead : PageKind → String
  | .spring => "SpringPage"
  | .xpage => "XPage"

def toJson (k : PageKind) : Json :=
  .str k.word

def ofNode : Node → Reading PageKind :=
  Reading.word [("spring", .spring), ("xpage", .xpage)]

end PageKind

inductive ReturnShape where
  | plain
  | array
  | paged (kind : PageKind)
  deriving DecidableEq, Repr, Inhabited

namespace ReturnShape

def isArray : ReturnShape → Bool
  | .array => true
  | _ => false

def pageKind? : ReturnShape → Option PageKind
  | .paged k => some k
  | _ => none

/-- The shape that flags spell: a page comes before an array, and a page without a kind is a
Spring page. -/
def ofFlags (isArray isPaging : Bool) (kind : Option PageKind) : ReturnShape :=
  if isPaging then .paged (kind.getD .spring)
  else if isArray then .array
  else .plain

/-- The flags of a shape, as members of an object. -/
def flags (s : ReturnShape) : List (String × Json) :=
  [("isArrayReturn", .bool s.isArray), ("isPaging", .bool s.pageKind?.isSome)] ++
    Json.present "pagingType" (s.pageKind?.map PageKind.toJson)

def flagNames : List String :=
  ["isArrayReturn", "isPaging", "pagingType"]

def ofRecord (r : Record) : Reading ReturnShape := do
  let isArray ← r.flag "isArrayReturn"
  let isPaging ← r.flag "isPaging"
  let kind ← r.optional "pagingType" PageKind.ofNode
  return ofFlags isArray isPaging kind

theorem ofFlags_flags (s : ReturnShape) :
    ofFlags s.isArray s.pageKind?.isSome s.pageKind? = s := by
  cases s <;> rfl

end ReturnShape

end ApiDocs
