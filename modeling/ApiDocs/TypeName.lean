import ApiDocs.Text.Pieces
/-!
# Qualified type names

A qualified name such as `com.example.Outer$Inner` has a simple name, and a schema name under which
a document may define it.
-/
namespace ApiDocs.TypeName

/-- What follows the last dot. -/
def simple (path : String) : String :=
  String.ofList (Text.afterLast '.' path.toList)

/-- The simple name with an underscore for each dollar sign. -/
def schema (path : String) : String :=
  String.ofList ((Text.afterLast '.' path.toList).map fun c => if c = '$' then '_' else c)

/-- The name of a type of arrays. -/
def arraySuffix : String := "[]"

/-- The element type, if the name is that of an array type. -/
def arrayElement? (path : String) : Option String :=
  Text.stripTail? arraySuffix path

end ApiDocs.TypeName
