import ApiDocs.Json.Basic
import ApiDocs.TypeName
/-!
# Scalar types

The types that documents write as a plain value: which names they have, and what they are called in
a schema and in a request collection.
-/
namespace ApiDocs.Scalar

/-- The type and format of a scalar in a schema. -/
structure Schema where
  type : String
  format : Option String
  deriving DecidableEq, Repr

def Schema.toJson (s : Schema) : Json :=
  .obj (("type", .str s.type) :: Json.present "format" (s.format.map .str))

/-- The schemas of the simple names that are not written as plain strings. -/
def schemaTable : List (List String × Schema) :=
  [(["int", "Integer", "short", "Short", "byte", "Byte"], ⟨"integer", some "int32"⟩),
   (["long", "Long"], ⟨"integer", some "int64"⟩),
   (["float", "Float"], ⟨"number", some "float"⟩),
   (["double", "Double"], ⟨"number", some "double"⟩),
   (["boolean", "Boolean"], ⟨"boolean", none⟩),
   (["BigDecimal", "BigInteger"], ⟨"number", none⟩),
   (["Date", "LocalDateTime", "LocalDate", "Instant", "ZonedDateTime", "OffsetDateTime"],
    ⟨"string", some "date-time"⟩)]

/-- The schema of a type name; all names not listed are strings. -/
def schemaOf (typeName : String) : Schema :=
  match schemaTable.find? fun row => row.1.contains (TypeName.simple typeName) with
  | some row => row.2
  | none => ⟨"string", none⟩

/-- The names under which a request collection lists values. -/
def collectionTable : List (List String × String) :=
  [(["boolean", "Boolean"], "boolean"),
   (["int", "Integer", "short", "Short", "long", "Long", "float", "Float", "double", "Double",
     "BigDecimal", "byte[]"], "number"),
   (["Array"], "Array")]

/-- The name of a type in a request collection; all names not listed are strings. -/
def collectionType (typeName : String) : String :=
  match collectionTable.find? fun row => row.1.contains (TypeName.simple typeName) with
  | some row => row.2
  | none => "string"

/-- The packages whose types are all scalar. -/
def scalarPackages : List String :=
  ["java.lang.", "java.math.", "java.time.", "java.util."]

/-- Names of those packages, names without a package, and response envelopes. -/
def isScalarName (path : String) : Bool :=
  scalarPackages.any (Text.startsWith path) || !path.toList.contains '.' ||
    Text.contains path "ResponseEntity"

end ApiDocs.Scalar
