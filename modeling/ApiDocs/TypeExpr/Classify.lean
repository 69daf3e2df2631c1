import ApiDocs.Conventions
import ApiDocs.Model
import ApiDocs.TypeExpr.Basic
/-!
# Classifying declared types

What the conventions of a service make of a declared type: the kind of a field, the label of a
parameter, the page it is, and the model it refers to.
-/
namespace ApiDocs.Conventions

/-- The raw name of a type; a variable without a bound has that of the root type. -/
def erasedName (c : Conventions) (t : TypeExpr) : String :=
  t.erasure?.getD c.rootType

/-- The raw name of the first argument, or the root type without arguments. -/
def firstArgument (c : Conventions) (t : TypeExpr) : String :=
  match t.args with
  | [] => c.rootType
  | arg :: _ => c.erasedName arg

/-- The kind of a member of the type, with the class path of its elements if it is a sequence. -/
def fieldKind (c : Conventions) (t : TypeExpr) (isEnum : Bool) : FieldKind × String :=
  match t.arrayElement? with
  | some element => (.array, element.path)
  | none =>
    let path := c.erasedName t
    if c.isSequence path then (.array, c.firstArgument t)
    else if isEnum then (.enum, path)
    else if c.isScalar path then (.scalar (TypeName.simple path), path)
    else (.object, path)

/-- The page that the type is, with the class path of its content. -/
def page? (c : Conventions) (t : TypeExpr) : Option (PageKind × String) :=
  (c.pageKind? (c.erasedName t)).map fun kind => (kind, c.firstArgument t)

/-- The label of a parameter of the type. -/
def parameterLabel (c : Conventions) (t : TypeExpr) (isEnum : Bool) : String :=
  let path := c.erasedName t
  if t.arrayElement?.isSome || c.isSequence path then "Array"
  else if c.isScalar path then TypeName.simple path
  else if isEnum then "Enum"
  else "Object"

/-- The model that the type makes reachable. -/
def modelReference? (c : Conventions) (t : TypeExpr) (isEnum : Bool) : Option String :=
  match c.page? t with
  | some (_, content) => if c.isModel content then some content else none
  | none =>
    let (kind, path) := c.fieldKind t isEnum
    if kind.isReference && c.isModel path then some path else none

/-- The class path that a parameter of the type is documented with, and whether it is a sequence of
that class. -/
def elementOf (c : Conventions) (t : TypeExpr) (isEnum : Bool) : String × Bool :=
  match c.fieldKind t isEnum with
  | (.array, element) => (element, true)
  | _ => (c.erasedName t, false)

end ApiDocs.Conventions
