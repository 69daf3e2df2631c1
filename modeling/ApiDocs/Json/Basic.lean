import ApiDocs.Decimal
import ApiDocs.Keyed
/-!
# JSON values

A value keeps the members of an object in order. Whole numbers of 64 bits are kept exactly, all
other numbers as decimals of double precision.
-/
namespace ApiDocs

inductive Json where
  | null
  | bool (b : Bool)
  | int (i : Int)
  | float (x : Decimal)
  | str (s : String)
  | list (items : List Json)
  | obj (members : List (String × Json))
  deriving Inhabited

namespace Json

/-- A text, or null. -/
def text? : Option String → Json
  | some s => .str s
  | none => .null

/-- A list of texts. -/
def texts (ss : List String) : Json :=
  .list (ss.map .str)

/-- A member that is left out when there is no value. -/
def present (name : String) (value : Option Json) : List (String × Json) :=
  value.toList.map fun v => (name, v)

/-- A member that is left out when the list is empty. -/
def nonempty {α : Type} (name : String) (toJson : α → Json) (items : List α) :
    List (String × Json) :=
  if items.isEmpty then [] else [(name, .list (items.map toJson))]

/-- A member that is left out when it is false. -/
def whenTrue (name : String) (b : Bool) : List (String × Json) :=
  if b then [(name, .bool true)] else []

/-- An object from a keyed list. -/
def ofKeyed {α : Type} (toJson : α → Json) (m : Keyed α) : Json :=
  .obj (m.entries.map fun (k, v) => (k, toJson v))

/-- An object from a sorted list. -/
def ofSorted {α : Type} (toJson : α → Json) (m : Sorted α) : Json :=
  .obj (m.entries.map fun (k, v) => (k, toJson v))

end Json

end ApiDocs
