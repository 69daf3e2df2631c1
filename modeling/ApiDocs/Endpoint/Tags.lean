import ApiDocs.Endpoint.Parameters
import ApiDocs.ErrorCatalog
/-!
# Comment tags

The tags of a handler's comment describe its parameters, its group, its responses and its errors.
-/
namespace ApiDocs.Endpoint

/-- What the tags and the declared exceptions of a handler say about it. -/
structure Summary where
  returnDescription : String
  responses : Sorted String
  hasResponseTag : Bool
  group : Option String
  className : String
  needsSession : Bool
  errors : List ErrorGroup

namespace Summary

def empty : Summary := ⟨"", Sorted.empty, false, none, "", false, []⟩

/-- Links the group of an exception, each once. -/
def linkError (catalog : ErrorCatalog) (s : Summary) (exception : String) : Summary :=
  match catalog.get? exception with
  | none => s
  | some group =>
    if s.errors.any fun e => e.exception == group.exception then s
    else { s with errors := s.errors ++ [group] }

end Summary

/-- The constants of an enumeration as they are added to a description. -/
def enumListing (s : Facts.Source) (classPath : String) : String :=
  match s.typeFacts classPath with
  | .ok facts => " ( " ++ Text.join " | " facts.constantNames ++ " )"
  | .error _ => ""

/-- Describes the parameter or else the header that was declared under a name. -/
def Inputs.describe (s : Facts.Source) (i : Inputs) (name description : String) : Inputs :=
  match i.parameters.get? name with
  | some p =>
    let listing := if p.isEnum then enumListing s p.classPath else ""
    i.addParameter name { p with description := description ++ listing }
  | none =>
    match i.headers.get? name with
    | some h => i.addHeader name { h with description }
    | none => i

/-- A header that only a tag mentions. -/
def taggedHeader (name description : String) : Header :=
  { Header.ofText name description with defaultValue := some "" }

/-- Takes in one tag. -/
def applyTag (source : Facts.Source) (catalog : ErrorCatalog) (state : Inputs × Summary)
    (t : Facts.Tag) : Inputs × Summary :=
  let (i, s) := state
  let name := t.nameText
  let value := t.valueText
  match t.tag with
  | "param" => (i.describe source name value, s)
  | "return" => (i, { s with returnDescription := value })
  | "response" =>
    if name.isEmpty then state
    else (i, { s with hasResponseTag := true, responses := s.responses.put name value })
  | "group" => if value.isEmpty then state else (i, { s with group := some value })
  | "auth" => if value = "true" then (i, { s with needsSession := true }) else state
  | "header" => if name.isEmpty then state else (i.addHeader name (taggedHeader name value), s)
  | "className" => (i, { s with className := value })
  | "error" | "throws" => (i, s.linkError catalog name)
  | _ => state

end ApiDocs.Endpoint
