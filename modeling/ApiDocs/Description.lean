import ApiDocs.Conventions
import ApiDocs.Definition
import ApiDocs.Model
import ApiDocs.Text.Blank
/-!
# Descriptions

The Markdown text that stands beside an endpoint: its own description, tables of its path and query
parameters, and a table for each model that is reached from its body and from what it returns.
-/
namespace ApiDocs.Description

/-- What a character is in a cell of a table. -/
def escapeCellChars : List Char → List Char
  | [] => []
  | '\r' :: '\n' :: rest => "<br/>".toList ++ escapeCellChars rest
  | c :: rest =>
    if c = '|' then '\\' :: '|' :: escapeCellChars rest
    else if c = '\n' then "<br/>".toList ++ escapeCellChars rest
    else c :: escapeCellChars rest

/-- A text made safe for a cell: bars are escaped and line ends become breaks. -/
def escapeCell (s : String) : String :=
  String.ofList (escapeCellChars s.toList)

/-! ## Rows -/

/-- A parameter as it is shown. -/
structure ParameterRow where
  name : String
  typeName : String
  required : Bool
  defaultValue : String
  description : String
  deriving DecidableEq, Repr

/-- A field as it is shown. -/
structure FieldRow where
  name : String
  typeName : String
  required : Bool
  description : String
  deriving DecidableEq, Repr

/-- A type that holds values of another. -/
def applied (outer inner : String) : String :=
  outer ++ "<" ++ TypeName.simple inner ++ ">"

/-- The type of a parameter as it is shown. -/
def parameterType (p : Parameter) : String :=
  if p.isArray then applied "List" p.classPath
  else if p.typeName = "Object" then TypeName.simple p.classPath
  else p.typeName

def pathRow (p : Parameter) : ParameterRow :=
  ⟨p.name, parameterType p, true, "", p.description⟩

/-- The rows that stand for a paging request. -/
def pagingRows : List ParameterRow :=
  [⟨"size", "Integer", false, "10", "Page size"⟩, ⟨"page", "Integer", false, "1", "Page number"⟩]

/-- The rows of a query parameter. -/
def queryRows (c : Conventions) (p : Parameter) : List ParameterRow :=
  if p.classPath = c.xpageNation then pagingRows
  else [⟨p.name, parameterType p, !p.isOptional, p.defaultValue.getD "", p.description⟩]

/-- The type of a field as it is shown. -/
def fieldType (f : Field) : String :=
  match f.page, f.kind with
  | some kind, _ => applied kind.schemaLead f.classPath
  | none, .scalar name => name
  | none, .object => TypeName.simple f.classPath
  | none, .array => applied "List" f.classPath
  | none, .enum => "Enum"

/-- The description of a field, with the constants of its enumeration. -/
def fieldDescription (models : Models) (f : Field) : String :=
  match f.kind, models.get? f.classPath with
  | .enum, some m =>
    let listing := "( " ++ Text.join " | " m.constants ++ " )"
    if f.description.isEmpty then listing else f.description ++ " " ++ listing
  | _, _ => f.description

def fieldRow (models : Models) (f : Field) : FieldRow :=
  ⟨f.name, fieldType f, !f.isOptional, fieldDescription models f⟩

/-! ## Tables -/

def yesNo (b : Bool) : String :=
  if b then "Y" else "N"

/-- A line of a table. -/
def tableLine (cells : List String) : String :=
  "| " ++ Text.join " | " cells ++ " |\n"

def parameterLine (r : ParameterRow) : String :=
  tableLine [r.name, r.typeName, yesNo r.required, escapeCell r.defaultValue,
    escapeCell r.description]

def fieldLine (r : FieldRow) : String :=
  tableLine [r.name, r.typeName, yesNo r.required, escapeCell r.description]

/-- A table of parameters; nothing without rows. -/
def parameterTable (title : String) (rows : List ParameterRow) : String :=
  if rows.isEmpty then ""
  else
    "#### " ++ title ++ "\n\n" ++
    tableLine ["Name", "Type", "Required", "Default", "Description"] ++
    "|------|------|----------|---------|-------------|\n" ++
    String.join (rows.map parameterLine) ++ "\n"

/-- A table of the fields of a model. -/
def modelTable (models : Models) (title : String) (m : Model) : String :=
  "#### " ++ title ++ " : " ++ m.name ++ "\n" ++
  (if m.description.isEmpty then "" else "\n" ++ escapeCell m.description ++ "\n") ++ "\n" ++
  tableLine ["Field", "Type", "Required", "Description"] ++
  "|-------|------|----------|-------------|\n" ++
  String.join (m.fields.map fun f => fieldLine (fieldRow models f)) ++ "\n"

/-! ## Reachable models -/

/-- The class paths of the fields of a model that hold objects. -/
def objectFields (m : Model) : List String :=
  (m.fields.filter fun f => f.kind == .object || f.kind == .array).map (·.classPath)

/-- The object models that a queue of class paths leads to, breadth first, without those in `seen`.
The number bounds the steps. -/
def explore (models : Models) : Nat → List String → List String → List Model
  | 0, _, _ => []
  | _, _, [] => []
  | steps + 1, seen, path :: queue =>
    match models.get? path with
    | none => explore models steps seen queue
    | some m =>
      if m.isEnum || seen.contains path then explore models steps seen queue
      else m :: explore models steps (path :: seen) (queue ++ objectFields m)

/-- The object models that can be reached from a class path, itself first, each once. The queue
holds the root and the fields of each model once. -/
def reachable (models : Models) (root : String) : List Model :=
  explore models (models.total (fun m => m.fields.length) + 2) [] [root]

/-- A table for each model that can be reached. -/
def modelTables (models : Models) (title root : String) : String :=
  String.join ((reachable models root).map (modelTable models title))

/-- The description of an endpoint. -/
def describe (c : Conventions) (models : Models) (d : Definition) : String :=
  let own := Text.trim d.description
  (if own.isEmpty then "" else own ++ "\n\n") ++
  parameterTable "Path Parameters" ((d.parametersIn .path).map pathRow) ++
  parameterTable "Query Parameters" ((d.parametersIn .query).flatMap (queryRows c)) ++
  (match d.body? with
    | some p => modelTables models "Request" p.classPath
    | none => "") ++
  (match d.returnClass with
    | some path => modelTables models "Response" path
    | none => "")

end ApiDocs.Description
