import ApiDocs.Config
import ApiDocs.Definition
import ApiDocs.Inheritance
import ApiDocs.Text.Blank
import ApiDocs.TypeExpr.Classify
/-!
# The parameters of an endpoint

Each declared parameter adds documented parameters or a header under its declared name. A paging
request stands for several query parameters, and a query object for one per member.
-/
namespace ApiDocs.Endpoint

/-- A set of class paths, in order. -/
abbrev PathSet := Sorted Unit

namespace PathSet

def add (path : String) (s : PathSet) : PathSet :=
  Sorted.put path () s

def addAll (paths : List String) (s : PathSet) : PathSet :=
  paths.foldl (fun s p => add p s) s

def toList (s : PathSet) : List String :=
  s.keys

end PathSet

/-- What an endpoint is sent: parameters and headers by declared name, and the models that its
parameters refer to. -/
structure Inputs where
  parameters : Keyed Parameter
  headers : Keyed Header
  references : PathSet

namespace Inputs

def empty : Inputs := ⟨Keyed.empty, Keyed.empty, Sorted.empty⟩

def addParameter (i : Inputs) (key : String) (p : Parameter) : Inputs :=
  { i with parameters := i.parameters.put key p }

def addHeader (i : Inputs) (key : String) (h : Header) : Inputs :=
  { i with headers := i.headers.put key h }

def addReference (i : Inputs) (path : Option String) : Inputs :=
  { i with references := PathSet.addAll path.toList i.references }

end Inputs

/-! ## Paging -/

/-- A parameter of a paging request: a whole number or a text. -/
def pagingParameter (name typeName description : String) (defaultValue : Option String) :
    Parameter where
  name := name
  typeName := typeName
  classPath := if typeName = "int" then "java.lang.Integer" else "java.lang.String"
  description := description
  isOptional := true
  defaultValue := defaultValue
  location := .query
  isEnum := false
  isArray := false

/-- The parameters that stand for a Spring paging request. -/
def pageableParameters : List Parameter :=
  [pagingParameter "page" "int" "Page number (0-based)" (some "0"),
   pagingParameter "size" "int" "Page size" (some "20"),
   pagingParameter "sort" "String" "Sort criteria (e.g. property,asc|desc)" none]

/-- The parameters that stand for a paging request with declared defaults. -/
def pageDefaultParameters (page size offset : Nat) (column direction : Option String) :
    List Parameter :=
  let sort := column.map fun c => match direction with
    | some d => c ++ "," ++ d
    | none => c
  [pagingParameter "page" "int" "Page number" (some (toString page)),
   pagingParameter "size" "int" "Page size" (some (toString size)),
   pagingParameter "offset" "int" "size * page == offset"
     (if offset = 0 then none else some (toString offset)),
   pagingParameter "sort" "String" "Sort column and direction" sort]

/-- Adds parameters under their own names. -/
def Inputs.addNamed (i : Inputs) (ps : List Parameter) : Inputs :=
  ps.foldl (fun i p => i.addParameter p.name p) i

/-! ## Declared parameters -/

/-- A text that is not empty. -/
def nonEmpty (s : Option String) : Option String :=
  s.filter fun s => !s.isEmpty

/-- The query parameter of a member of a query object. -/
def memberParameter (c : Conventions) (m : Facts.Member) : Parameter :=
  let (classPath, isArray) := c.elementOf m.type m.isEnum
  { name := m.name
    typeName := c.parameterLabel m.type m.isEnum
    classPath
    description := Text.trim m.comment
    isOptional := !m.required
    defaultValue := none
    location := .query
    isEnum := m.isEnum
    isArray }

/-- Adds the members of a query object. -/
def Inputs.addMembers (c : Conventions) (i : Inputs) (members : List Facts.Member) : Inputs :=
  members.foldl (fun i m =>
    (i.addReference (c.modelReference? m.type m.isEnum)).addParameter m.name (memberParameter c m)) i

/-- The header of a parameter that is sent as one. -/
def headerOf (c : Conventions) (p : Facts.Parameter) (name : Option String) (required : Bool)
    (defaultValue : Option String) : Header where
  name := name.getD p.name
  typeName := c.parameterLabel p.type p.isEnum
  classPath := c.erasedName p.type
  description := ""
  isOptional := !required
  defaultValue := nonEmpty defaultValue

/-- The parameter of its own kind that a declared parameter is documented as. -/
def parameterOf (c : Conventions) (p : Facts.Parameter) : Parameter :=
  let (classPath, isArray) := c.elementOf p.type p.isEnum
  let (location, name, isOptional, defaultValue) :
      Location × Option String × Bool × Option String :=
    match p.binding with
    | .path name required => (.path, nonEmpty name, !required, none)
    | .query name required value => (.query, nonEmpty name, !required, nonEmpty value)
    | .body => (.body, none, false, none)
    | _ => (.query, none, false, none)
  { name := name.getD p.name
    typeName := c.parameterLabel p.type p.isEnum
    classPath
    description := ""
    isOptional
    defaultValue
    location
    isEnum := p.isEnum
    isArray }

/-- Adds what a declared parameter stands for. Only a query object without facts is a fault. -/
def Inputs.add (s : Facts.Source) (c : Conventions) (i : Inputs) (p : Facts.Parameter) :
    Outcome Inputs :=
  if c.erasedName p.type = c.pageable then .ok (i.addNamed pageableParameters)
  else match p.binding with
    | .header name required value => .ok (i.addHeader p.name (headerOf c p name required value))
    | .pageDefaults page size offset column direction =>
      .ok (i.addNamed (pageDefaultParameters page size offset column direction))
    | .queryObject =>
      match s.declaredMembers c (c.erasedName p.type) with
      | .ok members => .ok (i.addMembers c members)
      | .error fault => .error fault
    | _ => .ok ((i.addReference (c.modelReference? p.type p.isEnum)).addParameter p.name
        (parameterOf c p))

/-- Adds declared parameters up to the first that is a fault. -/
def Inputs.addAll (s : Facts.Source) (c : Conventions) (i : Inputs) :
    List Facts.Parameter → Inputs × Option Fault
  | [] => (i, none)
  | p :: rest =>
    match i.add s c p with
    | .ok i => i.addAll s c rest
    | .error fault => (i, some fault)

end ApiDocs.Endpoint
