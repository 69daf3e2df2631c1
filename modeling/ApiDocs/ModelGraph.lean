import ApiDocs.Config
import ApiDocs.Inheritance
import ApiDocs.Text.Blank
import ApiDocs.TypeExpr.Classify
/-!
# The graph of models

Models refer to each other through their fields, in circles too. Resolving a class path makes the
models of all that can be reached from it. A class path is marked before its fields are looked at,
so each is resolved once; one without facts is recorded as a failure and disturbs nothing else.
-/
namespace ApiDocs

/-- The models made so far, all class paths ever met, and those that failed, with the reason. -/
structure Registry where
  models : Models
  visited : List String
  failures : List (String × String)

namespace Registry

def empty : Registry := ⟨Keyed.empty, [], []⟩

def isVisited (r : Registry) (path : String) : Bool :=
  r.visited.contains path

/-- Marks a class path. -/
def visit (r : Registry) (path : String) : Registry :=
  if r.isVisited path then r else { r with visited := r.visited ++ [path] }

def insert (r : Registry) (path : String) (model : Model) : Registry :=
  { r with models := r.models.put path model }

def fail (r : Registry) (path reason : String) : Registry :=
  { r with failures := r.failures ++ [(path, reason)] }

/-- Marks those paths that are new, and puts each of them on top of the pending ones. -/
def discover (r : Registry) (pending : List String) : List String → Registry × List String
  | [] => (r, pending)
  | path :: rest =>
    if r.isVisited path then r.discover pending rest
    else (r.visit path).discover (path :: pending) rest

end Registry

/-- Makes models of the types of a source. -/
structure Modeler where
  source : Facts.Source
  conventions : Conventions
  basePackages : List String

namespace Modeler

def ofConfig (source : Facts.Source) (config : Config) : Modeler :=
  ⟨source, config.conventions, config.basePackages⟩

/-- Whether a class path lies in a package. -/
def isInPackage (path package : String) : Bool :=
  Text.startsWith path (Text.dropEndChar '.' package ++ ".")

/-- Whether a class path is to be documented as a model. -/
def isWanted (m : Modeler) (path : String) : Bool :=
  m.conventions.isModel path &&
    (m.basePackages.isEmpty || m.basePackages.any (isInPackage path))

/-- The constants of an enumeration are fields that hold texts. -/
def constantField (c : Facts.Constant) : Field where
  name := c.name
  kind := .scalar "String"
  classPath := "java.lang.String"
  description := Text.trim c.comment
  isOptional := true
  page := none

/-- The field of a member. A page is a field of its content. -/
def memberField (c : Conventions) (member : Facts.Member) : Field :=
  let (kind, classPath, page) : FieldKind × String × Option PageKind :=
    match c.page? member.type with
    | some (page, content) => (.object, content, some page)
    | none =>
      let (kind, classPath) := c.fieldKind member.type member.isEnum
      (kind, classPath, none)
  { name := member.name, kind, classPath, description := Text.trim member.comment,
    isOptional := !member.required, page }

/-- The model of a type. -/
def modelOf (m : Modeler) (t : Facts.TypeFacts) : Model where
  name := TypeName.simple t.classPath
  kind := match t.kind with
    | .enum => .enum
    | .object => .object
  description := Text.trim t.comment
  fields := match t.kind with
    | .enum => (t.constants.filter fun c => !Facts.Constant.isSynthetic c.name).map constantField
    | .object => (m.source.membersOf m.conventions t).map (memberField m.conventions)

/-- The class paths that a model leads to. -/
def references (m : Modeler) (model : Model) : List String :=
  (model.fields.filter fun f => f.kind.isReference && m.isWanted f.classPath).map (·.classPath)

/-- Makes the models of the pending class paths, the last discovered first. The number bounds the
steps. -/
def run (m : Modeler) : Nat → Registry → List String → Registry
  | 0, r, _ => r
  | _, r, [] => r
  | steps + 1, r, path :: pending =>
    match m.source.typeFacts path with
    | .error fault => m.run steps (r.fail path fault.message) pending
    | .ok t =>
      let model := m.modelOf t
      let (r, pending) := r.discover pending (m.references model)
      m.run steps (r.insert path model) pending

/-- As many class paths can come up while one is resolved: itself, and each field of each type. -/
def stepBound (m : Modeler) : Nat :=
  m.source.types.total (fun t => (m.modelOf t).fields.length) + 1

/-- Resolves a class path and all that can be reached from it. -/
def resolve (m : Modeler) (r : Registry) (path : String) : Registry :=
  if !m.isWanted path || r.isVisited path then r
  else m.run m.stepBound (r.visit path) [path]

/-- Resolves some class paths, one after the other. -/
def resolveAll (m : Modeler) (paths : List String) : Registry :=
  paths.foldl m.resolve Registry.empty

end Modeler

end ApiDocs
