import ApiDocs.Definition
import ApiDocs.Literal
import ApiDocs.OpenApi.Components
import ApiDocs.OpenApi.Document
import ApiDocs.Service
import ApiDocs.Text.Blank
/-!
# Rendering OpenAPI documents

Every definition becomes the operation of one path and method, and every type it refers to a
component. Two definitions of one path and method, a method that the format does not know, and two
owners of one component name are faults.
-/
namespace ApiDocs.OpenApi

/-- What documents are rendered from beside the definitions. -/
structure Context where
  service : Service
  conventions : Conventions
  models : Models

def formatVersion : String := "3.0.3"

/-- The name of the scheme of requests with a token. -/
def keyScheme : String := "ApiKeyAuth"

/-- A text without blanks at its ends, unless nothing is left of it. -/
def shown (s : String) : Option String :=
  if (Text.trim s).isEmpty then none else some (Text.trim s)

/-! ## Parameters -/

/-- The schema of one value of a parameter. The constants of an enumeration are listed in place. -/
def elementSchema (ctx : Context) (p : ApiDocs.Parameter) : SchemaRef :=
  if p.isEnum then
    let constants := ((ctx.models.get? p.classPath).map Model.constants).getD []
    .inline { Schema.enumeration constants with defaultValue := p.defaultValue.map .str }
  else if ctx.conventions.isScalar p.classPath then
    let s := Scalar.schemaOf p.classPath
    .inline { Schema.scalar s with defaultValue := p.defaultValue.map (Literal.valueOf s.type) }
  else contentSchema ctx.conventions p.classPath

/-- The owners that a parameter refers to. An enumeration has a component although its constants are
listed in place. -/
def parameterOwners (ctx : Context) (p : ApiDocs.Parameter) : List Owner :=
  if p.isEnum then [.model p.classPath] else contentOwners ctx.conventions p.classPath

def parameterSchema (ctx : Context) (p : ApiDocs.Parameter) : SchemaRef :=
  SchemaRef.listed (elementSchema ctx p) p.isArray

def pathParameter (ctx : Context) (p : ApiDocs.Parameter) : Parameter :=
  ⟨p.name, "path", shown p.description, true, parameterSchema ctx p⟩

/-- A parameter of a paging request. -/
def pagingParameter (name description : String) (value : Int) : Parameter where
  name := name
  location := "query"
  description := some description
  required := false
  schema := .inline
    { Schema.scalar ⟨"integer", some "int32"⟩ with defaultValue := some (.int value) }

/-- The parameters that stand for a paging request. -/
def pagingParameters : List Parameter :=
  [pagingParameter "size" "Page size" 10, pagingParameter "page" "Page number" 1]

/-- Whether a query parameter is a paging request, which stands for parameters of its own. -/
def isPagingRequest (ctx : Context) (p : ApiDocs.Parameter) : Bool :=
  p.classPath == ctx.conventions.xpageNation

def queryParameters (ctx : Context) (p : ApiDocs.Parameter) : List Parameter :=
  if isPagingRequest ctx p then pagingParameters
  else [⟨p.name, "query", shown p.description, !p.isOptional, parameterSchema ctx p⟩]

def queryOwners (ctx : Context) (p : ApiDocs.Parameter) : List Owner :=
  if isPagingRequest ctx p then [] else parameterOwners ctx p

def headerParameter (h : Header) : Parameter :=
  ⟨h.name, "header", shown h.description, !h.isOptional,
    .inline { Schema.ofType "string" with defaultValue := h.defaultValue.map .str }⟩

/-! ## Responses -/

def returnSchema (ctx : Context) (shape : ReturnShape) (path : String) : SchemaRef :=
  match shape with
  | .plain => contentSchema ctx.conventions path
  | .array => .inline (Schema.array (contentSchema ctx.conventions path))
  | .paged kind => .component (Owner.page kind path).name

def returnOwners (ctx : Context) (shape : ReturnShape) (path : String) : List Owner :=
  match shape with
  | .paged kind => pageOwners ctx.conventions kind path
  | _ => contentOwners ctx.conventions path

/-- Whether a status code tells of success. -/
def isSuccess (code : String) : Bool :=
  Text.startsWith code "2"

/-- The content of a response: what the endpoint returns, if the status tells of success. -/
def responseContent (ctx : Context) (d : Definition) (code : String) : Content :=
  match d.returnClass with
  | some path =>
    if isSuccess code then Content.json (returnSchema ctx d.returnShape path) else Keyed.empty
  | none => Keyed.empty

def responsesOf (ctx : Context) (d : Definition) : Keyed Response :=
  Keyed.ofList (d.responses.entries.map fun (code, description) =>
    (code, ⟨description, responseContent ctx d code⟩))

def responseOwners (ctx : Context) (d : Definition) : List Owner :=
  match d.returnClass with
  | some path =>
    d.responses.entries.flatMap fun r =>
      if isSuccess r.1 then returnOwners ctx d.returnShape path else []
  | none => []

/-! ## Operations -/

def bodyOf (ctx : Context) (p : ApiDocs.Parameter) : RequestBody :=
  ⟨shown p.description,
    Content.json (SchemaRef.listed (contentSchema ctx.conventions p.classPath) p.isArray), true⟩

/-- What a definition that needs a session requires, if the service has tokens. -/
def securityOf (ctx : Context) (d : Definition) : List Requirement :=
  if d.needsSession && ctx.service.tokenAuth?.isSome then [Keyed.empty.put keyScheme []] else []

/-- The operation of a definition. -/
def operationOf (ctx : Context) (d : Definition) : Operation where
  summary := d.name
  description := d.description
  tags := [d.group]
  id := d.id
  parameters :=
    (d.parametersIn .path).map (pathParameter ctx) ++
    (d.parametersIn .query).flatMap (queryParameters ctx) ++
    (Header.merge d.headers ctx.service.headers).map headerParameter
  body := d.body?.map (bodyOf ctx)
  responses := responsesOf ctx d
  security := securityOf ctx d

/-- The owners that an operation refers to, in the order in which it is written. -/
def operationOwners (ctx : Context) (d : Definition) : List Owner :=
  (d.parametersIn .path).flatMap (parameterOwners ctx) ++
  (d.parametersIn .query).flatMap (queryOwners ctx) ++
  (match d.body? with
    | some p => contentOwners ctx.conventions p.classPath
    | none => []) ++
  responseOwners ctx d

/-! ## The document -/

/-- The path of a definition: its route below the version of the service. -/
def pathOf (ctx : Context) (d : Definition) : String :=
  "/" ++ ctx.service.version ++ d.urlMapping

/-- The rendering so far: the operations, who has which path and method, the groups, and the claimed
components. -/
structure Draft where
  paths : Keyed PathItem
  taken : List ((String × String) × String)
  groups : Keyed Unit
  claims : Claims

namespace Draft

def empty : Draft := ⟨Keyed.empty, [], Keyed.empty, Claims.empty⟩

/-- Takes in a definition. -/
def add (ctx : Context) (draft : Draft) (d : Definition) : Outcome Draft :=
  let path := pathOf ctx d
  let key := (path, Text.lowerAscii d.method)
  match draft.taken.lookup key with
  | some first => .error (.duplicateOperation d.method path first d.name)
  | none =>
    match draft.claims.claimAll (operationOwners ctx d) with
    | .error fault => .error fault
    | .ok claims =>
      match Method.ofName? d.method with
      | none =>
        .error (.generation ("Unsupported HTTP method '" ++ d.method ++ "' for " ++ path))
      | some m =>
        .ok
          { paths := draft.paths.alter path fun item =>
              (item.getD PathItem.empty).set m (operationOf ctx d)
            taken := (key, d.name) :: draft.taken
            groups := draft.groups.put d.group ()
            claims }

/-- Takes in some definitions, up to the first fault. -/
def addAll (ctx : Context) (draft : Draft) : List Definition → Outcome Draft
  | [] => .ok draft
  | d :: rest =>
    match draft.add ctx d with
    | .ok draft => draft.addAll ctx rest
    | .error fault => .error fault

end Draft

def securitySchemes (s : Service) : Keyed SecurityScheme :=
  match s.tokenAuth? with
  | some a => Keyed.empty.put keyScheme ⟨"apiKey", "header", a.headerKey, shown a.description⟩
  | none => Keyed.empty

/-- The schemas of a sorted list, as a keyed one. -/
def keyedOfSorted {α : Type} (m : Sorted α) : Keyed α where
  entries := m.entries
  distinct := m.ordered.imp fun h e => absurd (e ▸ h) (String.lt_irrefl _)

/-- The document of a finished draft. -/
def Draft.document (ctx : Context) (draft : Draft) (claims : Claims) : Document where
  version := formatVersion
  info := ⟨ctx.service.displayName, ctx.service.version, shown ctx.service.introduction⟩
  servers := (shown ctx.service.serverUrl).toList.map fun url => ⟨url, none⟩
  tags := draft.groups.keys
  paths := draft.paths
  components :=
    { schemas := keyedOfSorted (claims.schemas ctx.conventions ctx.models)
      securitySchemes := securitySchemes ctx.service }

/-- The document of some definitions. -/
def render (ctx : Context) (ds : List Definition) : Outcome Document :=
  match Draft.empty.addAll ctx ds with
  | .error fault => .error fault
  | .ok draft =>
    match draft.claims.close ctx.conventions ctx.models with
    | .error fault => .error fault
    | .ok claims => .ok (draft.document ctx claims)

end ApiDocs.OpenApi
