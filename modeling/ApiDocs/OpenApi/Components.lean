import ApiDocs.Conventions
import ApiDocs.Fault
import ApiDocs.Model
import ApiDocs.OpenApi.Schema
/-!
# Component schemas

A component belongs to an owner: a model, or the page of a content type. What a schema refers to
depends on nothing but the types in it, so the schemas are plain functions of the models; which
components a document needs is found by claiming the name of each owner that is referred to, in the
order in which it is met. A second owner of a claimed name is a fault.
-/
namespace ApiDocs.OpenApi

/-- What a component describes. -/
inductive Owner where
  | model (path : String)
  | page (kind : PageKind) (path : String)
  deriving DecidableEq, Repr

namespace Owner

/-- The name of the owner's component. -/
def name : Owner → String
  | .model path => TypeName.schema path
  | .page kind path => kind.schemaLead ++ "_" ++ TypeName.schema path

/-- How the owner is called in a report. -/
def text : Owner → String
  | .model path => path
  | .page kind path => kind.schemaLead ++ "<" ++ path ++ ">"

end Owner

/-! ## Schemas of carriers and pages -/

def int32 : SchemaRef := .inline (Schema.scalar ⟨"integer", some "int32"⟩)
def int64 : SchemaRef := .inline (Schema.scalar ⟨"integer", some "int64"⟩)
def boolean : SchemaRef := .inline (Schema.ofType "boolean")
def string : SchemaRef := .inline (Schema.ofType "string")

def sortSchema : Schema :=
  Schema.object [("sorted", boolean), ("unsorted", boolean), ("empty", boolean)]

def orderSchema : Schema :=
  Schema.object [("column", string), ("direction", string)]

/-- A list of orders. -/
def ordersSchema : SchemaRef := .inline (Schema.array (.inline orderSchema))

/-- The schema of a page around its content, with the simple name of the content. -/
def pageSchema (kind : PageKind) (content : SchemaRef) (label : String) : Schema :=
  match kind with
  | .spring =>
    (Schema.object
      [("content", .inline (Schema.array content)), ("totalElements", int64),
       ("totalPages", int32), ("size", int32), ("number", int32), ("numberOfElements", int32),
       ("first", boolean), ("last", boolean), ("empty", boolean),
       ("sort", .inline sortSchema)]).describe ("Page of " ++ label)
  | .xpage =>
    (Schema.object
      [("page", int32), ("size", int32), ("offset", int32), ("hasNext", boolean),
       ("totalCount", int64), ("sort", string), ("orders", ordersSchema),
       ("pageRows", .inline (Schema.array content))]).describe ("XPage of " ++ label)

/-- The schema of a paging request or an order. -/
def carrierSchema? (c : Conventions) (path : String) : Option Schema :=
  if path = c.sort then some sortSchema
  else if path = c.xorder then some orderSchema
  else if path = c.pageable then
    some (Schema.object [("page", int32), ("size", int32), ("sort", .inline sortSchema)])
  else if path = c.xpageNation then
    some (Schema.object [("page", int32), ("size", int32), ("offset", int32), ("sort", string),
      ("orders", ordersSchema)])
  else none

/-! ## Schemas of types -/

/-- The schema of a class: scalars and carriers in place, all else by reference. -/
def contentSchema (c : Conventions) (path : String) : SchemaRef :=
  if c.isScalar path then .inline (Schema.scalar (Scalar.schemaOf path))
  else match carrierSchema? c path with
    | some s => .inline s
    | none => .component (Owner.model path).name

/-- The owners that the schema of a class refers to. -/
def contentOwners (c : Conventions) (path : String) : List Owner :=
  if c.isScalar path then []
  else match carrierSchema? c path with
    | some _ => []
    | none => [.model path]

/-- The owners that the page of a class refers to: its own component, and that of its content. -/
def pageOwners (c : Conventions) (kind : PageKind) (path : String) : List Owner :=
  .page kind path :: contentOwners c path

/-- The schema of a field. -/
def fieldSchema (c : Conventions) (f : Field) : SchemaRef :=
  match f.kind, f.page with
  | .scalar _, _ => .inline ((Schema.scalar (Scalar.schemaOf f.classPath)).describe f.description)
  | .array, _ => .inline ((Schema.array (contentSchema c f.classPath)).describe f.description)
  | _, some kind =>
    (SchemaRef.component (Owner.page kind f.classPath).name).describe f.description
  | _, none => (contentSchema c f.classPath).describe f.description

/-- The owners that the schema of a field refers to. -/
def fieldOwners (c : Conventions) (f : Field) : List Owner :=
  match f.kind, f.page with
  | .scalar _, _ => []
  | .array, _ => contentOwners c f.classPath
  | _, some kind => pageOwners c kind f.classPath
  | _, none => contentOwners c f.classPath

/-- The schema of a model: its constants, or its fields. -/
def modelSchema (c : Conventions) (m : Model) : Schema :=
  if m.isEnum then (Schema.enumeration m.constants).describe m.description
  else
    { (Schema.object (m.fields.map fun f => (f.name, fieldSchema c f))).describe m.description with
      required := (m.fields.filter fun f => !f.isOptional).map (·.name) }

/-- The owners that the schema of a model refers to. -/
def modelOwners (c : Conventions) (m : Model) : List Owner :=
  if m.isEnum then [] else m.fields.flatMap (fieldOwners c)

namespace Owner

/-- The schema of an owner; that of a model that is not there is any object. -/
def schema (c : Conventions) (models : Models) : Owner → Schema
  | .model path =>
    match models.get? path with
    | some m => modelSchema c m
    | none => Schema.ofType "object"
  | .page kind path => pageSchema kind (contentSchema c path) (TypeName.simple path)

end Owner

/-! ## Claiming -/

/-- The owners of a document in the order in which their names were claimed, and the models among
them that have still to be looked into, the last one first. -/
structure Claims where
  owners : List Owner
  pending : List String

namespace Claims

def empty : Claims := ⟨[], []⟩

/-- Claims the name of an owner, unless it has it already. -/
def claim (cs : Claims) (o : Owner) : Outcome Claims :=
  match cs.owners.find? fun p => p.name == o.name with
  | some p =>
    if p = o then .ok cs else .error (.schemaNameCollision o.name p.text o.text)
  | none =>
    let pending := match o with
      | .model path => path :: cs.pending
      | .page _ _ => cs.pending
    .ok ⟨cs.owners ++ [o], pending⟩

/-- Claims the names of some owners, up to the first fault. -/
def claimAll (cs : Claims) : List Owner → Outcome Claims
  | [] => .ok cs
  | o :: rest =>
    match cs.claim o with
    | .ok cs => cs.claimAll rest
    | .error fault => .error fault

/-- The owners that a pending model refers to. -/
def reached (c : Conventions) (models : Models) (path : String) : List Owner :=
  match models.get? path with
  | some m => modelOwners c m
  | none => []

/-- Claims what the pending models refer to, until none is pending. The number bounds the steps. -/
def closeWithin (c : Conventions) (models : Models) : Nat → Claims → Outcome Claims
  | 0, cs => .ok cs
  | steps + 1, cs =>
    match cs.pending with
    | [] => .ok cs
    | path :: pending =>
      match (⟨cs.owners, pending⟩ : Claims).claimAll (reached c models path) with
      | .ok cs => closeWithin c models steps cs
      | .error fault => .error fault

/-- Claims all that can be reached from the pending models. No more models can come up than are
pending and than there are fields. -/
def close (c : Conventions) (models : Models) (cs : Claims) : Outcome Claims :=
  closeWithin c models (cs.pending.length + models.total (fun m => m.fields.length) + 1) cs

/-- The schemas of the owners, in the order of their names. -/
def schemas (c : Conventions) (models : Models) (cs : Claims) : Sorted Schema :=
  Sorted.ofList (cs.owners.map fun o => (o.name, o.schema c models))

end Claims

end ApiDocs.OpenApi
