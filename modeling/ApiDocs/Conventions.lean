import ApiDocs.ReturnShape
import ApiDocs.Scalar
/-!
# Conventions

The names by which a service's framework is recognised: its sequences, pages, paging requests, root
type and void types. Every classification of a type goes through a table of conventions.
-/
namespace ApiDocs

structure Conventions where
  sequenceTypes : List String
  springPage : String
  xpage : String
  pageable : String
  sort : String
  xpageNation : String
  xorder : String
  rootType : String
  voidTypes : List String
  deriving DecidableEq, Repr

namespace Conventions

def default : Conventions where
  sequenceTypes :=
    ["java.util.List", "java.util.ArrayList", "java.util.LinkedList", "java.util.Collection",
     "java.util.Set"]
  springPage := "org.springframework.data.domain.Page"
  xpage := "one.axim.framework.core.data.XPage"
  pageable := "org.springframework.data.domain.Pageable"
  sort := "org.springframework.data.domain.Sort"
  xpageNation := "one.axim.framework.core.data.XPageNation"
  xorder := "one.axim.framework.core.data.XOrder"
  rootType := "java.lang.Object"
  voidTypes := ["void", "java.lang.Void"]

instance : Inhabited Conventions := ⟨default⟩

/-- Arrays and the listed containers. -/
def isSequence (c : Conventions) (path : String) : Bool :=
  Text.endsWith path TypeName.arraySuffix || c.sequenceTypes.contains path

/-- Scalar names that are no sequences. -/
def isScalar (c : Conventions) (path : String) : Bool :=
  !c.isSequence path && Scalar.isScalarName path

def pageKind? (c : Conventions) (path : String) : Option PageKind :=
  if path = c.springPage then some .spring
  else if path = c.xpage then some .xpage
  else none

def isVoid (c : Conventions) (path : String) : Bool :=
  c.voidTypes.contains path

/-- The types that carry pages, paging requests and orders. -/
def carriers (c : Conventions) : List String :=
  [c.springPage, c.xpage, c.pageable, c.sort, c.xpageNation, c.xorder]

def isCarrier (c : Conventions) (path : String) : Bool :=
  c.carriers.contains path

/-- A type with a model document of its own: neither scalar nor sequence nor carrier nor void. -/
def isModel (c : Conventions) (path : String) : Bool :=
  !c.isScalar path && !c.isSequence path && !c.isCarrier path && !c.isVoid path

def toJson (c : Conventions) : Json :=
  .obj
    [("sequenceTypes", .texts c.sequenceTypes), ("springPage", .str c.springPage),
     ("xpage", .str c.xpage), ("pageable", .str c.pageable), ("sort", .str c.sort),
     ("xpageNation", .str c.xpageNation), ("xorder", .str c.xorder),
     ("rootType", .str c.rootType), ("voidTypes", .texts c.voidTypes)]

def memberNames : List String :=
  ["sequenceTypes", "springPage", "xpage", "pageable", "sort", "xpageNation", "xorder", "rootType",
   "voidTypes"]

/-- Conventions that are left out keep their default. -/
def ofNode (n : Node) : Reading Conventions := do
  let r ← Record.ofNode memberNames n
  let text name value := r.withDefault name value Reading.text
  let texts name value := r.withDefault name value (Reading.list Reading.text)
  return {
    sequenceTypes := ← texts "sequenceTypes" default.sequenceTypes
    springPage := ← text "springPage" default.springPage
    xpage := ← text "xpage" default.xpage
    pageable := ← text "pageable" default.pageable
    sort := ← text "sort" default.sort
    xpageNation := ← text "xpageNation" default.xpageNation
    xorder := ← text "xorder" default.xorder
    rootType := ← text "rootType" default.rootType
    voidTypes := ← texts "voidTypes" default.voidTypes }

end Conventions

end ApiDocs
