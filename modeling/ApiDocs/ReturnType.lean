import ApiDocs.TypeExpr.Classify
/-!
# Return types

A declared return type is an envelope around content. Types of one argument are taken off until a
sequence or a page is reached, whose argument is the content; whatever else is reached is plain
content.
-/
namespace ApiDocs

structure ReturnType where
  /-- The content; none when nothing is returned. -/
  content : Option String
  shape : ReturnShape
  /-- Whether a type variable stood where the content is named. -/
  ambiguous : Bool
  deriving DecidableEq, Repr

namespace ReturnType

def plain (content : String) : ReturnType := ⟨some content, .plain, false⟩

/-- The shape of a sequence or a page. -/
def terminalShape? (c : Conventions) (path : String) : Option ReturnShape :=
  if c.isSequence path then some .array
  else (c.pageKind? path).map .paged

/-- The content of a sequence or a page with these arguments. -/
def ofTerminal (c : Conventions) (path : String) (shape : ReturnShape) : List TypeExpr → ReturnType
  | [] => ⟨some c.rootType, shape, false⟩
  | arg :: _ =>
    if arg.isVariable then ⟨some (arg.bound.getD path), shape, true⟩
    else ⟨some arg.path, shape, false⟩

mutual

/-- Takes the envelopes off a type that stands in the envelope `outer`. -/
def peel (c : Conventions) (outer : String) : TypeExpr → ReturnType
  | ⟨path, args, isVariable, bound⟩ =>
    if isVariable then ⟨some (bound.getD outer), .plain, true⟩
    else if c.isVoid path then ⟨none, .plain, false⟩
    else match TypeName.arrayElement? path with
      | some element => ⟨some element, .array, false⟩
      | none =>
        match terminalShape? c path with
        | some shape => ofTerminal c path shape args
        | none => peelArguments c path args

/-- Goes on with a single argument; anything else leaves the type itself. -/
def peelArguments (c : Conventions) (path : String) : List TypeExpr → ReturnType
  | [inner] => peel c path inner
  | _ => plain path

end

/-- The content and shape of a declared return type. -/
def ofType (c : Conventions) (t : TypeExpr) : ReturnType :=
  peel c (c.erasedName t) t

end ReturnType

end ApiDocs
