import ApiDocs.Node
import ApiDocs.TypeExpr.Parser
/-!
# Type expressions in documents

A type is written as an object, without the members that say nothing. It is read from such an object
or from its text, at any level.
-/
namespace ApiDocs.TypeExpr

mutual

def toJson : TypeExpr → Json
  | ⟨path, args, isVariable, bound⟩ =>
    .obj (("path", .str path) :: (argsMember args ++ Json.whenTrue "variable" isVariable ++
      Json.present "bound" (bound.map .str)))

/-- The member for the arguments, if there are any. -/
def argsMember : List TypeExpr → List (String × Json)
  | [] => []
  | t :: rest => [("args", .list (toJson t :: listToJson rest))]

def listToJson : List TypeExpr → List Json
  | [] => []
  | t :: rest => toJson t :: listToJson rest

end

/-- The type that a text spells. -/
def ofText (s : String) : Reading TypeExpr :=
  match parse s with
  | .ok t => .ok t
  | .error .wideBlank => .error .wideBlank
  | .error _ => .error .form

/-- Reads a type of at most `fuel` levels. -/
def ofNodeWithin : Nat → Node → Reading TypeExpr
  | 0, _ => .error .form
  | fuel + 1, n =>
    match n with
    | .str s | .bare s => ofText s
    | n => do
      let r ← Record.byName ["path", "args", "variable", "bound"] n
      return {
        path := ← r.required "path" Reading.text
        args := ← r.listOrEmpty "args" (ofNodeWithin fuel)
        isVariable := ← r.flag "variable"
        bound := ← r.optional "bound" Reading.text }

/-- Reads a type. Every part of its node has to be readable. -/
def ofNode (n : Node) : Reading TypeExpr :=
  match n.json? with
  | none => .error .form
  | some _ => ofNodeWithin n.height n

end ApiDocs.TypeExpr
