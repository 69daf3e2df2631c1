import ApiDocs.TypeName
/-!
# Type expressions

A declared type: a qualified name with its type arguments, or a type variable, perhaps with a bound.
Array types keep their brackets in the name.
-/
namespace ApiDocs

structure TypeExpr where
  path : String
  args : List TypeExpr
  /-- Whether it is an unresolved type variable. -/
  isVariable : Bool
  /-- The declared upper bound of a variable. -/
  bound : Option String
  deriving Inhabited

namespace TypeExpr

mutual

/-- Whether two types are the same. -/
def decEq : (t u : TypeExpr) → Decidable (t = u)
  | ⟨path, args, isVariable, bound⟩, ⟨path', args', isVariable', bound'⟩ =>
    have := decEqList args args'
    decidable_of_iff (path = path' ∧ args = args' ∧ isVariable = isVariable' ∧ bound = bound') (by simp)

def decEqList : (ts us : List TypeExpr) → Decidable (ts = us)
  | [], [] => isTrue rfl
  | [], _ :: _ => isFalse nofun
  | _ :: _, [] => isFalse nofun
  | t :: ts, u :: us =>
    have := decEq t u
    have := decEqList ts us
    decidable_of_iff (t = u ∧ ts = us) (by simp)

end

instance : DecidableEq TypeExpr := decEq

/-- A type without arguments. -/
def named (path : String) : TypeExpr := ⟨path, [], false, none⟩

/-- A type with arguments. -/
def generic (path : String) (args : List TypeExpr) : TypeExpr := ⟨path, args, false, none⟩

/-- An unresolved type variable. -/
def unbound (name : String) : TypeExpr := ⟨name, [], true, none⟩

/-- The element type of an array type. -/
def arrayElement? (t : TypeExpr) : Option TypeExpr :=
  (TypeName.arrayElement? t.path).map named

/-- The raw name, if it is known: that of the bound for a variable. -/
def erasure? (t : TypeExpr) : Option String :=
  if t.isVariable then t.bound else some t.path

mutual

/-- The text of a type: its name, and its arguments in angle brackets. -/
def chars : TypeExpr → List Char
  | ⟨path, args, _, _⟩ => path.toList ++ argsChars args

/-- The arguments in angle brackets, nothing without arguments. -/
def argsChars : List TypeExpr → List Char
  | [] => []
  | t :: rest => '<' :: (chars t ++ moreArgsChars rest)

/-- The arguments after the first, and the closing bracket. -/
def moreArgsChars : List TypeExpr → List Char
  | [] => ['>']
  | t :: rest => ',' :: ' ' :: (chars t ++ moreArgsChars rest)

end

def text (t : TypeExpr) : String :=
  String.ofList t.chars

end TypeExpr

end ApiDocs
