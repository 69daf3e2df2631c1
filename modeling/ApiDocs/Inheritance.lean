import ApiDocs.Conventions
import ApiDocs.Facts.Source
/-!
# Inherited members

The members of a type are its own followed by those of each ancestor. The chain of ancestors ends
before the root type, a type without facts, or a type that it has passed already.
-/
namespace ApiDocs.Facts

/-- The members that the service does not leave out. -/
def TypeFacts.ownMembers (t : TypeFacts) : List Member :=
  t.members.filter fun m => !m.ignored

namespace Source

/-- The ancestors from `next` on that are not in `seen`; the number bounds the steps. -/
def ancestors (s : Source) (root : String) : Nat → List String → Option String → List TypeFacts
  | 0, _, _ => []
  | _, _, none => []
  | steps + 1, seen, some path =>
    if path = root ∨ path ∈ seen then []
    else match s.typeFacts path with
      | .ok t => t :: ancestors s root steps (path :: seen) t.superclass
      | .error _ => []

/-- A type and its ancestors. Distinct types of the source bound how long the chain can be. -/
def lineage (s : Source) (c : Conventions) (t : TypeFacts) : List TypeFacts :=
  t :: s.ancestors c.rootType (s.types.size + 1) [t.classPath] t.superclass

/-- The members of a type with all it inherits. -/
def membersOf (s : Source) (c : Conventions) (t : TypeFacts) : List Member :=
  (s.lineage c t).flatMap TypeFacts.ownMembers

/-- The members of the type of a class path; a fault without facts for it. -/
def declaredMembers (s : Source) (c : Conventions) (path : String) : Outcome (List Member) :=
  (s.typeFacts path).map (s.membersOf c)

end Source

end ApiDocs.Facts
