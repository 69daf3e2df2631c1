import ApiDocs.Node
/-!
# Faults

Everything that can go wrong in a run, and how it is reported.
-/
namespace ApiDocs

inductive Fault where
  /-- A text that cannot be taken in. -/
  | parse (text : String)
  /-- A document that cannot be made. -/
  | generation (text : String)
  /-- A fact that is missing or unusable. -/
  | resolution (text : String)
  /-- Two owners of one schema name. -/
  | schemaNameCollision (name first second : String)
  /-- Two endpoints of one method and path. -/
  | duplicateOperation (method path first second : String)
  /-- The remote workspace refused. -/
  | remote (text : String)
  | template (text : String)
  | io (text : String)
  /-- A JSON text that is not well formed or does not fit its type. -/
  | json
  /-- A YAML text that is not well formed or does not fit its type. -/
  | yaml
  /-- A type text with a blank beyond ASCII where blanks are passed over byte by byte. -/
  | wideBlank
  deriving DecidableEq, Repr

abbrev Outcome (α : Type) := Except Fault α

theorem Outcome.toOption_eq_some_iff {α : Type} {x : Outcome α} {a : α} : x.toOption = some a ↔ x = .ok a := by
  cases x <;> simp [Except.toOption]

namespace Fault

/-- The report of a fault. -/
def message : Fault → String
  | .parse text => "Parse error: " ++ text
  | .generation text => "Generation error: " ++ text
  | .resolution text => "Resolution error: " ++ text
  | .schemaNameCollision name first second =>
    "Schema name '" ++ name ++ "' is claimed by both " ++ first ++ " and " ++ second
  | .duplicateOperation method path first second =>
    "Duplicate operation " ++ method ++ " " ++ path ++
      " (endpoints " ++ first ++ " and " ++ second ++ ")"
  | .remote text => "Remote error: " ++ text
  | .template text => "Template error: " ++ text
  | .io text => "IO error: " ++ text
  | .json => "JSON error: the text does not fit its type"
  | .yaml => "YAML error: the text does not fit its type"
  | .wideBlank => "a blank beyond ASCII cannot be passed over"

/-- The fault of a node that does not fit. -/
def ofMisfit : Misfit → Fault
  | .form => .json
  | .wideBlank => .wideBlank

end Fault

/-- The value that a reader finds in a node. -/
def Reading.outcome {α : Type} : Reading α → Outcome α
  | .ok a => .ok a
  | .error m => .error (Fault.ofMisfit m)

end ApiDocs
