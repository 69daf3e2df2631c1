import ApiDocs.Model
import ApiDocs.Proofs.Definition
/-!
# Models read back

A model is read back as it was written but for the kinds of its fields (`Model.reread`). The label of a kind
is the name of a scalar or one of three words, and a scalar whose name is one of the words is read as the
structural kind that has it.
-/
namespace ApiDocs

namespace FieldKind

/-- The labels of the structural kinds. -/
def words : List String := ["Object", "Array", "Enum"]

/-- A kind is what its label stands for, unless it is a scalar with the label of a structural kind. -/
theorem ofLabel_label_iff {k : FieldKind} : ofLabel k.label = k ↔ ∀ name, k = .scalar name → name ∉ words := by
  cases k with
  | object | array | enum => simp [label, ofLabel]
  | scalar name =>
    have hlabel : (scalar name).label = name := rfl
    rw [hlabel, ofLabel]
    by_cases h₁ : name = "Object" <;> by_cases h₂ : name = "Array" <;> by_cases h₃ : name = "Enum" <;>
      simp [words, h₁, h₂, h₃]

end FieldKind

namespace Field

/-- What a field is read back as. -/
def reread (f : Field) : Field :=
  { f with kind := .ofLabel f.kind.label }

theorem reread_eq_iff {f : Field} : f.reread = f ↔ ∀ name, f.kind = .scalar name → name ∉ FieldKind.words := by
  rw [← FieldKind.ofLabel_label_iff]
  constructor
  · exact fun h => congrArg kind h
  · intro h
    rw [reread, h]

theorem toJson_eq (f : Field) : f.toJson = .record
    [("name", some (.str f.name)), ("type", some (.str f.kind.label)), ("classPath", some (.str f.classPath)),
     ("description", some (.str f.description)), ("isOptional", some (.bool f.isOptional)),
     ("pagingType", f.page.map PageKind.toJson)] := by
  simp [toJson, Json.record, Json.Slots.members]

theorem ofNode_toJson (f : Field) : ofNode (.ofJson f.toJson) = .ok f.reread := by
  rw [toJson_eq, ofNode, Record.ofNode_record memberNames rfl (by decide)]
  simp [reread]

theorem within_toJson (f : Field) : f.toJson.Within 1 := by
  rw [toJson_eq]
  exact .record memberNames rfl (by decide) (by simp)

end Field

@[simp] theorem ModelKind.ofNode_word (k : ModelKind) : ofNode (.ofJson (.str k.word)) = .ok k := by
  cases k <;> rfl

namespace Model

/-- What a model is read back as. -/
def reread (m : Model) : Model :=
  { m with fields := m.fields.map Field.reread }

theorem reread_eq_iff {m : Model} :
    m.reread = m ↔ ∀ f ∈ m.fields, ∀ name, f.kind = .scalar name → name ∉ FieldKind.words := by
  simp only [← Field.reread_eq_iff]
  constructor
  · intro h f hf
    have hmap : m.fields.map Field.reread = m.fields.map id := (congrArg fields h).trans (List.map_id _).symm
    exact List.map_inj_left.1 hmap f hf
  · intro h
    rw [reread, List.map_congr_left h, List.map_id']

theorem toJson_eq (m : Model) : m.toJson = .record
    [("name", some (.str m.name)), ("type", some (.str m.kind.word)), ("description", some (.str m.description)),
     ("fields", some (.list (m.fields.map Field.toJson)))] := rfl

theorem ofNode_toJson (m : Model) : ofNode (.ofJson m.toJson) = .ok m.reread := by
  have hfields := Reading.list_map_ofJson fun f (_ : f ∈ m.fields) => f.ofNode_toJson
  rw [toJson_eq, ofNode, Record.ofNode_record ["name", "type", "description", "fields"] rfl (by decide)]
  simp [reread, hfields]

theorem within_toJson (m : Model) : m.toJson.Within 3 := by
  have hfields : (Json.list (m.fields.map Field.toJson)).Within 2 := .listOf fun f _ => f.within_toJson
  rw [toJson_eq]
  exact .record ["name", "type", "description", "fields"] rfl (by decide) (by simp [hfields])

end Model

end ApiDocs
