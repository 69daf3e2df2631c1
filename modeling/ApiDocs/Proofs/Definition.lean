import ApiDocs.Definition
import ApiDocs.Proofs.Json.Restore
/-!
# Definitions read back

Every part of a definition is read back from the value that it is written as: each member that may be left
out is left out just when its default says the same, and a return shape is what its flags spell. Only status
codes are bounded, as they are in every definition that can be read.
-/
namespace ApiDocs

/-! ## Words -/

@[simp] theorem Location.ofNode_word (l : Location) : ofNode (.ofJson (.str l.word)) = .ok l := by
  cases l <;> rfl

theorem PageKind.ofNode_toJson (k : PageKind) : ofNode (.ofJson k.toJson) = .ok k := by
  cases k <;> rfl

@[simp] theorem PageKind.within_toJson {depth : Nat} (k : PageKind) : k.toJson.Within depth :=
  .str k.word

@[simp] theorem PageKind.nullable_slot (k : Option PageKind) :
    Reading.slot (.ok none) (Reading.nullable ofNode) (k.map toJson) = .ok k :=
  Reading.nullable_slot fun k _ => ⟨nofun, k.ofNode_toJson⟩

/-! ## Parameters and headers -/

namespace Parameter

theorem toJson_eq (p : Parameter) : p.toJson = .record
    [("name", some (.str p.name)), ("type", some (.str p.typeName)), ("classPath", some (.str p.classPath)),
     ("description", some (.str p.description)), ("isOptional", some (.bool p.isOptional)),
     ("defaultValue", p.defaultValue.map .str), ("parameterKind", some (.str p.location.word)),
     ("isEnum", some (.bool p.isEnum)), ("isArray", some (.bool p.isArray))] := by
  simp [toJson, Json.record, Json.Slots.members]

theorem ofNode_toJson (p : Parameter) : ofNode (.ofJson p.toJson) = .ok p := by
  rw [toJson_eq, ofNode, Record.ofNode_record memberNames rfl (by decide)]
  simp

theorem within_toJson (p : Parameter) : p.toJson.Within 1 := by
  rw [toJson_eq]
  exact .record memberNames rfl (by decide) (by simp)

end Parameter

namespace Header

theorem toJson_eq (h : Header) : h.toJson = .record
    [("name", some (.str h.name)), ("type", some (.str h.typeName)), ("classPath", some (.str h.classPath)),
     ("description", some (.str h.description)), ("isOptional", some (.bool h.isOptional)),
     ("defaultValue", h.defaultValue.map .str)] := by
  simp [toJson, Json.record, Json.Slots.members]

theorem ofNode_toJson (h : Header) : ofNode (.ofJson h.toJson) = .ok h := by
  rw [toJson_eq, ofNode, Record.ofNode_record memberNames rfl (by decide)]
  simp

theorem within_toJson (h : Header) : h.toJson.Within 1 := by
  rw [toJson_eq]
  exact .record memberNames rfl (by decide) (by simp)

end Header

/-! ## Errors -/

namespace ErrorCode

theorem toJson_eq (c : ErrorCode) : c.toJson = .record
    [("code", some (.str c.code)), ("name", some (.str c.name)), ("messageKey", some (.str c.messageKey)),
     ("message", some (.str c.message))] := rfl

theorem ofNode_toJson (c : ErrorCode) : ofNode (.ofJson c.toJson) = .ok c := by
  rw [toJson_eq, ofNode, Record.ofNode_record ["code", "name", "messageKey", "message"] rfl (by decide)]
  simp

theorem within_toJson (c : ErrorCode) : c.toJson.Within 1 := by
  rw [toJson_eq]
  exact .record ["code", "name", "messageKey", "message"] rfl (by decide) (by simp)

end ErrorCode

namespace ErrorGroup

theorem toJson_eq (g : ErrorGroup) : g.toJson = .record
    [("group", some (.str g.group)), ("exception", some (.str g.exception)), ("status", some (.int g.status)),
     ("codes", some (.list (g.codes.map ErrorCode.toJson)))] := rfl

variable {g : ErrorGroup}

theorem ofNode_toJson (h : g.status < statusBound) : ofNode (.ofJson g.toJson) = .ok g := by
  have hcodes := Reading.list_ofJson fun c (_ : c ∈ g.codes) => c.ofNode_toJson
  have hstatus := Reading.natBelow_ofJson h
  rw [toJson_eq, ofNode, Record.ofNode_record ["group", "exception", "status", "codes"] rfl (by decide)]
  simp [hcodes, hstatus]

theorem within_toJson (h : g.status < statusBound) : g.toJson.Within 3 := by
  have hcodes : (Json.list (g.codes.map ErrorCode.toJson)).Within 2 := .listOf fun c _ => c.within_toJson
  have hstatus : (Json.int g.status).Within 2 := .int (by simp [statusBound, Json.Fits] at h ⊢; omega)
  rw [toJson_eq]
  exact .record ["group", "exception", "status", "codes"] rfl (by decide) (by simp [hcodes, hstatus])

end ErrorGroup

/-! ## Definitions -/

namespace Definition

/-- Whether the status codes of a definition have sixteen bits. -/
def StatusesFit (d : Definition) : Prop :=
  ∀ g ∈ d.errors, g.status < ErrorGroup.statusBound

instance (d : Definition) : Decidable d.StatusesFit :=
  inferInstanceAs (Decidable (∀ g ∈ d.errors, g.status < ErrorGroup.statusBound))

theorem toJson_eq (d : Definition) : d.toJson = .record
    [("id", some (.str d.id)), ("name", some (.str d.name)), ("className", some (.str d.className)),
     ("description", some (.str d.description)), ("group", some (.str d.group)), ("groupId", some (.str d.groupId)),
     ("method", some (.str d.method)), ("urlMapping", some (.str d.urlMapping)),
     ("parameters", some (.list (d.parameters.map Parameter.toJson))),
     ("headers", some (.list (d.headers.map Header.toJson))), ("returnClass", d.returnClass.map .str),
     ("returnDescription", some (.str d.returnDescription)), ("isArrayReturn", some (.bool d.returnShape.isArray)),
     ("isPaging", some (.bool d.returnShape.pageKind?.isSome)),
     ("pagingType", d.returnShape.pageKind?.map PageKind.toJson), ("isNeedsSession", some (.bool d.needsSession)),
     ("responseStatus", some (.ofSorted .str d.responses)),
     ("errors", some (.list (d.errors.map ErrorGroup.toJson)))] := by
  simp [toJson, ReturnShape.flags, Json.record, Json.Slots.members]

variable {d : Definition}

theorem ofNode_toJson (h : d.StatusesFit) : ofNode (.ofJson d.toJson) = .ok d := by
  have hparameters := Reading.list_ofJson fun p (_ : p ∈ d.parameters) => p.ofNode_toJson
  have hheaders := Reading.list_ofJson fun h (_ : h ∈ d.headers) => h.ofNode_toJson
  have hresponses := Reading.sorted_ofJson fun e (_ : e ∈ d.responses.entries) => Reading.text_ofJson e.2
  have herrors := Reading.list_ofJson fun g hg => ErrorGroup.ofNode_toJson (h g hg)
  rw [toJson_eq, ofNode, Record.byNameAmong_record memberNames rfl (by decide)]
  simp [ReturnShape.ofRecord, ReturnShape.ofFlags_flags, hparameters, hheaders, hresponses, herrors]

theorem within_toJson (h : d.StatusesFit) : d.toJson.Within 5 := by
  have hparameters : (Json.list (d.parameters.map Parameter.toJson)).Within 4 :=
    .listOf fun p _ => p.within_toJson.mono (by decide)
  have hheaders : (Json.list (d.headers.map Header.toJson)).Within 4 :=
    .listOf fun h _ => h.within_toJson.mono (by decide)
  have hresponses : (Json.ofSorted .str d.responses).Within 4 := .ofSorted fun e _ => .str e.2
  have herrors : (Json.list (d.errors.map ErrorGroup.toJson)).Within 4 :=
    .listOf fun g hg => ErrorGroup.within_toJson (h g hg)
  rw [toJson_eq]
  exact .record memberNames rfl (by decide) (by simp [hparameters, hheaders, hresponses, herrors])

end Definition

end ApiDocs
