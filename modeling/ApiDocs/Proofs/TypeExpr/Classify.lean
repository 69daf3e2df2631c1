import ApiDocs.TypeExpr.Classify
import Mathlib.Tactic.Tauto
/-!
# What declared types are classified as

A declared type is an array, a sequence, or itself. The class path that is documented for it and the
model that is noted for it are found separately; they agree unless the name of an array erases to a
page.
-/
namespace ApiDocs.Conventions

/-- The kind and class path that a declared type can have as a member. -/
inductive Classified (c : Conventions) (t : TypeExpr) : FieldKind × String → Prop
  | array {element} : t.arrayElement? = some element → Classified c t (.array, element.path)
  | sequence : t.arrayElement? = none → c.isSequence (c.erasedName t) = true →
      Classified c t (.array, c.firstArgument t)
  | single {kind} : t.arrayElement? = none → c.isSequence (c.erasedName t) = false → kind ≠ .array →
      (kind.isReference = false → c.isScalar (c.erasedName t) = true) → Classified c t (kind, c.erasedName t)

/-- The class paths that stand inside a declared type: the element of an array, and the first argument
of a sequence or a page. -/
inductive Inside (c : Conventions) (t : TypeExpr) : String → Prop
  | element {element} : t.arrayElement? = some element → Inside c t element.path
  | argument : c.isSequence (c.erasedName t) = true ∨ (c.page? t).isSome = true → Inside c t (c.firstArgument t)

/-- Whether a declared type is by its name an array of a class, and by its erasure a page. -/
def IsPagedArray (c : Conventions) (t : TypeExpr) (path : String) : Prop :=
  (∃ element, t.arrayElement? = some element ∧ element.path = path) ∧ (c.page? t).isSome = true

variable {c : Conventions} {t : TypeExpr} {isEnum : Bool} {path : String}

theorem classified_fieldKind (c : Conventions) (t : TypeExpr) (isEnum : Bool) :
    Classified c t (c.fieldKind t isEnum) := by
  unfold fieldKind
  cases ha : t.arrayElement? with
  | some element => exact .array ha
  | none =>
    simp only
    split
    case isTrue hs => exact .sequence ha hs
    case isFalse hs =>
      have single : ∀ kind, kind ≠ .array →
          (kind.isReference = false → c.isScalar (c.erasedName t) = true) → Classified c t (kind, c.erasedName t) :=
        fun kind => .single ha (Bool.not_eq_true _ ▸ hs)
      split
      · exact single .enum (by simp) (by simp [FieldKind.isReference])
      · split
        case isTrue hx => exact single (.scalar _) (by simp) fun _ => hx
        case isFalse => exact single .object (by simp) (by simp [FieldKind.isReference])

/-- A scalar member is called by the simple name of its class. -/
theorem eq_simple_of_fieldKind {name : String} (h : c.fieldKind t isEnum = (.scalar name, path)) :
    name = TypeName.simple path := by
  unfold fieldKind at h
  split at h
  · cases h
  · simp only at h
    split at h
    · cases h
    split at h
    · cases h
    split at h
    · cases h
      rfl
    · cases h

/-- A parameter is documented with the class path that it would have as a member. -/
theorem elementOf_fst (c : Conventions) (t : TypeExpr) (isEnum : Bool) :
    (c.elementOf t isEnum).1 = (c.fieldKind t isEnum).2 := by
  have h := classified_fieldKind c t isEnum
  unfold elementOf
  generalize c.fieldKind t isEnum = classified at h ⊢
  cases h with
  | array ha => rfl
  | sequence ha hs => rfl
  | single ha hs hk hx =>
    split
    case h_1 he => exact absurd (congrArg Prod.fst he) hk
    case h_2 => rfl

theorem page?_eq_some_iff {kind : PageKind} :
    c.page? t = some (kind, path) ↔ c.pageKind? (c.erasedName t) = some kind ∧ path = c.firstArgument t := by
  simp only [page?, Option.map_eq_some_iff, Prod.mk.injEq]
  exact ⟨fun ⟨_, hk, rfl, he⟩ => ⟨hk, he.symm⟩, fun ⟨hk, he⟩ => ⟨_, hk, rfl, he.symm⟩⟩

theorem isSome_pageKind? : (c.pageKind? path).isSome = true ↔ path = c.springPage ∨ path = c.xpage := by
  unfold pageKind?
  split
  case isTrue hs => simp [hs]
  case isFalse hs =>
    split
    case isTrue hx => simp [hx]
    case isFalse hx => simp [hs, hx]

/-- The carriers are the pages, and the paging requests and orders. -/
theorem isCarrier_iff : c.isCarrier path = true ↔
    (c.pageKind? path).isSome = true ∨ path ∈ [c.sort, c.xorder, c.pageable, c.xpageNation] := by
  rw [isSome_pageKind?, isCarrier, List.contains_iff_mem]
  simp only [carriers, List.mem_cons, List.not_mem_nil, or_false]
  tauto

theorem isModel_iff : c.isModel path = true ↔ c.isScalar path = false ∧ c.isSequence path = false ∧
    c.isCarrier path = false ∧ c.isVoid path = false := by
  simp [isModel, and_assoc]

/-- A scalar name is no model, whether the conventions list it as a sequence or not. -/
theorem not_isModel_of_isScalarName (h : Scalar.isScalarName path = true) : c.isModel path = false := by
  cases hs : c.isSequence path <;> simp [isModel, isScalar, h, hs]

/-- The documented class path of a type is noted if it is a model, unless the type is an array and a
page. -/
theorem modelReference?_eq_some (hm : c.isModel (c.fieldKind t isEnum).2 = true)
    (hp : t.arrayElement? = none ∨ c.page? t = none) :
    c.modelReference? t isEnum = some (c.fieldKind t isEnum).2 := by
  have h := classified_fieldKind c t isEnum
  unfold modelReference?
  cases hpage : c.page? t with
  | some page =>
    obtain ⟨kind, content⟩ := page
    obtain ⟨hkind, rfl⟩ := page?_eq_some_iff.1 hpage
    generalize c.fieldKind t isEnum = classified at h hm ⊢
    cases h with
    | array ha => simp [ha, hpage] at hp
    | sequence ha hs => simpa using hm
    | single ha hs hk hx =>
      -- What is left is a page by itself, which is a carrier.
      have hcarrier : c.isCarrier (c.erasedName t) = true := isCarrier_iff.2 (.inl (by simp [hkind]))
      rw [(isModel_iff.1 hm).2.2.1] at hcarrier
      cases hcarrier
  | none =>
    have href : (c.fieldKind t isEnum).1.isReference = true := by
      generalize c.fieldKind t isEnum = classified at h hm ⊢
      cases h with
      | array ha => rfl
      | sequence ha hs => rfl
      | @single kind ha hs hk hx =>
        cases hr : kind.isReference with
        | true => rfl
        | false =>
          have hscalar := hx hr
          rw [(isModel_iff.1 hm).1] at hscalar
          cases hscalar
    simp [href, hm]

end ApiDocs.Conventions
