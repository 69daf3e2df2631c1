import ApiDocs.Proofs.Extraction
import ApiDocs.Proofs.OpenApi.References
import ApiDocs.Proofs.ReturnType
/-!
# Which types become components

The components of an extracted service belong to pages and to models, and besides to types that no
model is made of: a sequence, a page or a void type where a declaration wraps it in another type, and
the class of a parameter that is declared to be an enumeration, whatever it is.
-/
namespace ApiDocs.OpenApi

open Endpoint (Declares Documents)

/-- Whether an owner is a page or has a model. -/
def IsReal (c : Conventions) : Owner → Prop
  | .model path => c.isModel path = true
  | .page _ _ => True

/-- A class that is described by a component although it has no model: a sequence, a page or a void
type. -/
def IsContainer (c : Conventions) (path : String) : Prop :=
  IsComponent c path ∧
    (c.isSequence path = true ∨ (c.pageKind? path).isSome = true ∨ c.isVoid path = true)

/-- The types that parameters of some endpoints, and members of classes, are declared with. -/
inductive Typed (source : Facts.Source) (c : Conventions) (es : List Facts.Endpoint) : TypeExpr → Prop
  | parameter {e t isEnum} : e ∈ es → Declares source c e.parameters t isEnum → Typed source c es t
  | member {path facts m} : source.typeFacts path = .ok facts → m ∈ source.membersOf c facts →
      Typed source c es m.type

/-- The classes that the declarations of some endpoints put in the place of a model without regard to
what they are. -/
inductive Stray (source : Facts.Source) (c : Conventions) (es : List Facts.Endpoint) : String → Prop
  | inside {t path} : Typed source c es t → c.Inside t path → Stray source c es path
  | page {e t isEnum} : e ∈ es → Declares source c e.parameters t isEnum → (c.page? t).isSome = true →
      Stray source c es (c.erasedName t)
  | void {t} : Typed source c es t → c.isVoid (c.erasedName t) = true → Stray source c es (c.erasedName t)
  | paging {path} : path ∈ Endpoint.pagingClasses → Stray source c es path
  | returned {e path} : e ∈ es → ReturnType.Wrapped c e.returnType path → Stray source c es path
  | unknown {e} : e ∈ es → e.returnType.isVariable = true → e.returnType.bound = none →
      Stray source c es c.rootType

/-- Whether a parameter of some endpoint is declared to be an enumeration of the class. -/
def Flagged (source : Facts.Source) (c : Conventions) (es : List Facts.Endpoint) (path : String) : Prop :=
  ∃ e ∈ es, ∃ t, Declares source c e.parameters t true ∧ path = (c.elementOf t true).1

variable {source : Facts.Source} {c : Conventions} {es : List Facts.Endpoint} {path : String}

theorem IsComponent.isModel_or (h : IsComponent c path) : c.isModel path = true ∨ IsContainer c path := by
  by_cases hm : c.isSequence path = true ∨ (c.pageKind? path).isSome = true ∨ c.isVoid path = true
  · exact .inr ⟨h, hm⟩
  · simp only [not_or, Bool.not_eq_true] at hm
    obtain ⟨hseq, hpage, hvoid⟩ := hm
    have hcarrier : c.isCarrier path = false := by
      rw [← Bool.not_eq_true, Conventions.isCarrier_iff, hpage]
      exact fun hc => hc.elim (by simp) h.2
    exact .inl (Conventions.isModel_iff.2 ⟨h.1, hseq, hcarrier, hvoid⟩)

/-- A parameter of a class without a model is declared with a type that wraps the class. -/
theorem Stray.of_documents {e : Facts.Endpoint} (he : e ∈ es) {noted : List String} {q : ApiDocs.Parameter}
    (h : Documents source c e.parameters noted q) (hc : IsContainer c q.classPath) :
    Stray source c es q.classPath := by
  cases h with
  | paging hp => exact .paging hp
  | @declared t hd hq =>
    rw [Conventions.elementOf_fst] at hq
    have hk := c.classified_fieldKind t q.isEnum
    generalize c.fieldKind t q.isEnum = classified at hk hq
    have ht : Typed source c es t := .parameter he hd
    rw [hq] at hc ⊢
    cases hk with
    | array ha => exact .inside ht (.element ha)
    | sequence ha hs => exact .inside ht (.argument (.inl hs))
    | single ha hs =>
      -- The class is that of the type itself, which is no sequence.
      obtain ⟨-, hseq | hpage | hvoid⟩ := hc
      · rw [hs] at hseq
        cases hseq
      · exact .page he hd (by simpa [Conventions.page?] using hpage)
      · exact .void ht hvoid

theorem Stray.of_member {facts : Facts.TypeFacts} (hf : source.typeFacts path = .ok facts) {m : Facts.Member}
    (hm : m ∈ source.membersOf c facts) (hc : IsContainer c (Modeler.memberField c m).classPath) :
    Stray source c es (Modeler.memberField c m).classPath := by
  have ht : Typed source c es m.type := .member hf hm
  unfold Modeler.memberField at hc ⊢
  cases hpage : c.page? m.type with
  | some page =>
    have hcontent : page.2 = c.firstArgument m.type := (Conventions.page?_eq_some_iff.1 hpage).2
    simp only [hpage, hcontent] at hc ⊢
    exact .inside ht (.argument (.inr (by simp [hpage])))
  | none =>
    simp only [hpage] at hc ⊢
    have hk := c.classified_fieldKind m.type m.isEnum
    generalize c.fieldKind m.type m.isEnum = classified at hk hc
    cases hk with
    | array ha => exact .inside ht (.element ha)
    | sequence ha hs => exact .inside ht (.argument (.inl hs))
    | single ha hs =>
      -- A page would have been a field of its content, so the type is void.
      obtain ⟨-, hseq | hkind | hvoid⟩ := hc
      · rw [hs] at hseq
        cases hseq
      · simp [Conventions.page?] at hpage
        simp [hpage] at hkind
      · exact .void ht hvoid

theorem Stray.of_returned {e : Facts.Endpoint} (he : e ∈ es)
    (hp : (ReturnType.ofType c e.returnType).content = some path) (hc : IsContainer c path) :
    Stray source c es path := by
  rcases ReturnType.peel_content c _ _ _ hp with hw | ⟨hv, hb, rfl⟩ | ⟨hseq, hpage, hvoid⟩
  · exact .returned he hw
  · have hroot : c.erasedName e.returnType = c.rootType := by
      simp [Conventions.erasedName, TypeExpr.erasure?, hv, hb]
    exact hroot ▸ .unknown he hv hb
  · simp [IsContainer, hseq, hpage, hvoid] at hc

/-- The components of a document are called like the owners that are reached. -/
theorem mem_componentNames {ctx : Context} {ds : List Definition} {doc : Document} (h : render ctx ds = .ok doc)
    {name : String} : name ∈ doc.components.schemas.keys ↔ ∃ o, Reached ctx ds o ∧ o.name = name := by
  obtain ⟨-, -, draft, claims, rfl, -, hnamed, hmem⟩ := render_ok h
  have hget : ∀ s, (draft.document ctx claims).components.schemas.get? name = some s ↔
      ∃ o ∈ claims.owners, o.name = name ∧ s = o.schema ctx.conventions ctx.models :=
    fun s => get?_schemas hnamed
  rw [Keyed.mem_keys_iff]
  refine ⟨fun ⟨s, hs⟩ => ?_, fun ⟨o, ho, hn⟩ => ⟨_, (hget _).2 ⟨o, (hmem o).2 ho, hn, rfl⟩⟩⟩
  obtain ⟨o, ho, hn, -⟩ := (hget s).1 hs
  exact ⟨o, (hmem o).1 ho, hn⟩

theorem mem_parameters_of_body? {d : Definition} {q : ApiDocs.Parameter} (h : d.body? = some q) :
    q ∈ d.parameters :=
  (mem_parametersIn.1 (List.mem_of_mem_head? h)).1

/-- The fields of a model that is no enumeration are the members of its type. -/
theorem mem_members_of_mem_fields {m : Modeler} {t : Facts.TypeFacts} (he : (m.modelOf t).isEnum = false) {f : Field}
    (hf : f ∈ (m.modelOf t).fields) :
    ∃ member ∈ m.source.membersOf m.conventions t, Modeler.memberField m.conventions member = f := by
  unfold Modeler.modelOf Model.isEnum at he
  unfold Modeler.modelOf at hf
  cases hk : t.kind with
  | enum => simp [hk] at he
  | object => simpa [hk] using hf

variable {ctx : Endpoint.Context} {ds : Endpoint.Definitions} {service : Service} {models : Models}

/-- A model that an operation refers to. -/
theorem Referred.isModel_or (hs : ds.Sound ctx es) {d : Definition} (hd : d ∈ ds.toList)
    (h : Referred ⟨service, ctx.conventions, models⟩ d (.model path)) :
    ctx.conventions.isModel path = true ∨ Flagged ctx.source ctx.conventions es path ∨
      IsContainer ctx.conventions path ∧ Stray ctx.source ctx.conventions es path := by
  obtain ⟨e, he, hbuilt⟩ := hs d hd
  have hparameter : ∀ q ∈ d.parameters, IsComponent ctx.conventions q.classPath →
      ctx.conventions.isModel q.classPath = true ∨ Flagged ctx.source ctx.conventions es q.classPath ∨
        IsContainer ctx.conventions q.classPath ∧ Stray ctx.source ctx.conventions es q.classPath := by
    intro q hq hc
    exact hc.isModel_or.imp_right fun hc => .inr ⟨hc, .of_documents he (hbuilt.parameters q hq) hc⟩
  cases h with
  | @enumeration q hq _ henum =>
    cases hbuilt.parameters q hq with
    | paging _ hflag =>
      rw [hflag] at henum
      cases henum
    | @declared t ht hc =>
      rw [henum] at ht hc
      exact .inr (.inl ⟨e, he, t, ht, hc⟩)
  | parameter hq _ _ hc => exact hparameter _ hq hc
  | body hb hc => exact hparameter _ (mem_parameters_of_body? hb) hc
  | returned hr hc =>
    have hcontent := hbuilt.content.symm.trans hr.1
    exact hc.isModel_or.imp_right fun hc => .inr ⟨hc, .of_returned he hcontent hc⟩

/-- Each component of an extracted service belongs to a page or a model, but for the classes of
parameters that are declared to be enumerations, and for sequences, pages and void types that a
declaration wraps in another type. -/
theorem component_types (source : Facts.Source) (config : Config) (ex : Extraction) (doc : Document)
    (hx : Extraction.ofSource source config = .ok ex)
    (hr : render (ex.documentContext config) ex.endpoints.toList = .ok doc)
    (name : String) (hn : name ∈ doc.components.schemas.keys) :
    ∃ es, source.endpoints = .ok es ∧
      ∃ o, Reached (ex.documentContext config) ex.endpoints.toList o ∧ o.name = name ∧
        (IsReal config.conventions o ∨ ∃ path, o = .model path ∧
          (Flagged source config.conventions es path ∨
            IsContainer config.conventions path ∧ Stray source config.conventions es path)) := by
  obtain ⟨es, catalog, he, hsound, hres⟩ := Extraction.ofSource_ok hx
  obtain ⟨o, ho, hname⟩ := (mem_componentNames hr).1 hn
  refine ⟨es, he, o, ho, hname, ?_⟩
  cases o with
  | page kind path => exact .inl trivial
  | model path =>
    refine Or.imp_right (fun h => ⟨path, rfl, h⟩) (?_ : config.conventions.isModel path = true ∨ _)
    cases ho with
    | operation hd href =>
      have hmodel := href.isModel_or hsound hd
      exact hmodel
    | @field owner m f _ _ hg henum hf hheld =>
      obtain ⟨-, t, ht, rfl⟩ := (hres.models owner m).1 hg
      obtain ⟨member, hmember, rfl⟩ := mem_members_of_mem_fields henum hf
      cases hheld with
      | content _ hc => exact hc.isModel_or.imp_right fun hc => .inr ⟨hc, .of_member ht hmember hc⟩

/-- The owners that the operations of an extracted service refer to, if there is a document. -/
def extractedOwners (source : Facts.Source) (config : Config) : Option (List Owner) := do
  let ex ← (Extraction.ofSource source config).toOption
  let _ ← (render (ex.documentContext config) ex.endpoints.toList).toOption
  return ex.endpoints.toList.flatMap (operationOwners (ex.documentContext config))

theorem render_of_extractedOwners (source : Facts.Source) (config : Config) (owners : List Owner)
    (h : extractedOwners source config = some owners) :
    ∃ ex doc, Extraction.ofSource source config = .ok ex ∧
      render (ex.documentContext config) ex.endpoints.toList = .ok doc ∧
      ∀ o ∈ owners, Reached (ex.documentContext config) ex.endpoints.toList o := by
  obtain ⟨ex, hx, h⟩ := Option.bind_eq_some_iff.1 h
  obtain ⟨doc, hr, howners⟩ := Option.bind_eq_some_iff.1 h
  refine ⟨ex, doc, Outcome.toOption_eq_some_iff.1 hx, Outcome.toOption_eq_some_iff.1 hr, fun o ho => ?_⟩
  exact reached_of_mem_flatMap (Option.some.inj howners ▸ ho)

/-- An endpoint that returns a list of rows. -/
def listingRows : Facts.Source :=
  Extraction.listing [] (.generic "java.util.List" [.named "com.x.Row"])

theorem listingRows_component_types : ∃ ex doc, Extraction.ofSource listingRows (.ofServiceId "svc") = .ok ex ∧
    render (ex.documentContext (.ofServiceId "svc")) ex.endpoints.toList = .ok doc ∧
    "Row" ∈ doc.components.schemas.keys ∧
    ∃ es, listingRows.endpoints = .ok es ∧
      ∃ o, Reached (ex.documentContext (.ofServiceId "svc")) ex.endpoints.toList o ∧ o.name = "Row" ∧
        (IsReal .default o ∨ ∃ path, o = .model path ∧
          (Flagged listingRows .default es path ∨ IsContainer .default path ∧ Stray listingRows .default es path)) := by
  obtain ⟨ex, doc, hx, hr, howners⟩ :=
    render_of_extractedOwners listingRows (.ofServiceId "svc") [.model "com.x.Row"] (by decide)
  have hkey : "Row" ∈ doc.components.schemas.keys :=
    (mem_componentNames hr).2 ⟨_, howners _ List.mem_cons_self, by decide⟩
  exact ⟨ex, doc, hx, hr, hkey, component_types _ _ ex doc hx hr "Row" hkey⟩

/-- A list of pages of rows. -/
def pagesOfRows : TypeExpr :=
  .generic "java.util.List" [.generic "org.springframework.data.domain.Page" [.named "com.x.Row"]]

/-- A page that stands in a list becomes a component of its own. -/
theorem pagesOfRows_not_real : ¬ ∀ (source : Facts.Source) (config : Config) (ex : Extraction) (doc : Document),
    Extraction.ofSource source config = .ok ex →
    render (ex.documentContext config) ex.endpoints.toList = .ok doc →
    ∀ name ∈ doc.components.schemas.keys,
      ∃ o, Reached (ex.documentContext config) ex.endpoints.toList o ∧ o.name = name ∧
        IsReal config.conventions o := by
  intro hall
  obtain ⟨ex, doc, hx, hr, howners⟩ := render_of_extractedOwners (Extraction.listing [] pagesOfRows)
    (.ofServiceId "svc") [.model "org.springframework.data.domain.Page"] (by decide)
  have hpage := howners _ List.mem_cons_self
  have hkey : "Page" ∈ doc.components.schemas.keys := (mem_componentNames hr).2 ⟨_, hpage, by decide⟩
  obtain ⟨o, ho, hname, hreal⟩ := hall _ _ ex doc hx hr "Page" hkey
  -- No other owner has the name.
  obtain rfl : o = .model "org.springframework.data.domain.Page" :=
    (render_ok_iff.1 ⟨doc, hr⟩).2.2 _ _ ho hpage (hname.trans (by decide))
  exact absurd (show Conventions.isModel .default _ = true from hreal) (by decide)

end ApiDocs.OpenApi
