import ApiDocs.Endpoint.Build
import ApiDocs.Proofs.Keyed
import ApiDocs.Proofs.TypeExpr.Classify
/-!
# Where documented parameters come from

A parameter that is documented is one of a paging request, or stands for a declared type: that of a
declared parameter, or of a member of a query object. `Documents` says so of one parameter, with the
class paths that were noted for the declared type; every step of reading an endpoint keeps it.
-/
namespace ApiDocs.Endpoint

theorem PathSet.mem_addAll {k : String} {paths : List String} {s : PathSet} :
    k ∈ (PathSet.addAll paths s).keys ↔ k ∈ paths ∨ k ∈ s.keys := by
  induction paths generalizing s with
  | nil => simp [PathSet.addAll]
  | cons path rest ih =>
    have hadd : k ∈ (PathSet.add path s).keys ↔ k = path ∨ k ∈ s.keys := Pairs.mem_keys_putSorted
    rw [PathSet.addAll, List.foldl_cons, ← PathSet.addAll, ih, hadd, List.mem_cons, or_left_comm, or_assoc]

/-! ## Reading declared parameters -/

/-- Whether a declared parameter is documented as one of its own kind. -/
def IsOwn (c : Conventions) (p : Facts.Parameter) : Prop :=
  c.erasedName p.type ≠ c.pageable ∧
    match p.binding with
    | .path .. | .query .. | .body | .unbound => True
    | .header .. | .queryObject | .pageDefaults .. => False

/-- What reading a declared parameter does to the inputs. -/
inductive Reads (s : Facts.Source) (c : Conventions) (i : Inputs) (p : Facts.Parameter) : Inputs → Prop
  | pageable : c.erasedName p.type = c.pageable → Reads s c i p (i.addNamed pageableParameters)
  | header {name required value} : c.erasedName p.type ≠ c.pageable → p.binding = .header name required value →
      Reads s c i p (i.addHeader p.name (headerOf c p name required value))
  | pageDefaults {page size offset column direction} : c.erasedName p.type ≠ c.pageable →
      p.binding = .pageDefaults page size offset column direction →
      Reads s c i p (i.addNamed (pageDefaultParameters page size offset column direction))
  | members {members} : c.erasedName p.type ≠ c.pageable → p.binding = .queryObject →
      s.declaredMembers c (c.erasedName p.type) = .ok members → Reads s c i p (i.addMembers c members)
  | own : IsOwn c p →
      Reads s c i p ((i.addReference (c.modelReference? p.type p.isEnum)).addParameter p.name (parameterOf c p))

namespace Inputs

variable {s : Facts.Source} {c : Conventions} {i i' : Inputs} {p : Facts.Parameter}

theorem reads_of_add (h : i.add s c p = .ok i') : Reads s c i p i' := by
  unfold add at h
  split at h
  case isTrue hpage =>
    cases h
    exact .pageable hpage
  case isFalse hpage =>
  cases hb : p.binding with
  | header name required value =>
    rw [hb] at h
    cases h
    exact .header hpage hb
  | pageDefaults page size offset column direction =>
    rw [hb] at h
    cases h
    exact .pageDefaults hpage hb
  | queryObject =>
    rw [hb] at h
    simp only at h
    cases hm : s.declaredMembers c (c.erasedName p.type) with
    | error fault => simp [hm] at h
    | ok members =>
      simp only [hm, Except.ok.injEq] at h
      subst h
      exact .members hpage hb hm
  | path | query | body | unbound =>
    rw [hb] at h
    cases h
    exact .own ⟨hpage, by rw [hb]; trivial⟩

/-- Reading parameters without a fault is reading the first one and then the others. -/
theorem addAll_cons_ok {ps : List Facts.Parameter} (h : i.addAll s c (p :: ps) = (i', none)) :
    ∃ i₁, i.add s c p = .ok i₁ ∧ i₁.addAll s c ps = (i', none) := by
  unfold addAll at h
  cases ha : i.add s c p with
  | error fault =>
    rw [ha] at h
    cases h
  | ok i₁ =>
    rw [ha] at h
    exact ⟨i₁, rfl, h⟩

end Inputs

/-! ## Declared types -/

/-- The types that declared parameters stand for: their own, and those of the members of query
objects. -/
inductive Declares (s : Facts.Source) (c : Conventions) (ps : List Facts.Parameter) : TypeExpr → Bool → Prop
  | own {p} : p ∈ ps → Declares s c ps p.type p.isEnum
  | member {p members m} : p ∈ ps → p.binding = .queryObject →
      s.declaredMembers c (c.erasedName p.type) = .ok members → m ∈ members → Declares s c ps m.type m.isEnum

/-- The class paths of the parameters of a paging request. -/
def pagingClasses : List String :=
  ["java.lang.Integer", "java.lang.String"]

theorem isScalarName_of_paging {path : String} (h : path ∈ pagingClasses) : Scalar.isScalarName path = true := by
  simp only [pagingClasses, List.mem_cons, List.not_mem_nil, or_false] at h
  rcases h with rfl | rfl <;> decide

/-- Whether a parameter is documented as it has to be, when some class paths are noted. -/
inductive Documents (s : Facts.Source) (c : Conventions) (ps : List Facts.Parameter) (noted : List String)
    (q : Parameter) : Prop
  | paging : q.classPath ∈ pagingClasses → q.isEnum = false → Documents s c ps noted q
  | declared {t} : Declares s c ps t q.isEnum → q.classPath = (c.elementOf t q.isEnum).1 →
      (∀ path, c.modelReference? t q.isEnum = some path → path ∈ noted) → Documents s c ps noted q

variable {s : Facts.Source} {c : Conventions} {ps : List Facts.Parameter} {noted : List String} {q : Parameter}

theorem Documents.mono (h : Documents s c ps noted q) {noted' : List String} (hn : ∀ k ∈ noted, k ∈ noted') :
    Documents s c ps noted' q := by
  cases h with
  | paging hc he => exact .paging hc he
  | declared hd hc hr => exact .declared hd hc fun path hp => hn path (hr path hp)

/-- What is documented of a parameter but its description. -/
theorem Documents.congr (h : Documents s c ps noted q) {q' : Parameter} (hc : q'.classPath = q.classPath)
    (he : q'.isEnum = q.isEnum) : Documents s c ps noted q' := by
  cases h with
  | paging hc' he' => exact .paging (hc ▸ hc') (he.trans he')
  | declared hd hc' hr =>
    rw [← he] at hd hc' hr
    exact .declared hd (hc.trans hc') hr

/-- The class of a parameter is noted if it is a model, unless the parameter is declared with an array that
is a page as well. -/
theorem Documents.noted_or (h : Documents s c ps noted q) (hm : c.isModel q.classPath = true) :
    q.classPath ∈ noted ∨ ∃ t, Declares s c ps t q.isEnum ∧ c.IsPagedArray t q.classPath := by
  cases h with
  | paging hc =>
    rw [Conventions.not_isModel_of_isScalarName (isScalarName_of_paging hc)] at hm
    cases hm
  | @declared t hd hc hr =>
    rw [Conventions.elementOf_fst] at hc
    cases ha : t.arrayElement? with
    | none => exact .inl (hr _ (hc ▸ Conventions.modelReference?_eq_some (hc ▸ hm) (.inl ha)))
    | some element =>
      cases hp : c.page? t with
      | none => exact .inl (hr _ (hc ▸ Conventions.modelReference?_eq_some (hc ▸ hm) (.inr hp)))
      | some page =>
        refine .inr ⟨t, hd, ⟨element, ha, ?_⟩, by simp [hp]⟩
        rw [hc, Conventions.fieldKind, ha]

namespace Inputs

/-- Whether all parameters are documented as they have to be. -/
def Sound (s : Facts.Source) (c : Conventions) (ps : List Facts.Parameter) (i : Inputs) : Prop :=
  ∀ p ∈ i.parameters.entries, Documents s c ps i.references.keys p.2

variable {i i' : Inputs} {p : Facts.Parameter}

theorem sound_empty : Inputs.empty.Sound s c ps :=
  fun _ hp => absurd hp List.not_mem_nil

theorem Sound.addParameter (h : i.Sound s c ps) (key : String) (hq : Documents s c ps i.references.keys q) :
    (i.addParameter key q).Sound s c ps := by
  intro p hp
  rcases Pairs.mem_put hp with rfl | hp
  · exact hq
  · exact h p hp

theorem Sound.addHeader (h : i.Sound s c ps) (key : String) (header : Header) :
    (i.addHeader key header).Sound s c ps := h

theorem Sound.addReference (h : i.Sound s c ps) (path : Option String) : (i.addReference path).Sound s c ps :=
  fun p hp => (h p hp).mono fun _ hk => PathSet.mem_addAll.2 (.inr hk)

theorem mem_addReference {k : String} {path : Option String} :
    k ∈ (i.addReference path).references.keys ↔ path = some k ∨ k ∈ i.references.keys := by
  rw [addReference, PathSet.mem_addAll, Option.mem_toList]

theorem Sound.addNamed (h : i.Sound s c ps) {qs : List Parameter}
    (hqs : ∀ q ∈ qs, q.classPath ∈ pagingClasses ∧ q.isEnum = false) :
    (i.addNamed qs).Sound s c ps := by
  unfold Inputs.addNamed
  induction qs generalizing i with
  | nil => exact h
  | cons q rest ih =>
    obtain ⟨hq, hrest⟩ := List.forall_mem_cons.1 hqs
    exact ih (h.addParameter q.name (.paging hq.1 hq.2)) hrest

/-- The parameter of a declared type is documented once its reference is noted. -/
theorem Sound.addDeclared (h : i.Sound s c ps) {t : TypeExpr} (ht : Declares s c ps t q.isEnum)
    (hq : q.classPath = (c.elementOf t q.isEnum).1) (key : String) :
    ((i.addReference (c.modelReference? t q.isEnum)).addParameter key q).Sound s c ps :=
  (h.addReference _).addParameter key (.declared ht hq fun _ hp => mem_addReference.2 (.inl hp))

theorem Sound.addMembers (h : i.Sound s c ps) {members : List Facts.Member}
    (hm : ∀ m ∈ members, Declares s c ps m.type m.isEnum) : (i.addMembers c members).Sound s c ps := by
  unfold Inputs.addMembers
  induction members generalizing i with
  | nil => exact h
  | cons m rest ih =>
    obtain ⟨hd, hrest⟩ := List.forall_mem_cons.1 hm
    exact ih (h.addDeclared (q := memberParameter c m) hd rfl m.name) hrest

theorem Sound.add (h : i.Sound s c ps) (hp : p ∈ ps) (ha : i.add s c p = .ok i') : i'.Sound s c ps := by
  cases reads_of_add ha with
  | pageable => exact h.addNamed (by simp [pageableParameters, pagingParameter, pagingClasses])
  | header => exact h.addHeader _ _
  | pageDefaults =>
    refine h.addNamed ?_
    unfold pageDefaultParameters
    simp [pagingParameter, pagingClasses]
  | members _ hb hm => exact h.addMembers fun m hmem => .member hp hb hm hmem
  | own => exact h.addDeclared (q := parameterOf c p) (.own hp) rfl p.name

theorem Sound.addAll {rest : List Facts.Parameter} (h : i.Sound s c ps) (hr : ∀ p ∈ rest, p ∈ ps)
    (ha : i.addAll s c rest = (i', none)) : i'.Sound s c ps := by
  induction rest generalizing i with
  | nil =>
    cases ha
    exact h
  | cons p rest ih =>
    obtain ⟨hp, hr⟩ := List.forall_mem_cons.1 hr
    obtain ⟨i₁, hadd, ha⟩ := addAll_cons_ok ha
    exact ih (h.add hp hadd) hr ha

/-- Describing a parameter changes nothing else of it. -/
theorem Sound.describe (h : i.Sound s c ps) (name description : String) :
    (i.describe s name description).Sound s c ps := by
  unfold Inputs.describe
  cases hp : i.parameters.get? name with
  | some p =>
    have hold : Documents s c ps i.references.keys p := h (name, p) (Keyed.mem_entries_iff.2 hp)
    exact h.addParameter name (hold.congr rfl rfl)
  | none =>
    cases i.headers.get? name with
    | some header => exact h.addHeader name _
    | none => exact h

/-- All that a tag can do to the inputs. -/
theorem applyTag_cases (s : Facts.Source) (catalog : ErrorCatalog) (state : Inputs × Summary) (t : Facts.Tag) :
    (applyTag s catalog state t).1 = state.1 ∨
      (∃ name text, (applyTag s catalog state t).1 = state.1.describe s name text) ∨
      ∃ name header, (applyTag s catalog state t).1 = state.1.addHeader name header := by
  obtain ⟨i, summary⟩ := state
  simp only [applyTag]
  split
  case h_1 => exact .inr (.inl ⟨_, _, rfl⟩)
  case h_6 =>
    split
    · exact .inl rfl
    · exact .inr (.inr ⟨_, _, rfl⟩)
  all_goals
    refine .inl ?_
    repeat' split
    all_goals rfl

theorem Sound.applyTag {state : Inputs × Summary} (h : state.1.Sound s c ps) (catalog : ErrorCatalog)
    (t : Facts.Tag) : (Endpoint.applyTag s catalog state t).1.Sound s c ps := by
  rcases applyTag_cases s catalog state t with he | ⟨name, text, he⟩ | ⟨name, header, he⟩
  · exact he ▸ h
  · exact he ▸ h.describe name text
  · exact he ▸ h.addHeader name header

theorem Sound.documented {ctx : Context} {e : Facts.Endpoint}
    (h : i.Sound ctx.source c ps) : (documented ctx e i).1.Sound ctx.source c ps := by
  have main : ∀ (tags : List Facts.Tag) (state : Inputs × Summary), state.1.Sound ctx.source c ps →
      (tags.foldl (Endpoint.applyTag ctx.source ctx.catalog) state).1.Sound ctx.source c ps := by
    intro tags
    induction tags with
    | nil => exact fun _ h => h
    | cons t rest ih => exact fun state h => ih _ (h.applyTag ctx.catalog t)
  exact main _ (i, Summary.empty) h

end Inputs

/-! ## Definitions -/

/-- What a definition documents of the types of its endpoint, when some class paths are noted. -/
structure Built.Sound (ctx : Context) (e : Facts.Endpoint) (noted : List String) (d : Definition) : Prop where
  parameters : ∀ q ∈ d.parameters, Documents ctx.source ctx.conventions e.parameters noted q
  content : d.returnClass = (ReturnType.ofType ctx.conventions e.returnType).content
  shape : d.returnShape = (ReturnType.ofType ctx.conventions e.returnType).shape
  returned : ∀ path, d.returnClass = some path → ctx.conventions.isModel path = true → path ∈ noted

/-- What a definition that is built says when some inputs were read: what it takes from them, once the tags
are taken in, and what it takes from the endpoint itself. -/
structure Built.Made (ctx : Context) (e : Facts.Endpoint) (i : Inputs) (b : Built) (d : Definition) : Prop where
  id : d.id = stableId [d.urlMapping, d.name, d.method]
  parameters : d.parameters = (documented ctx e i).1.parameters.values
  headers : d.headers = Header.merge (documented ctx e i).1.headers.values ctx.service.headers
  content : d.returnClass = (ReturnType.ofType ctx.conventions e.returnType).content
  shape : d.returnShape = (ReturnType.ofType ctx.conventions e.returnType).shape
  responses : d.responses = responseTable (documented ctx e i).2
  errors : d.errors = (documented ctx e i).2.errors
  references : b.references =
    PathSet.addAll (d.returnClass.filter ctx.conventions.isModel).toList (documented ctx e i).1.references

variable {ctx : Context} {e : Facts.Endpoint} {d : Definition}

/-- A definition is built where all inputs of the endpoint can be read. -/
theorem made_of_build (h : (build ctx e).definition = .ok d) :
    ∃ i, Inputs.empty.addAll ctx.source ctx.conventions e.parameters = (i, none) ∧
      Built.Made ctx e i (build ctx e) d := by
  unfold build at h ⊢
  simp only at h ⊢
  split at h
  case isTrue => cases h
  case isFalse hm =>
  rw [if_neg hm]
  generalize Inputs.empty.addAll ctx.source ctx.conventions e.parameters = read at h ⊢
  obtain ⟨i, fault⟩ := read
  cases fault with
  | some fault => cases h
  | none =>
    simp only [Except.ok.injEq] at h
    subst h
    refine ⟨i, rfl, ?_⟩
    constructor
    -- the id is compared as it is written: its digest is not to be computed
    case id => dsimp only
    all_goals rfl

theorem build_ok (h : (build ctx e).definition = .ok d) : Built.Sound ctx e (build ctx e).references.keys d := by
  obtain ⟨i, ha, hd⟩ := made_of_build h
  have hi : (documented ctx e i).1.Sound ctx.source ctx.conventions e.parameters :=
    (Inputs.sound_empty.addAll (fun _ hp => hp) ha).documented
  rw [hd.references]
  refine ⟨fun q hq => ?_, hd.content, hd.shape, fun path hr hm => ?_⟩
  · rw [hd.parameters] at hq
    obtain ⟨p, hp, rfl⟩ := List.mem_map.1 hq
    exact (hi p hp).mono fun k hk => PathSet.mem_addAll.2 (.inr hk)
  · exact PathSet.mem_addAll.2 (.inl (Option.mem_toList.2 (Option.filter_eq_some_iff.2 ⟨hr, hm⟩)))

theorem Built.Sound.mono {noted noted' : List String} (h : Built.Sound ctx e noted d)
    (hn : ∀ k ∈ noted, k ∈ noted') : Built.Sound ctx e noted' d :=
  ⟨fun q hq => (h.parameters q hq).mono hn, h.content, h.shape, fun path hr hm => hn path (h.returned path hr hm)⟩

namespace Definitions

/-- Whether each definition of a run comes from one of some endpoints, with the models it refers to
noted. -/
def Sound (ctx : Context) (es : List Facts.Endpoint) (ds : Definitions) : Prop :=
  ∀ d ∈ ds.toList, ∃ e ∈ es, Built.Sound ctx e ds.references.keys d

end Definitions

end ApiDocs.Endpoint
