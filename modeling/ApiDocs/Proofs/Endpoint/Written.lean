import ApiDocs.Proofs.Endpoint.Declared
/-!
# What declared parameters write

The parameters of an endpoint are kept under names, and each declared parameter writes some: one of
its own kind under the name it is declared by, or those it expands into, each under its own name. What
stands under a name at the end is what the last declared parameter that writes the name has written,
up to the description that tags give it. So a declared parameter is lost exactly where a later one
expands into another of its name.
-/
namespace ApiDocs

/-- A parameter without its description. -/
def Parameter.undescribed (p : Parameter) : Parameter :=
  { p with description := "" }

namespace Endpoint

/-! ## Own parameters and expansions -/

/-- The place that the binding of a declared parameter says. -/
def locationOf (p : Facts.Parameter) : Location :=
  match p.binding with
  | .path .. => .path
  | .body => .body
  | _ => .query

/-- The name that a declared parameter is bound to, or else the one it is declared by. -/
def boundName (p : Facts.Parameter) : String :=
  match p.binding with
  | .path name _ | .query name _ _ => (nonEmpty name).getD p.name
  | _ => p.name

/-- The parameters that a declared parameter expands into: those of a paging request, or one for each
member of a query object. -/
def expansion (s : Facts.Source) (c : Conventions) (p : Facts.Parameter) : List Parameter :=
  if c.erasedName p.type = c.pageable then pageableParameters
  else match p.binding with
    | .pageDefaults page size offset column direction => pageDefaultParameters page size offset column direction
    | .queryObject =>
      match s.declaredMembers c (c.erasedName p.type) with
      | .ok members => members.map (memberParameter c)
      | .error _ => []
    | _ => []

/-- What a declared parameter writes under which names. -/
inductive Writes (s : Facts.Source) (c : Conventions) (p : Facts.Parameter) : String → Parameter → Prop
  | own : IsOwn c p → Writes s c p p.name (parameterOf c p)
  | expanded {q} : q ∈ expansion s c p → Writes s c p q.name q

variable {s : Facts.Source} {c : Conventions} {p : Facts.Parameter} {q : Parameter} {k : String}

/-- A parameter that is documented as one of its own kind does not expand. -/
theorem IsOwn.expansion_eq_nil (h : IsOwn c p) : expansion s c p = [] := by
  obtain ⟨hpage, hb⟩ := h
  rw [expansion, if_neg hpage]
  cases hbinding : p.binding <;> simp [hbinding] at hb ⊢

/-- A declared parameter only expands into parameters of the query. -/
theorem location_of_mem_expansion (h : q ∈ expansion s c p) : q.location = .query := by
  unfold expansion at h
  split at h
  case isTrue =>
    simp only [pageableParameters, List.mem_cons, List.not_mem_nil, or_false] at h
    rcases h with rfl | rfl | rfl <;> rfl
  case isFalse =>
  split at h
  case h_1 =>
    simp only [pageDefaultParameters, List.mem_cons, List.not_mem_nil, or_false] at h
    rcases h with rfl | rfl | rfl | rfl <;> rfl
  case h_2 =>
    split at h
    case h_1 =>
      obtain ⟨m, -, rfl⟩ := List.mem_map.1 h
      rfl
    case h_2 => cases h
  case h_3 => cases h

theorem IsOwn.eq_of_writes (h : IsOwn c p) (hw : Writes s c p k q) : k = p.name ∧ q = parameterOf c p := by
  cases hw with
  | own => exact ⟨rfl, rfl⟩
  | expanded hq =>
    rw [h.expansion_eq_nil] at hq
    cases hq

/-! ## Reading the parameters of an endpoint -/

namespace Inputs

variable {i i' : Inputs}

theorem parameters_addNamed (i : Inputs) (qs : List Parameter) :
    (i.addNamed qs).parameters = qs.foldl (fun m q => m.put q.name q) i.parameters := by
  unfold addNamed
  induction qs generalizing i with
  | nil => rfl
  | cons q rest ih => exact ih (i.addParameter q.name q)

theorem parameters_addMembers (c : Conventions) (i : Inputs) (ms : List Facts.Member) :
    (i.addMembers c ms).parameters =
      (ms.map (memberParameter c)).foldl (fun m q => m.put q.name q) i.parameters := by
  unfold addMembers
  induction ms generalizing i with
  | nil => rfl
  | cons m rest ih => exact ih _

/-- A declared parameter is written under its name, or what it expands into under the names of that. -/
theorem parameters_add (h : i.add s c p = .ok i') :
    (IsOwn c p ∧ i'.parameters = i.parameters.put p.name (parameterOf c p)) ∨
      (¬ IsOwn c p ∧ i'.parameters = (expansion s c p).foldl (fun m q => m.put q.name q) i.parameters) := by
  unfold expansion
  cases reads_of_add h with
  | pageable hpage =>
    rw [if_pos hpage]
    exact .inr ⟨fun hown => hown.1 hpage, parameters_addNamed _ _⟩
  | header hpage hb =>
    rw [if_neg hpage, hb]
    exact .inr ⟨fun hown => by simp [IsOwn, hb] at hown, rfl⟩
  | pageDefaults hpage hb =>
    rw [if_neg hpage, hb]
    exact .inr ⟨fun hown => by simp [IsOwn, hb] at hown, parameters_addNamed _ _⟩
  | members hpage hb hm =>
    rw [if_neg hpage, hb]
    simp only [hm]
    exact .inr ⟨fun hown => by simp [IsOwn, hb] at hown, parameters_addMembers _ _ _⟩
  | own hown => exact .inl ⟨hown, rfl⟩

/-- Under a name stands what the declared parameter has written there, or what stood there before. -/
theorem get?_add (h : i.add s c p = .ok i') (k : String) :
    (∃ q, Writes s c p k q ∧ i'.parameters.get? k = some q) ∨
      (∀ q, ¬ Writes s c p k q) ∧ i'.parameters.get? k = i.parameters.get? k := by
  rcases parameters_add h with ⟨hown, hp⟩ | ⟨hown, hp⟩
  · rw [hp, Keyed.get?_put]
    by_cases hk : p.name = k
    · exact .inl ⟨_, hk ▸ .own hown, if_pos hk⟩
    · exact .inr ⟨fun q hw => hk (hown.eq_of_writes hw).1.symm, if_neg hk⟩
  · rw [hp]
    rcases Keyed.get?_foldl_put Parameter.name (expansion s c p) k i.parameters with ⟨q, hq, rfl, hget⟩ | ⟨hnone, hget⟩
    · exact .inl ⟨q, .expanded hq, hget⟩
    · refine .inr ⟨fun q hw => ?_, hget⟩
      cases hw with
      | own h => exact hown h
      | expanded hq => exact hnone q hq rfl

theorem addAll_append_ok {ps qs : List Facts.Parameter} (h : i.addAll s c (ps ++ qs) = (i', none)) :
    ∃ i₁, i.addAll s c ps = (i₁, none) ∧ i₁.addAll s c qs = (i', none) := by
  induction ps generalizing i with
  | nil => exact ⟨i, rfl, h⟩
  | cons p rest ih =>
    obtain ⟨i₁, ha, h⟩ := addAll_cons_ok h
    obtain ⟨i₂, hp, hq⟩ := ih h
    exact ⟨i₂, by rw [addAll, ha]; exact hp, hq⟩

/-- Under a name stands what the last declared parameter that writes the name has written. -/
theorem get?_addAll {ps : List Facts.Parameter} (h : i.addAll s c ps = (i', none)) (k : String) :
    (∃ p ∈ ps, ∃ q, Writes s c p k q ∧ i'.parameters.get? k = some q) ∨
      (∀ p ∈ ps, ∀ q, ¬ Writes s c p k q) ∧ i'.parameters.get? k = i.parameters.get? k := by
  induction ps generalizing i with
  | nil =>
    cases h
    exact .inr ⟨by simp, rfl⟩
  | cons p rest ih =>
    obtain ⟨i₁, ha, h⟩ := addAll_cons_ok h
    rcases ih h with ⟨p', hp', q, hw, hget⟩ | ⟨hrest, hget⟩
    · exact .inl ⟨p', List.mem_cons_of_mem _ hp', q, hw, hget⟩
    · rw [hget]
      rcases get?_add ha k with ⟨q, hw, hq⟩ | ⟨hnone, hk⟩
      · exact .inl ⟨p, List.mem_cons_self, q, hw, hq⟩
      · exact .inr ⟨List.forall_mem_cons.2 ⟨hnone, hrest⟩, hk⟩

/-! ## Tags -/

/-- Tags change descriptions only. -/
theorem undescribed_describe (i : Inputs) (name text : String) :
    (i.describe s name text).parameters.map Parameter.undescribed = i.parameters.map Parameter.undescribed := by
  unfold describe
  cases hp : i.parameters.get? name with
  | some p =>
    have hstands : (i.parameters.map Parameter.undescribed).get? name = some p.undescribed := by
      rw [Keyed.get?_map, hp]
      rfl
    exact (Keyed.map_put _ _ _ _).trans (Keyed.put_of_get? hstands)
  | none => cases i.headers.get? name <;> rfl

theorem undescribed_applyTag (catalog : ErrorCatalog) (state : Inputs × Summary) (t : Facts.Tag) :
    (Endpoint.applyTag s catalog state t).1.parameters.map Parameter.undescribed =
      state.1.parameters.map Parameter.undescribed := by
  rcases applyTag_cases s catalog state t with he | ⟨name, text, he⟩ | ⟨name, header, he⟩
  · rw [he]
  · rw [he, undescribed_describe]
  · rw [he]
    rfl

theorem undescribed_documented (ctx : Context) (e : Facts.Endpoint) (i : Inputs) :
    (documented ctx e i).1.parameters.map Parameter.undescribed = i.parameters.map Parameter.undescribed := by
  have main : ∀ (tags : List Facts.Tag) (state : Inputs × Summary),
      (tags.foldl (Endpoint.applyTag ctx.source ctx.catalog) state).1.parameters.map Parameter.undescribed =
        state.1.parameters.map Parameter.undescribed := by
    intro tags
    induction tags with
    | nil => exact fun state => rfl
    | cons t rest ih => exact fun state => (ih _).trans (undescribed_applyTag _ _ _)
  exact main _ (i, Summary.empty)

end Inputs

/-! ## Definitions -/

variable {ctx : Context} {e : Facts.Endpoint} {d : Definition}

/-- The parameters of a definition are what the declared parameters have written, up to descriptions. -/
theorem build_parameters (h : (build ctx e).definition = .ok d) :
    ∃ (i : Inputs) (m : Keyed Parameter),
      Inputs.empty.addAll ctx.source ctx.conventions e.parameters = (i, none) ∧ d.parameters = m.values ∧
        m.map Parameter.undescribed = i.parameters.map Parameter.undescribed := by
  obtain ⟨i, ha, hd⟩ := made_of_build h
  exact ⟨i, _, ha, hd.parameters, Inputs.undescribed_documented ctx e i⟩

/-- Lists that differ in descriptions only have the same parameters under the same names, up to those. -/
theorem exists_undescribed {m m' : Keyed Parameter}
    (h : m.map Parameter.undescribed = m'.map Parameter.undescribed) (hq : m'.get? k = some q) :
    ∃ q', m.get? k = some q' ∧ q'.undescribed = q.undescribed := by
  have hget : (m.get? k).map Parameter.undescribed = some q.undescribed := by
    rw [← Keyed.get?_map, h, Keyed.get?_map, hq]
    rfl
  exact Option.map_eq_some_iff.1 hget

/-- What stands in a definition under a name is what a declared parameter writes there. -/
theorem exists_writes {i : Inputs} {m : Keyed Parameter} {ps : List Facts.Parameter}
    (hread : Inputs.empty.addAll s c ps = (i, none))
    (hmap : m.map Parameter.undescribed = i.parameters.map Parameter.undescribed) (hq : m.get? k = some q) :
    ∃ p ∈ ps, ∃ y, Writes s c p k y ∧ q.undescribed = y.undescribed := by
  obtain ⟨q', hq', hu⟩ := exists_undescribed hmap.symm hq
  rcases Inputs.get?_addAll hread k with ⟨p, hp, y, hw, hy⟩ | ⟨-, hnone⟩
  · rw [hq'] at hy
    cases hy
    exact ⟨p, hp, _, hw, hu.symm⟩
  · rw [hq'] at hnone
    cases hnone

/-- Whether a parameter of a definition documents a declared one: in its place, under the name it is
bound to, with its class, and all else but the description as it is declared. -/
structure IsOf (c : Conventions) (p : Facts.Parameter) (q : Parameter) : Prop where
  location : q.location = locationOf p
  name : q.name = boundName p
  classPath : q.classPath = (c.elementOf p.type p.isEnum).1
  rest : q.undescribed = parameterOf c p

theorem location_parameterOf (c : Conventions) (p : Facts.Parameter) : (parameterOf c p).location = locationOf p := by
  unfold parameterOf locationOf
  cases p.binding <;> rfl

theorem name_parameterOf (c : Conventions) (p : Facts.Parameter) : (parameterOf c p).name = boundName p := by
  unfold parameterOf boundName
  cases p.binding <;> rfl

theorem IsOf.of_undescribed (h : q.undescribed = (parameterOf c p).undescribed) : IsOf c p q where
  location := (congrArg Parameter.location h).trans (location_parameterOf c p)
  name := (congrArg Parameter.name h).trans (name_parameterOf c p)
  classPath := congrArg Parameter.classPath h
  rest := h

/-- The parameters of a definition stand under distinct names. Where the declared names are distinct, a
declared parameter of the path, the query or the body stands under its own, in its place and with its
class, unless a later one expands into a parameter of its name: then a parameter of the query that such
a one expands into stands there instead. Nothing else stands in the definition. -/
theorem build_keeps_declared (ctx : Context) (e : Facts.Endpoint) (d : Definition)
    (h : (build ctx e).definition = .ok d) (hn : (e.parameters.map (·.name)).Nodup) :
    ∃ m : Keyed Parameter, d.parameters = m.values ∧
      (∀ before p after, e.parameters = before ++ p :: after → IsOwn ctx.conventions p →
        ∃ q, m.get? p.name = some q ∧
          ((∀ x ∈ after, ∀ y ∈ expansion ctx.source ctx.conventions x, y.name ≠ p.name) →
            IsOf ctx.conventions p q) ∧
          ((∃ x ∈ after, ∃ y ∈ expansion ctx.source ctx.conventions x, y.name = p.name) →
            q.location = .query ∧ ∃ x ∈ after, ∃ y ∈ expansion ctx.source ctx.conventions x,
              y.name = p.name ∧ q.undescribed = y.undescribed)) ∧
      ∀ k q, m.get? k = some q → ∃ p ∈ e.parameters, ∃ y, Writes ctx.source ctx.conventions p k y ∧
        q.undescribed = y.undescribed := by
  obtain ⟨i, m, hread, hvalues, hmap⟩ := build_parameters h
  refine ⟨m, hvalues, fun before p after he hown => ?_, fun k q hq => exists_writes hread hmap hq⟩
  rw [he] at hread
  obtain ⟨i₁, -, hread⟩ := Inputs.addAll_append_ok hread
  obtain ⟨i₂, hadd, hread⟩ := Inputs.addAll_cons_ok hread
  have hput : i₂.parameters.get? p.name = some (parameterOf ctx.conventions p) := by
    obtain ⟨-, hp⟩ := (Inputs.parameters_add hadd).resolve_right fun hr => hr.1 hown
    rw [hp, Keyed.get?_put, if_pos rfl]
  -- The names of the later parameters are others, so only what they expand into is written over it.
  have hlater : ∀ x ∈ after, x.name ≠ p.name := by
    rw [he, List.map_append, List.map_cons] at hn
    obtain ⟨hp, -⟩ := List.nodup_cons.1 (List.nodup_append.1 hn).2.1
    exact fun x hx hname => hp (hname ▸ List.mem_map_of_mem hx)
  rcases Inputs.get?_addAll hread p.name with ⟨x, hx, y, hw, hy⟩ | ⟨hnone, hkept⟩
  · generalize hk : p.name = k at hw hy hlater
    cases hw with
    | own => exact absurd rfl (hlater x hx)
    | expanded hy' =>
      obtain ⟨q, hq, hu⟩ := exists_undescribed hmap hy
      refine ⟨q, hq, fun hfree => absurd rfl (hfree x hx y hy'), fun _ => ⟨?_, x, hx, y, hy', rfl, hu⟩⟩
      have hlocation : q.undescribed.location = y.undescribed.location := congrArg Parameter.location hu
      have hquery : y.location = .query := location_of_mem_expansion hy'
      exact hlocation.trans hquery
  · obtain ⟨q, hq, hu⟩ := exists_undescribed hmap (hkept.trans hput)
    refine ⟨q, hq, fun _ => .of_undescribed hu, ?_⟩
    rintro ⟨x, hx, y, hy, hname⟩
    exact absurd (hname ▸ .expanded hy) (hnone x hx y)

/-- A service whose class of filters has a member that is called like the path variable of rows. -/
def filtering : Context where
  source := .ofDocument
    { endpoints := []
      types := Keyed.empty.put "com.x.Filter"
        ⟨"com.x.Filter", .object, "", none, [⟨"id", .named "long", false, false, false, ""⟩], []⟩
      exceptions := []
      errorResponse := none }
  service := Service.ofId "svc"
  conventions := .default
  catalog := .ofExceptions [] Keyed.empty

/-- The path variable of rows. -/
def rowId : Facts.Parameter := ⟨"id", .named "long", false, .path none true⟩

/-- The filter of rows, whose members are query parameters. -/
def rowFilter : Facts.Parameter := ⟨"filter", .named "com.x.Filter", false, .queryObject⟩

/-- An endpoint of rows with some parameters. -/
def rowsWith (parameters : List Facts.Parameter) : Facts.Endpoint where
  handler := "h.Rows"
  handlerPath := "/rows"
  groupId := none
  methodName := "find"
  mappingName := none
  httpMethod := "GET"
  path := "/{id}"
  parameters := parameters
  returnType := .named "void"
  comment := ⟨"", [⟨"param", some "id", some "The row"⟩]⟩
  throws := []

/-- The places of the parameters of a definition that is built. -/
def locations? (ctx : Context) (e : Facts.Endpoint) : Option (List Location) :=
  (build ctx e).definition.toOption.map fun d => d.parameters.map (·.location)

theorem definition_of_locations? {ls : List Location} (h : locations? ctx e = some ls) :
    ∃ d, (build ctx e).definition = .ok d ∧ d.parameters.map (·.location) = ls := by
  obtain ⟨d, hd, hls⟩ := Option.map_eq_some_iff.1 h
  exact ⟨d, Outcome.toOption_eq_some_iff.1 hd, hls⟩

/-- A path variable that is declared after a filter is kept. -/
theorem rowsWith_keeps_path : ∃ d, (build filtering (rowsWith [rowFilter, rowId])).definition = .ok d ∧
    ((rowsWith [rowFilter, rowId]).parameters.map (·.name)).Nodup ∧ IsOwn filtering.conventions rowId ∧
    ∃ m : Keyed Parameter, d.parameters = m.values ∧
      ∃ q, m.get? "id" = some q ∧ IsOf filtering.conventions rowId q := by
  have hown : IsOwn filtering.conventions rowId := ⟨by decide, trivial⟩
  have hpath : locations? filtering (rowsWith [rowFilter, rowId]) = some [.path] := by decide
  obtain ⟨d, hd, -⟩ := definition_of_locations? hpath
  obtain ⟨m, hm, hall, -⟩ := build_keeps_declared filtering (rowsWith [rowFilter, rowId]) d hd (by decide)
  obtain ⟨q, hq, hkept, -⟩ := hall [rowFilter] rowId [] rfl hown
  exact ⟨d, hd, by decide, hown, m, hm, q, hq, hkept (by simp)⟩

/-- A path variable is lost if a filter with a member of its name is declared after it. -/
theorem rowsWith_loses_path : ¬ ∀ (ctx : Context) (e : Facts.Endpoint) (d : Definition),
    (build ctx e).definition = .ok d → (e.parameters.map (·.name)).Nodup →
    ∀ p ∈ e.parameters, IsOwn ctx.conventions p →
      ∃ q ∈ d.parameters, q.location = locationOf p ∧ q.name = boundName p ∧
        q.classPath = (ctx.conventions.elementOf p.type p.isEnum).1 := by
  intro hall
  have hlost : locations? filtering (rowsWith [rowId, rowFilter]) = some [.query] := by decide
  obtain ⟨d, hd, hls⟩ := definition_of_locations? hlost
  obtain ⟨q, hq, hpath, -⟩ := hall filtering _ d hd (by decide) rowId List.mem_cons_self ⟨by decide, trivial⟩
  have hquery : q.location ∈ [Location.query] := hls ▸ List.mem_map_of_mem hq
  rw [List.mem_singleton.1 hquery] at hpath
  cases hpath

end Endpoint

end ApiDocs
