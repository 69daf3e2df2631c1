import ApiDocs.Extraction
import ApiDocs.OpenApi.Render
import ApiDocs.Proofs.Endpoint.Isolation
import ApiDocs.Proofs.ModelGraph
import ApiDocs.Proofs.TypeExpr.Classify
/-!
# What an extraction leaves unresolved

Every wanted class path that an extraction names has been resolved, to a model or to a failure. The
one way around is a declared type that is an array by its name and erases to a page: the parameter is
documented with the element, but the content of the page is noted.
-/
namespace ApiDocs.Extraction

/-- What documents of an extraction are rendered from. -/
def documentContext (ex : Extraction) (config : Config) : OpenApi.Context :=
  ⟨config.service, config.conventions, ex.registry.models⟩

/-- The class paths that an extraction names: those of parameters, of what is returned, and of fields
that refer to a type. -/
inductive Names (ex : Extraction) : String → Prop
  | parameter {d q} : d ∈ ex.endpoints.toList → q ∈ d.parameters → Names ex q.classPath
  | returned {d path} : d ∈ ex.endpoints.toList → d.returnClass = some path → Names ex path
  | field {owner model f} : ex.registry.models.get? owner = some model → f ∈ model.fields →
      f.kind.isReference = true → Names ex f.classPath

/-- Whether some endpoint declares an array of a class that erases to a page. -/
def PagedArray (source : Facts.Source) (c : Conventions) (path : String) : Prop :=
  ∃ es, source.endpoints = .ok es ∧
    ∃ e ∈ es, ∃ t isEnum, Endpoint.Declares source c e.parameters t isEnum ∧ c.IsPagedArray t path

variable {source : Facts.Source} {config : Config} {ex : Extraction}

/-- A successful extraction is the run over the endpoints of the source, and has resolved what they refer
to and the body of errors. -/
theorem ofSource_eq_ok (h : ofSource source config = .ok ex) :
    ∃ es catalog, source.endpoints = .ok es ∧
      ex.endpoints = .ofEndpoints ⟨source, config.service, config.conventions, catalog⟩ es ∧
      (Modeler.ofConfig source config).Resolved (ex.endpoints.references.keys ++ source.errorResponse.toList)
        ex.registry := by
  unfold ofSource at h
  cases hc : catalogOf source config with
  | error fault => simp [hc, bind, Except.bind] at h
  | ok catalog =>
    cases hd : definitionsOf source config catalog with
    | error fault => simp [hc, hd, bind, Except.bind] at h
    | ok ds =>
      have hrun : ∃ es, source.endpoints = .ok es ∧
          ds = .ofEndpoints ⟨source, config.service, config.conventions, catalog⟩ es := by
        unfold definitionsOf at hd
        cases he : source.endpoints with
        | error fault => simp [he, Except.map] at hd
        | ok es =>
          simp only [he, Except.map, Except.ok.injEq] at hd
          exact ⟨es, rfl, hd.symm⟩
      obtain ⟨es, he, hds⟩ := hrun
      have hroots := Modeler.underway_resolveAll (Modeler.ofConfig source config) ds.references.keys
      simp only [hc, hd, bind, Except.bind] at h
      cases hr : source.errorResponse with
      | none =>
        simp only [hr, pure, Except.pure, Except.ok.injEq] at h
        subst h
        exact ⟨es, catalog, he, hds, by simpa using hroots.resolved⟩
      | some path =>
        simp only [hr, pure, Except.pure, Except.ok.injEq] at h
        subst h
        exact ⟨es, catalog, he, hds, (hroots.resolve path).resolved⟩

/-- What is documented of a source comes from one of its endpoints. -/
theorem exists_build {d : Definition} (h : ofSource source config = .ok ex) (hd : d ∈ ex.endpoints.toList) :
    ∃ es catalog, source.endpoints = .ok es ∧
      ∃ e ∈ es, (Endpoint.build (contextOf source config catalog) e).definition = .ok d := by
  obtain ⟨es, catalog, he, hds, -⟩ := ofSource_eq_ok h
  rw [hds] at hd
  exact ⟨es, catalog, he, Endpoint.Definitions.mem_toList_ofEndpoints.1 hd⟩

/-- What it documents comes from the endpoints of the source. -/
theorem ofSource_ok (h : ofSource source config = .ok ex) :
    ∃ es catalog, source.endpoints = .ok es ∧
      ex.endpoints.Sound ⟨source, config.service, config.conventions, catalog⟩ es ∧
      (Modeler.ofConfig source config).Resolved (ex.endpoints.references.keys ++ source.errorResponse.toList)
        ex.registry := by
  obtain ⟨es, catalog, he, hds, hres⟩ := ofSource_eq_ok h
  exact ⟨es, catalog, he, hds ▸ Endpoint.Definitions.sound_ofEndpoints _ es, hres⟩

/-- Wanted class paths that an extraction names have a model or a failure, but for the elements of
arrays that erase to a page. -/
theorem named_settled (source : Facts.Source) (config : Config) (ex : Extraction)
    (h : ofSource source config = .ok ex) (path : String) (hn : ex.Names path)
    (hw : (Modeler.ofConfig source config).isWanted path = true) :
    path ∈ ex.registry.models.keys ∨ path ∈ ex.registry.failures.map (·.1) ∨
      PagedArray source config.conventions path := by
  obtain ⟨es, catalog, he, hsound, hres⟩ := ofSource_ok h
  have hm : config.conventions.isModel path = true := (Bool.and_eq_true_iff.1 hw).1
  have hneeded : (Modeler.ofConfig source config).Needed
      (ex.endpoints.references.keys ++ source.errorResponse.toList) path →
      path ∈ ex.registry.models.keys ∨ path ∈ ex.registry.failures.map (·.1) ∨
        PagedArray source config.conventions path := by
    intro hn
    have hset := (hres.settled path).2 ((hres.marked path).2 hn)
    exact (List.mem_append.1 hset).imp_right .inl
  have hnoted : path ∈ ex.endpoints.references.keys → (Modeler.ofConfig source config).Needed
      (ex.endpoints.references.keys ++ source.errorResponse.toList) path :=
    fun hk => .root (List.mem_append_left _ hk) hw
  cases hn with
  | @parameter d q hd hq =>
    obtain ⟨e, hmem, hbuilt⟩ := hsound d hd
    rcases (hbuilt.parameters q hq).noted_or hm with hk | ⟨t, hdecl, hp⟩
    · exact hneeded (hnoted hk)
    · exact .inr (.inr ⟨es, he, e, hmem, t, q.isEnum, hdecl, hp⟩)
  | returned hd hr =>
    obtain ⟨e, -, hbuilt⟩ := hsound _ hd
    exact hneeded (hnoted (hbuilt.returned path hr hm))
  | @field owner model f hg hf hk =>
    obtain ⟨hown, t, ht, rfl⟩ := (hres.models owner model).1 hg
    exact hneeded (.field hown (Modeler.model?_of_ok ht) hf hk hw)

/-- A source with one endpoint and a class of rows. -/
def listing (parameters : List Facts.Parameter) (returnType : TypeExpr) : Facts.Source :=
  .ofDocument
    { endpoints :=
        [{ handler := "h.Rows", handlerPath := "", groupId := none, methodName := "list", mappingName := none
           httpMethod := "GET", path := "/rows", parameters, returnType, comment := ⟨"", []⟩, throws := [] }]
      types := Keyed.empty.put "com.x.Row"
        ⟨"com.x.Row", .object, "", none, [⟨"id", .named "long", false, false, false, ""⟩], []⟩
      exceptions := []
      errorResponse := none }

/-- The class paths of the parameters of an extraction, those with a model, and those that failed. -/
def classes (ex : Extraction) : List String × List String × List String :=
  (ex.endpoints.toList.flatMap fun d => d.parameters.map (·.classPath), ex.registry.models.keys,
    ex.registry.failures.map (·.1))

theorem names_of_mem_classes {path : String} (h : path ∈ ex.classes.1) : ex.Names path := by
  obtain ⟨d, hd, hmap⟩ := List.mem_flatMap.1 h
  obtain ⟨q, hq, rfl⟩ := List.mem_map.1 hmap
  exact .parameter hd hq

/-- A source can be extracted where something that its extraction has is known. -/
theorem exists_of_map {α : Type} (f : Extraction → α) (source : Facts.Source) (config : Config) (a : α)
    (h : (ofSource source config).toOption.map f = some a) : ∃ ex, ofSource source config = .ok ex ∧ f ex = a := by
  obtain ⟨ex, he, ha⟩ := Option.map_eq_some_iff.1 h
  exact ⟨ex, Outcome.toOption_eq_some_iff.1 he, ha⟩

/-- The source whose endpoint takes rows in a parameter of some type. -/
def taking (type : TypeExpr) : Facts.Source :=
  listing [⟨"rows", type, false, .unbound⟩] (.named "void")

theorem listing_settled : ∃ ex, ofSource (taking (.named "com.x.Row[]")) (.ofServiceId "svc") = .ok ex ∧
    ex.Names "com.x.Row" ∧
    (Modeler.ofConfig (taking (.named "com.x.Row[]")) (.ofServiceId "svc")).isWanted "com.x.Row" = true ∧
    ("com.x.Row" ∈ ex.registry.models.keys ∨ "com.x.Row" ∈ ex.registry.failures.map (·.1) ∨
      PagedArray (taking (.named "com.x.Row[]")) .default "com.x.Row") := by
  obtain ⟨ex, he, hc⟩ := exists_of_map classes (taking (.named "com.x.Row[]")) (.ofServiceId "svc")
    (["com.x.Row"], ["com.x.Row"], []) (by decide)
  have hn : ex.Names "com.x.Row" := names_of_mem_classes (by simp [hc])
  exact ⟨ex, he, hn, by decide, named_settled _ _ ex he _ hn (by decide)⟩

/-- The type of rows that are called an array and bounded by a page. -/
def pagedRows : TypeExpr := ⟨"com.x.Row[]", [], true, some "org.springframework.data.domain.Page"⟩

/-- The class of the rows is documented, but nobody has tried to resolve it. -/
theorem pagedRows_unsettled : ¬ ∀ (source : Facts.Source) (config : Config) (ex : Extraction) (path : String),
    ofSource source config = .ok ex → ex.Names path → (Modeler.ofConfig source config).isWanted path = true →
      path ∈ ex.registry.models.keys ∨ path ∈ ex.registry.failures.map (·.1) := by
  intro hall
  obtain ⟨ex, he, hc⟩ := exists_of_map classes (taking pagedRows) (.ofServiceId "svc")
    (["com.x.Row"], [], []) (by decide)
  have hn : ex.Names "com.x.Row" := names_of_mem_classes (by simp [hc])
  have hmodels : ex.registry.models.keys = [] := congrArg (fun cs => cs.2.1) hc
  have hfailures : ex.registry.failures.map (·.1) = [] := congrArg (fun cs => cs.2.2) hc
  have hsettled := hall _ _ ex _ he hn (by decide)
  simp [hmodels, hfailures] at hsettled

end ApiDocs.Extraction
