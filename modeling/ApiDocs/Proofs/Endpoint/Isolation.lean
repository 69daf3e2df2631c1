import ApiDocs.Extraction
import ApiDocs.Proofs.Endpoint.Declared
import ApiDocs.Proofs.Grouping
/-!
# Endpoints on their own

A run documents each endpoint as it would alone. The definitions under a handler are those of its
endpoints that can be documented, the skipped ones are the others, and only the former refer to
models. So endpoints that cannot be documented leave no other trace, wherever they stand in the list.
-/
namespace ApiDocs

/-! ## Sources that list other endpoints -/

namespace Facts.Source

/-- The source with another list of endpoints. -/
def withEndpoints (s : Source) (listed : Outcome (List Endpoint)) : Source :=
  { s with endpoints := listed }

variable (s : Source) (listed : Outcome (List Endpoint))

theorem typeFacts_withEndpoints : (s.withEndpoints listed).typeFacts = s.typeFacts := rfl

theorem ancestors_withEndpoints (root : String) (steps : Nat) (seen : List String) (next : Option String) :
    (s.withEndpoints listed).ancestors root steps seen next = s.ancestors root steps seen next := by
  induction steps generalizing seen next with
  | zero => rfl
  | succ steps ih =>
    cases next with
    | none => rfl
    | some path => simp only [ancestors, typeFacts_withEndpoints, ih]

theorem membersOf_withEndpoints (c : Conventions) : (s.withEndpoints listed).membersOf c = s.membersOf c := by
  funext t
  simp only [membersOf, lineage, ancestors_withEndpoints]
  rfl

theorem declaredMembers_withEndpoints (c : Conventions) :
    (s.withEndpoints listed).declaredMembers c = s.declaredMembers c := by
  funext path
  simp only [declaredMembers, typeFacts_withEndpoints, membersOf_withEndpoints]

end Facts.Source

namespace Endpoint

section
variable (s : Facts.Source) (listed : Outcome (List Facts.Endpoint)) (c : Conventions)

theorem Inputs.add_withEndpoints : Inputs.add (s.withEndpoints listed) c = Inputs.add s c := by
  unfold Inputs.add
  rw [s.declaredMembers_withEndpoints]

theorem Inputs.addAll_withEndpoints (i : Inputs) (ps : List Facts.Parameter) :
    i.addAll (s.withEndpoints listed) c ps = i.addAll s c ps := by
  induction ps generalizing i with
  | nil => rfl
  | cons p rest ih => simp only [Inputs.addAll, Inputs.add_withEndpoints, ih]

theorem applyTag_withEndpoints : applyTag (s.withEndpoints listed) = applyTag s := rfl

end

variable (ctx : Context)

/-- Building an endpoint does not look at the list it stands in. -/
theorem build_withEndpoints (listed : Outcome (List Facts.Endpoint)) (e : Facts.Endpoint) :
    build { ctx with source := ctx.source.withEndpoints listed } e = build ctx e := by
  simp only [build, documented, Inputs.addAll_withEndpoints, applyTag_withEndpoints]

/-! ## What an endpoint comes to -/

/-- The definition of an endpoint that can be documented. -/
def definition? (e : Facts.Endpoint) : Option Definition :=
  (build ctx e).definition.toOption

/-- The note of an endpoint that cannot be documented, with the reason. -/
def skipped? (e : Facts.Endpoint) : Option Skipped :=
  match (build ctx e).definition with
  | .ok _ => none
  | .error fault => some ⟨e.handler, e.methodName, fault.message⟩

/-- The endpoints of a list that can be documented. -/
def documentable (es : List Facts.Endpoint) : List Facts.Endpoint :=
  es.filter fun e => (definition? ctx e).isSome

/-- The definitions of some endpoints, each with its handler. -/
def byHandler (es : List Facts.Endpoint) : List (String × Definition) :=
  es.filterMap fun e => (definition? ctx e).map fun d => (e.handler, d)

variable {ctx} {es : List Facts.Endpoint}

theorem definition?_eq_some_iff {e : Facts.Endpoint} {d : Definition} :
    definition? ctx e = some d ↔ (build ctx e).definition = .ok d :=
  Outcome.toOption_eq_some_iff

theorem definition?_of_error {e : Facts.Endpoint} {fault : Fault} (h : (build ctx e).definition = .error fault) :
    definition? ctx e = none := by
  rw [definition?, h]
  rfl

/-- Each definition stands under the handler of an endpoint that can be documented, in the same order. -/
theorem map_fst_byHandler : (byHandler ctx es).map Prod.fst = (documentable ctx es).map (·.handler) := by
  induction es with
  | nil => rfl
  | cons e rest ih =>
    simp only [byHandler, documentable] at ih ⊢
    cases hd : definition? ctx e with
    | none => simpa [hd] using ih
    | some d => simpa [hd] using ih

/-- The definitions of a handler are those of its endpoints. -/
theorem filter_byHandler (handler : String) :
    ((byHandler ctx es).filter fun p => p.1 = handler).map Prod.snd =
      (es.filter fun e => e.handler = handler).filterMap (definition? ctx) := by
  induction es with
  | nil => rfl
  | cons e rest ih =>
    simp only [byHandler] at ih ⊢
    cases hd : definition? ctx e with
    | none =>
      by_cases hh : e.handler = handler
      · simpa [hd, hh] using ih
      · simpa [hd, hh] using ih
    | some d =>
      by_cases hh : e.handler = handler
      · simpa [hd, hh] using ih
      · simpa [hd, hh] using ih

theorem byHandler_documentable : byHandler ctx (documentable ctx es) = byHandler ctx es := by
  induction es with
  | nil => rfl
  | cons e rest ih =>
    simp only [byHandler, documentable] at ih ⊢
    cases hd : definition? ctx e with
    | none => simpa [hd] using ih
    | some d => simpa [hd] using ih

/-! ## Runs -/

/-- Sets of class paths are determined by their members. -/
theorem PathSet.ext_keys {s s' : PathSet} (h : ∀ k, k ∈ s.keys ↔ k ∈ s'.keys) : s = s' := by
  refine Sorted.ext_get? fun k => ?_
  have hiff : Pairs.get? k s.entries = none ↔ Pairs.get? k s'.entries = none := by
    rw [Pairs.get?_eq_none_iff, Pairs.get?_eq_none_iff]
    exact not_congr (h k)
  simp only [Sorted.get?]
  cases hs : Pairs.get? k s.entries with
  | none => exact (hiff.1 hs).symm
  | some u =>
    cases hs' : Pairs.get? k s'.entries with
    | none => simp [hiff.2 hs'] at hs
    | some u' => rfl

namespace Definitions

theorem ofEndpoints_concat (es : List Facts.Endpoint) (e : Facts.Endpoint) :
    ofEndpoints ctx (es ++ [e]) = (ofEndpoints ctx es).add e (build ctx e) := by
  simp [ofEndpoints]

theorem groups_ofEndpoints (es : List Facts.Endpoint) :
    (ofEndpoints ctx es).groups = Keyed.grouped Prod.fst Prod.snd (byHandler ctx es) := by
  induction es using List.reverseRecOn with
  | nil => rfl
  | append_singleton es e ih =>
    rw [ofEndpoints_concat, byHandler, List.filterMap_append, ← byHandler]
    unfold add
    cases hb : (build ctx e).definition with
    | ok d => simp [definition?_eq_some_iff.2 hb, Keyed.grouped_concat, ih]
    | error fault => simp [definition?_of_error hb, ih]

/-- What a run documents are the definitions of its endpoints. -/
theorem mem_toList_ofEndpoints {d : Definition} :
    d ∈ (ofEndpoints ctx es).toList ↔ ∃ e ∈ es, (build ctx e).definition = .ok d := by
  have hp := Keyed.flatten_grouped_perm Prod.fst Prod.snd (byHandler ctx es)
  rw [toList, groups_ofEndpoints, hp.mem_iff]
  simp only [byHandler, List.mem_map, List.mem_filterMap, Option.map_eq_some_iff, definition?_eq_some_iff]
  constructor
  · rintro ⟨-, ⟨e, he, d, hd, rfl⟩, rfl⟩
    exact ⟨e, he, hd⟩
  · rintro ⟨e, he, hd⟩
    exact ⟨_, ⟨e, he, d, hd, rfl⟩, rfl⟩

theorem skipped_ofEndpoints (es : List Facts.Endpoint) :
    (ofEndpoints ctx es).skipped = es.filterMap (skipped? ctx) := by
  induction es using List.reverseRecOn with
  | nil => rfl
  | append_singleton es e ih =>
    rw [ofEndpoints_concat, List.filterMap_append, ← ih]
    unfold add
    cases hb : (build ctx e).definition with
    | ok d => simp [skipped?, hb]
    | error fault => simp [skipped?, hb]

theorem mem_references_ofEndpoints {path : String} :
    path ∈ (ofEndpoints ctx es).references.keys ↔ ∃ e ∈ documentable ctx es, path ∈ (build ctx e).references.keys := by
  induction es using List.reverseRecOn with
  | nil => simp [ofEndpoints, empty, documentable, Sorted.keys, Sorted.empty, Pairs.keys]
  | append_singleton es e ih =>
    rw [ofEndpoints_concat, documentable, List.filter_append, ← documentable]
    unfold add
    cases hb : (build ctx e).definition with
    | ok d =>
      simp only [PathSet.mem_addAll, ih, List.mem_append, or_and_right, exists_or]
      rw [or_comm]
      simp [definition?_eq_some_iff.2 hb]
    | error fault => simpa [definition?_of_error hb] using ih

/-- What a run notes is what its definitions refer to. -/
theorem sound_ofEndpoints (ctx : Context) (es : List Facts.Endpoint) : (ofEndpoints ctx es).Sound ctx es := by
  intro d hd
  obtain ⟨e, he, hb⟩ := mem_toList_ofEndpoints.1 hd
  have hdoc : e ∈ documentable ctx es := List.mem_filter.2 ⟨he, by simp [definition?_eq_some_iff.2 hb]⟩
  exact ⟨e, he, (build_ok hb).mono fun k hk => mem_references_ofEndpoints.2 ⟨e, hdoc, hk⟩⟩

end Definitions

end Endpoint

namespace Extraction

open Endpoint (documentable definition? skipped?)

/-- What the endpoints of a source are documented with. -/
def contextOf (source : Facts.Source) (config : Config) (catalog : ErrorCatalog) : Endpoint.Context :=
  ⟨source, config.service, config.conventions, catalog⟩

variable {source : Facts.Source} {config : Config} {catalog : ErrorCatalog}

theorem definitionsOf_ok {es : List Facts.Endpoint} (h : source.endpoints = .ok es) :
    definitionsOf source config catalog = .ok (.ofEndpoints (contextOf source config catalog) es) := by
  rw [definitionsOf, h]
  rfl

/-- Endpoints that are listed are documented, whatever is wrong with some of them. The handlers come in
the order of their first endpoint that can be documented, each with what its endpoints are documented
as on their own; the others are skipped in their order with their reasons, and the models referred to
are those of the former. No definition depends on the list, so a list that differs only in endpoints
that cannot be documented gives the same definitions and references. -/
theorem definitionsOf_isolated (source : Facts.Source) (config : Config) (catalog : ErrorCatalog)
    (es : List Facts.Endpoint) (h : source.endpoints = .ok es) :
    ∃ ds, definitionsOf source config catalog = .ok ds ∧
      ds.groups.entries =
        ((documentable (contextOf source config catalog) es).map (·.handler)).eraseDups.map (fun handler =>
          (handler, (es.filter fun e => e.handler = handler).filterMap
            (definition? (contextOf source config catalog)))) ∧
      ds.skipped = es.filterMap (skipped? (contextOf source config catalog)) ∧
      (∀ path, path ∈ ds.references.keys ↔ ∃ e ∈ documentable (contextOf source config catalog) es,
        path ∈ (Endpoint.build (contextOf source config catalog) e).references.keys) ∧
      (∀ listed e, Endpoint.build (contextOf (source.withEndpoints listed) config catalog) e =
        Endpoint.build (contextOf source config catalog) e) ∧
      ∀ es', documentable (contextOf source config catalog) es' = documentable (contextOf source config catalog) es →
        ∃ ds', definitionsOf (source.withEndpoints (.ok es')) config catalog = .ok ds' ∧
          ds'.groups = ds.groups ∧ ds'.references = ds.references ∧
          ds'.skipped = es'.filterMap (skipped? (contextOf source config catalog)) := by
  have halone : ∀ listed e, Endpoint.build (contextOf (source.withEndpoints listed) config catalog) e =
      Endpoint.build (contextOf source config catalog) e := Endpoint.build_withEndpoints (contextOf source config catalog)
  refine ⟨_, definitionsOf_ok h, ?_, Endpoint.Definitions.skipped_ofEndpoints es,
    fun path => Endpoint.Definitions.mem_references_ofEndpoints, halone, fun es' hes' => ?_⟩
  · rw [Endpoint.Definitions.groups_ofEndpoints, Keyed.entries_grouped, Endpoint.map_fst_byHandler]
    simp only [Endpoint.filter_byHandler]
  · -- The other source builds every endpoint alike, so its run is one of this source over the other list.
    have hrun : Endpoint.Definitions.ofEndpoints (contextOf (source.withEndpoints (.ok es')) config catalog) es' =
        .ofEndpoints (contextOf source config catalog) es' := by
      simp only [Endpoint.Definitions.ofEndpoints, halone]
    refine ⟨_, (definitionsOf_ok rfl).trans (congrArg _ hrun), ?_, ?_, Endpoint.Definitions.skipped_ofEndpoints es'⟩
    · rw [Endpoint.Definitions.groups_ofEndpoints, Endpoint.Definitions.groups_ofEndpoints,
        ← Endpoint.byHandler_documentable, hes', Endpoint.byHandler_documentable]
    · refine Endpoint.PathSet.ext_keys fun path => ?_
      rw [Endpoint.Definitions.mem_references_ofEndpoints, Endpoint.Definitions.mem_references_ofEndpoints, hes']

/-- An endpoint of a handler. -/
def listed (handler method : String) (parameters : List Facts.Parameter) : Facts.Endpoint where
  handler := handler
  handlerPath := ""
  groupId := none
  methodName := "list"
  mappingName := none
  httpMethod := method
  path := "/rows"
  parameters := parameters
  returnType := .named "void"
  comment := ⟨"", []⟩
  throws := []

/-- Endpoints of two handlers. The first has no method, and the third fails in its second parameter,
a query object without facts. -/
def mixed : List Facts.Endpoint :=
  [listed "h.Rows" "" [], listed "h.Cells" "GET" [⟨"cell", .named "com.x.Cell", false, .body⟩],
    listed "h.Rows" "PUT" [⟨"row", .named "com.x.Row", false, .body⟩, ⟨"by", .named "com.x.By", false, .queryObject⟩],
    listed "h.Rows" "POST" [⟨"row", .named "com.x.Row", false, .body⟩]]

/-- A source that lists them. -/
def mixedSource : Facts.Source :=
  .ofDocument ⟨mixed, Keyed.empty, [], none⟩

theorem mixed_isolated : mixedSource.endpoints = .ok mixed ∧
    ∃ ds, definitionsOf mixedSource (.ofServiceId "svc") (.ofExceptions [] Keyed.empty) = .ok ds ∧
      ds.groups.keys = ["h.Cells", "h.Rows"] ∧
      ds.skipped = [⟨"h.Rows", "list", "Resolution error: h.Rows#list has no HTTP method"⟩,
        ⟨"h.Rows", "list", "Resolution error: No facts for type com.x.By"⟩] ∧
      ∃ ds', definitionsOf (mixedSource.withEndpoints (.ok (mixed.drop 1))) (.ofServiceId "svc")
          (.ofExceptions [] Keyed.empty) = .ok ds' ∧ ds'.groups = ds.groups ∧ ds'.references = ds.references := by
  refine ⟨rfl, ?_⟩
  obtain ⟨ds, hds, hgroups, hskipped, -, -, hothers⟩ :=
    definitionsOf_isolated mixedSource (.ofServiceId "svc") (.ofExceptions [] Keyed.empty) mixed rfl
  have hfirst : definition? (contextOf mixedSource (.ofServiceId "svc") (.ofExceptions [] Keyed.empty))
      (listed "h.Rows" "" []) = none := by decide
  obtain ⟨ds', hds', hgroups', hreferences', -⟩ :=
    hothers (mixed.drop 1) (List.filter_cons_of_neg (by simp [hfirst])).symm
  refine ⟨ds, hds, ?_, hskipped.trans (by decide), ds', hds', hgroups', hreferences'⟩
  rw [Keyed.keys, hgroups]
  decide

end Extraction

end ApiDocs
