import ApiDocs.Proofs.Collection.Republish
import ApiDocs.Proofs.Endpoint.Isolation
import ApiDocs.Proofs.Endpoint.Written
import ApiDocs.Proofs.Extraction
import ApiDocs.Proofs.OpenApi.Operations
/-!
# The names that parameters are sent under

The parameters of an endpoint are kept under distinct names, but not all of them are sent under the name
they are kept under: one may be bound to another name, and a paging request is sent under two names of its
own. A definition is ambiguous in the path or in the query if two of its parameters there are sent under
one name. Exactly then its operation and its request list a name twice in that place. Headers are merged
by the names that they are sent under, so none is ever listed twice.
-/
namespace ApiDocs

/-- The names that a parameter is sent under. In the query a paging request is sent under two. -/
def Parameter.sentNames (c : Conventions) (p : Parameter) : List String :=
  if p.location = .query ∧ p.classPath = c.xpageNation then ["size", "page"] else [p.name]

variable {c : Conventions} {p : Parameter}

theorem Parameter.nodup_sentNames (c : Conventions) (p : Parameter) : (p.sentNames c).Nodup := by
  unfold sentNames
  split
  · decide
  · exact List.nodup_singleton _

theorem Parameter.sentNames_of_not_query (h : p.location ≠ .query) : p.sentNames c = [p.name] :=
  if_neg fun hp => h hp.1

/-! ## Definitions -/

namespace Definition

/-- The names that the parameters of a place are sent under. -/
def sentIn (c : Conventions) (l : Location) (d : Definition) : List String :=
  (d.parametersIn l).flatMap (Parameter.sentNames c)

/-- Whether two of the parameters of a place are sent under one name. -/
def AmbiguousIn (c : Conventions) (l : Location) (d : Definition) : Prop :=
  ∃ p q, [p, q].Sublist (d.parametersIn l) ∧ ∃ name, name ∈ p.sentNames c ∧ name ∈ q.sentNames c

variable {d : Definition}

theorem not_ambiguousIn_iff {l : Location} : ¬ d.AmbiguousIn c l ↔
    (d.parametersIn l).Pairwise fun p q => (p.sentNames c).Disjoint (q.sentNames c) := by
  rw [List.pairwise_iff_forall_sublist]
  constructor
  · exact fun h p q hpq name hp hq => h ⟨p, q, hpq, name, hp, hq⟩
  · rintro h ⟨p, q, hpq, name, hp, hq⟩
    exact h hpq hp hq

/-- The names of a place are distinct unless two parameters share one. -/
theorem nodup_sentIn_iff {l : Location} : (d.sentIn c l).Nodup ↔ ¬ d.AmbiguousIn c l := by
  rw [sentIn, List.nodup_flatMap, not_ambiguousIn_iff]
  exact and_iff_right fun p _ => p.nodup_sentNames c

theorem sentIn_path : d.sentIn c .path = (d.parametersIn .path).map (·.name) := by
  rw [sentIn, List.map_eq_flatMap]
  refine List.flatMap_congr fun p hp => Parameter.sentNames_of_not_query ?_
  rw [(OpenApi.mem_parametersIn.1 hp).2]
  decide

/-- In the query all that is listed of a parameter is listed under the names that it is sent under, if
what stands for a paging request is. -/
theorem map_flatMap_query {α : Type} (name : α → String) (list : Parameter → List α) (paging : List α)
    (one : Parameter → α) (hlist : ∀ p, list p = if p.classPath = c.xpageNation then paging else [one p])
    (hpaging : paging.map name = ["size", "page"]) (hone : ∀ p, name (one p) = p.name) :
    ((d.parametersIn .query).flatMap list).map name = d.sentIn c .query := by
  rw [sentIn, List.map_flatMap]
  refine List.flatMap_congr fun p hp => ?_
  rw [hlist, Parameter.sentNames]
  simp only [(OpenApi.mem_parametersIn.1 hp).2, true_and]
  split
  · exact hpaging
  · exact congrArg (fun n => [n]) (hone p)

end Definition

/-! ## Operations -/

namespace OpenApi

/-- The names of the parameters that an operation lists in a place. -/
def Operation.namesIn (location : String) (o : Operation) : List String :=
  (o.parameters.filter fun p => p.location = location).map (·.name)

variable {ctx : Context} {d : Definition}

theorem location_of_mem_queryParameters {p : ApiDocs.Parameter} {q : Parameter} (h : q ∈ queryParameters ctx p) :
    q.location = "query" := by
  unfold queryParameters at h
  split at h
  · simp only [pagingParameters, List.mem_cons, List.not_mem_nil, or_false] at h
    rcases h with rfl | rfl <;> rfl
  · rw [List.mem_singleton.1 h]

/-- The parameters that an operation lists in a place. -/
def Operation.listedIn (location : String) (o : Operation) : List Parameter :=
  o.parameters.filter fun p => p.location = location

/-- What an operation lists in a place, place by place. -/
theorem listedIn_operationOf (ctx : Context) (d : Definition) (location : String) :
    (operationOf ctx d).listedIn location =
      (if location = "path" then (d.parametersIn .path).map (pathParameter ctx) else []) ++
      (if location = "query" then (d.parametersIn .query).flatMap (queryParameters ctx) else []) ++
      (if location = "header" then (Header.merge d.headers ctx.service.headers).map headerParameter else []) := by
  -- A list with one place is listed in it or not at all.
  have hplace : ∀ (ps : List Parameter) (l : String), (∀ p ∈ ps, p.location = l) →
      (ps.filter fun p => p.location = location) = if location = l then ps else [] := by
    intro ps l hl
    split
    case isTrue he => exact List.filter_eq_self.2 fun p hp => decide_eq_true ((hl p hp).trans he.symm)
    case isFalse hne =>
      exact List.filter_eq_nil_iff.2 fun p hp he => hne ((of_decide_eq_true he).symm.trans (hl p hp))
  rw [Operation.listedIn, operationOf, List.filter_append, List.filter_append,
    hplace _ "path" (List.forall_mem_map.2 fun _ _ => rfl),
    hplace _ "query" fun q hq => by
      obtain ⟨p, -, hq⟩ := List.mem_flatMap.1 hq
      exact location_of_mem_queryParameters hq,
    hplace _ "header" (List.forall_mem_map.2 fun _ _ => rfl)]

/-- The names that an operation lists in a place. -/
theorem namesIn_operationOf (ctx : Context) (d : Definition) (location : String) :
    (operationOf ctx d).namesIn location =
      (if location = "path" then d.sentIn ctx.conventions .path else []) ++
      (if location = "query" then d.sentIn ctx.conventions .query else []) ++
      (if location = "header" then (Header.merge d.headers ctx.service.headers).map (·.name) else []) := by
  have hquery : ((d.parametersIn .query).flatMap (queryParameters ctx)).map (·.name) =
      d.sentIn ctx.conventions .query := by
    refine Definition.map_flatMap_query Parameter.name (queryParameters ctx) pagingParameters
      (fun p => ⟨p.name, "query", shown p.description, !p.isOptional, parameterSchema ctx p⟩) (fun p => ?_) rfl
      fun p => rfl
    simp [queryParameters, isPagingRequest]
  have hnames : (operationOf ctx d).namesIn location = ((operationOf ctx d).listedIn location).map (·.name) := rfl
  rw [hnames, listedIn_operationOf]
  simp only [List.map_append, apply_ite (List.map Parameter.name), List.map_nil, hquery, Definition.sentIn_path, List.map_map]
  rfl

/-- An operation lists a name twice in the path or in the query exactly if the definition is ambiguous
there, and in no other place. -/
theorem nodup_namesIn_operationOf (ctx : Context) (d : Definition) :
    (((operationOf ctx d).namesIn "path").Nodup ↔ ¬ d.AmbiguousIn ctx.conventions .path) ∧
    (((operationOf ctx d).namesIn "query").Nodup ↔ ¬ d.AmbiguousIn ctx.conventions .query) ∧
    ∀ location, location ≠ "path" → location ≠ "query" → ((operationOf ctx d).namesIn location).Nodup := by
  refine ⟨?_, ?_, fun location hpath hquery => ?_⟩
  · rw [namesIn_operationOf, ← Definition.nodup_sentIn_iff]
    simp
  · rw [namesIn_operationOf, ← Definition.nodup_sentIn_iff]
    simp
  · rw [namesIn_operationOf, if_neg hpath, if_neg hquery]
    split
    · exact Header.nodup_firstOfName _ _
    · exact List.nodup_nil

end OpenApi

/-! ## Requests -/

namespace Collection

variable (ctx : Context) {d : Definition}

theorem map_key_query_requestOf :
    (requestOf ctx d).url.query.map (·.key) = d.sentIn ctx.conventions .query :=
  Definition.map_flatMap_query QueryEntry.key (queryEntries ctx.conventions) pagingEntries
    (fun p => ⟨p.name, p.defaultValue, shown p.description, false⟩) (fun _ => rfl) rfl fun _ => rfl

theorem map_key_pathEntries_requestOf :
    (requestOf ctx d).url.pathEntries.map (·.key) = d.sentIn ctx.conventions .path := by
  rw [Definition.sentIn_path]
  exact List.map_map

/-- The request of an item is generated, or kept over that of an old one. -/
theorem generated_or_kept {old : Option Item} {r : Request} (h : (itemOf ctx d old).request = some r) :
    r = requestOf ctx d ∨ ∃ o, RequestKept o (requestOf ctx d) r := by
  simp only [itemOf, Option.some.injEq] at h
  cases ho : old.bind (·.request) with
  | none =>
    rw [ho] at h
    exact .inl h.symm
  | some o =>
    rw [ho] at h
    exact .inr ⟨o, h ▸ requestKept_mergeRequest (requestOf ctx d) o⟩

/-- A generated request that is kept over an old one lists the same keys as alone. -/
theorem keys_of_itemOf {old : Option Item} {r : Request} (h : (itemOf ctx d old).request = some r) :
    r.headers.map (·.key) = (requestOf ctx d).headers.map (·.key) ∧
      r.url.query.map (·.key) = d.sentIn ctx.conventions .query ∧
      r.url.pathEntries.map (·.key) = d.sentIn ctx.conventions .path := by
  rw [← map_key_query_requestOf, ← map_key_pathEntries_requestOf]
  rcases generated_or_kept ctx h with rfl | ⟨o, hkept⟩
  · exact ⟨rfl, rfl, rfl⟩
  · exact ⟨hkept.headers.map_key fun _ _ => rfl, hkept.query.map_key fun _ _ => rfl,
      hkept.pathEntries.map_key fun _ _ => rfl⟩

end Collection

/-! ## Endpoints -/

namespace Endpoint

variable {ctx : Context} {e : Facts.Endpoint} {d : Definition} {s : Facts.Source} {k : String} {y : Parameter}

/-- What is sent under another name than the one it is kept under is bound to that name, or is a paging
request in the query. -/
theorem Writes.bound_or_paging {p : Facts.Parameter} (h : Writes s c p k y) (hy : y.sentNames c ≠ [k]) :
    (IsOwn c p ∧ k = p.name ∧ boundName p ≠ p.name) ∨ (y.location = .query ∧ y.classPath = c.xpageNation) := by
  by_cases hpaging : y.location = .query ∧ y.classPath = c.xpageNation
  · exact .inr hpaging
  · rw [Parameter.sentNames, if_neg hpaging] at hy
    cases h with
    | own hown => exact .inl ⟨hown, rfl, fun hb => hy (by rw [name_parameterOf, hb])⟩
    | expanded => exact absurd rfl hy

/-- A definition is ambiguous only through a parameter that is sent under another name than the one it
is kept under. -/
theorem exists_of_ambiguousIn (h : (build ctx e).definition = .ok d) {l : Location}
    (ha : d.AmbiguousIn ctx.conventions l) :
    ∃ p ∈ e.parameters, ∃ k y, Writes ctx.source ctx.conventions p k y ∧ y.location = l ∧
      y.sentNames ctx.conventions ≠ [k] := by
  obtain ⟨i, m, hread, hvalues, hmap⟩ := build_parameters h
  by_contra hnone
  -- Then each parameter of the place is sent under the name it is kept under.
  have hkept : ∀ a ∈ m.entries, a.2.location = l → a.2.sentNames ctx.conventions = [a.1] := by
    intro a ha hl
    obtain ⟨p, hp, y, hw, hu⟩ := exists_writes hread hmap (Keyed.mem_entries_iff.1 ha)
    have hlocation : a.2.undescribed.location = y.undescribed.location := congrArg Parameter.location hu
    have hnames : a.2.undescribed.sentNames ctx.conventions = y.undescribed.sentNames ctx.conventions :=
      congrArg (Parameter.sentNames ctx.conventions) hu
    by_contra hne
    exact hnone ⟨p, hp, a.1, y, hw, hlocation.symm.trans hl, fun hy => hne (hnames.trans hy)⟩
  refine Definition.not_ambiguousIn_iff.2 ?_ ha
  rw [Definition.parametersIn, hvalues, Keyed.values, List.pairwise_filter, List.pairwise_map]
  refine (List.pairwise_map.1 m.nodup_keys).imp_of_mem fun {a b} ha hb hne hla hlb name hp hq => hne ?_
  rw [hkept a ha (by simpa using hla), List.mem_singleton] at hp
  rw [hkept b hb (by simpa using hlb), List.mem_singleton] at hq
  exact hp.symm.trans hq

end Endpoint

/-! ## Extractions -/

namespace Extraction

/-- What the requests of an extraction are rendered with. -/
def requestContext (ex : Extraction) (config : Config) : Collection.Context :=
  ⟨config.service, config.conventions, ex.registry.models⟩

/-- An operation or a request lists a name twice in the path or in the query exactly if its definition is
ambiguous there; headers and all else are listed once. A definition is only ambiguous where a declared
parameter of the endpoint is bound to another name than its own, or stands for a paging request. -/
theorem nodup_names_iff (source : Facts.Source) (config : Config) (ex : Extraction)
    (h : ofSource source config = .ok ex) :
    (∀ doc, OpenApi.render (ex.documentContext config) ex.endpoints.toList = .ok doc →
      ∀ path m op, OpenApi.operationAt doc.paths path m = some op →
        ∃ d ∈ ex.endpoints.toList, op = OpenApi.operationOf (ex.documentContext config) d ∧
          ((op.namesIn "path").Nodup ↔ ¬ d.AmbiguousIn config.conventions .path) ∧
          ((op.namesIn "query").Nodup ↔ ¬ d.AmbiguousIn config.conventions .query) ∧
          ∀ location, location ≠ "path" → location ≠ "query" → (op.namesIn location).Nodup) ∧
    (∀ previous, ∀ i ∈ (Collection.render (ex.requestContext config) ex.endpoints.toList previous).requests,
      ∃ d ∈ ex.endpoints.toList,
        i = Collection.itemOf (ex.requestContext config) d (Collection.saved? previous d.id) ∧
        ∃ r, i.request = some r ∧
          ((r.url.pathEntries.map (·.key)).Nodup ↔ ¬ d.AmbiguousIn config.conventions .path) ∧
          ((r.url.query.map (·.key)).Nodup ↔ ¬ d.AmbiguousIn config.conventions .query) ∧
          (r.headers.map (·.key)).Nodup) ∧
    ∀ d ∈ ex.endpoints.toList, ∀ l, d.AmbiguousIn config.conventions l →
      ∃ es catalog, source.endpoints = .ok es ∧
        ∃ e ∈ es, (Endpoint.build (contextOf source config catalog) e).definition = .ok d ∧
          ∃ p ∈ e.parameters, ∃ k y, Endpoint.Writes source config.conventions p k y ∧ y.location = l ∧
            ((Endpoint.IsOwn config.conventions p ∧ k = p.name ∧ Endpoint.boundName p ≠ p.name) ∨
              (y.location = .query ∧ y.classPath = config.conventions.xpageNation)) := by
  refine ⟨fun doc hdoc path m op ho => ?_, fun previous i hi => ?_, fun d hd l ha => ?_⟩
  · obtain ⟨d, hd, -, rfl⟩ := OpenApi.exists_of_operationAt_render hdoc ho
    exact ⟨d, hd, rfl, OpenApi.nodup_namesIn_operationOf (ex.documentContext config) d⟩
  · obtain ⟨d, hd, rfl⟩ := (Collection.mem_requests_render _).1 hi
    refine ⟨d, hd, rfl, _, rfl, ?_⟩
    obtain ⟨hheaders, hquery, hpath⟩ := Collection.keys_of_itemOf (ex.requestContext config) rfl
    rw [hheaders, hquery, hpath]
    exact ⟨Definition.nodup_sentIn_iff, Definition.nodup_sentIn_iff, Collection.nodup_headers_requestOf _⟩
  · obtain ⟨es, catalog, he, e, hmem, hb⟩ := exists_build h hd
    obtain ⟨p, hp, k, y, hw, hl, hy⟩ := Endpoint.exists_of_ambiguousIn hb ha
    exact ⟨es, catalog, he, e, hmem, hb, p, hp, k, y, hw, hl, hw.bound_or_paging hy⟩

/-- A document with one endpoint, which lists rows. -/
def rowsDocument (parameters : List Facts.Parameter) : Facts.Document where
  endpoints := [listed "h.Rows" "GET" parameters]
  types := Keyed.empty
  exceptions := []
  errorResponse := none

/-- A paging request in the query. -/
def nation : Facts.Parameter :=
  ⟨"nation", .named "one.axim.framework.core.data.XPageNation", false, .unbound⟩

/-- A number in the query. -/
def number (name : String) : Facts.Parameter :=
  ⟨name, .named "int", false, .query none false (some "1")⟩

/-- A source can be documented where something that its definitions have is known. -/
theorem exists_of_rendered {α : Type} (f : Definition → α) (source : Facts.Source) (config : Config) (as : List α)
    (h : ((ofSource source config).toOption.bind fun ex =>
      (OpenApi.render (ex.documentContext config) ex.endpoints.toList).toOption.map fun _ =>
        ex.endpoints.toList.map f) = some as) :
    ∃ ex doc, ofSource source config = .ok ex ∧
      OpenApi.render (ex.documentContext config) ex.endpoints.toList = .ok doc ∧ ex.endpoints.toList.map f = as := by
  obtain ⟨ex, hx, h⟩ := Option.bind_eq_some_iff.1 h
  obtain ⟨doc, hdoc, has⟩ := Option.map_eq_some_iff.1 h
  exact ⟨ex, doc, Outcome.toOption_eq_some_iff.1 hx, Outcome.toOption_eq_some_iff.1 hdoc, has⟩

/-- The names that are sent in the query by the endpoints of an extraction, if its document is made. -/
def querySent (config : Config) (ex : Extraction) : Option (List (List String)) :=
  (OpenApi.render (ex.documentContext config) ex.endpoints.toList).toOption.map fun _ =>
    ex.endpoints.toList.map fun d => d.sentIn config.conventions .query

theorem exists_of_querySent (source : Facts.Source) (config : Config) (names : List (List String))
    (h : (ofSource source config).toOption.bind (querySent config) = some names) :
    ∃ ex doc, ofSource source config = .ok ex ∧
      OpenApi.render (ex.documentContext config) ex.endpoints.toList = .ok doc ∧
      ex.endpoints.toList.map (fun d => d.sentIn config.conventions .query) = names :=
  exists_of_rendered (fun d => d.sentIn config.conventions .query) source config names h

/-- A number beside a paging request is listed once. -/
theorem limit_nodup : ∃ ex doc,
    ofSource (.ofDocument (rowsDocument [nation, number "limit"])) (.ofServiceId "svc") = .ok ex ∧
    OpenApi.render (ex.documentContext (.ofServiceId "svc")) ex.endpoints.toList = .ok doc ∧
    (∀ path m op, OpenApi.operationAt doc.paths path m = some op → (op.namesIn "query").Nodup) ∧
    ∀ previous, ∀ i ∈ (Collection.render (ex.requestContext (.ofServiceId "svc")) ex.endpoints.toList previous).requests,
      ∃ r, i.request = some r ∧ (r.url.query.map (·.key)).Nodup := by
  obtain ⟨ex, doc, hx, hdoc, hnames⟩ := exists_of_querySent
    (.ofDocument (rowsDocument [nation, number "limit"])) (.ofServiceId "svc") [["size", "page", "limit"]] (by decide)
  obtain ⟨hoperations, hrequests, -⟩ := nodup_names_iff _ _ ex hx
  have hclear : ∀ d ∈ ex.endpoints.toList, ¬ d.AmbiguousIn Conventions.default .query := by
    intro d hd
    have hmem : d.sentIn Conventions.default .query ∈ [["size", "page", "limit"]] := hnames ▸ List.mem_map_of_mem hd
    rw [← Definition.nodup_sentIn_iff, List.mem_singleton.1 hmem]
    decide
  refine ⟨ex, doc, hx, hdoc, fun path m op ho => ?_, fun previous i hi => ?_⟩
  · obtain ⟨d, hd, -, -, hquery, -⟩ := hoperations doc hdoc path m op ho
    exact hquery.2 (hclear d hd)
  · obtain ⟨d, hd, -, r, hr, -, hquery, -⟩ := hrequests previous i hi
    exact ⟨r, hr, hquery.2 (hclear d hd)⟩

/-- A number that is called like a name of the paging request beside it is listed twice. -/
theorem page_listed_twice :
    (¬ ∀ (facts : Facts.Document) (config : Config) (ex : Extraction) (doc : OpenApi.Document),
      ofSource (.ofDocument facts) config = .ok ex →
      OpenApi.render (ex.documentContext config) ex.endpoints.toList = .ok doc →
        ∀ path m op, OpenApi.operationAt doc.paths path m = some op → ∀ location, (op.namesIn location).Nodup) ∧
    ¬ ∀ (facts : Facts.Document) (config : Config) (ex : Extraction) (doc : OpenApi.Document),
      ofSource (.ofDocument facts) config = .ok ex →
      OpenApi.render (ex.documentContext config) ex.endpoints.toList = .ok doc →
        ∀ previous, ∀ i ∈ (Collection.render (ex.requestContext config) ex.endpoints.toList previous).requests,
          ∀ r, i.request = some r → (r.headers.map (·.key)).Nodup ∧ (r.url.query.map (·.key)).Nodup ∧
            (r.url.pathEntries.map (·.key)).Nodup := by
  obtain ⟨ex, doc, hx, hdoc, hnames⟩ := exists_of_querySent
    (.ofDocument (rowsDocument [nation, number "page"])) (.ofServiceId "svc") [["size", "page", "page"]] (by decide)
  obtain ⟨d, hd, hsent⟩ : ∃ d ∈ ex.endpoints.toList,
      d.sentIn Conventions.default .query = ["size", "page", "page"] :=
    List.mem_map.1 (hnames.symm ▸ List.mem_singleton_self _)
  have htwice : ¬ (d.sentIn Conventions.default .query).Nodup := by
    rw [hsent]
    decide
  constructor
  · intro hall
    obtain ⟨m, -, ho⟩ := OpenApi.operationAt_render hdoc hd
    have hquery := hall _ _ ex doc hx hdoc _ m _ ho "query"
    rw [(OpenApi.nodup_namesIn_operationOf _ d).2.1, ← Definition.nodup_sentIn_iff] at hquery
    exact htwice hquery
  · intro hall
    have hi : Collection.itemOf (ex.requestContext (.ofServiceId "svc")) d none ∈
        (Collection.render (ex.requestContext (.ofServiceId "svc")) ex.endpoints.toList none).requests :=
      (Collection.mem_requests_render _).2 ⟨d, hd, rfl⟩
    obtain ⟨-, hquery, -⟩ := hall _ _ ex doc hx hdoc none _ hi _ rfl
    rw [(Collection.keys_of_itemOf _ rfl).2.1] at hquery
    exact htwice hquery

end Extraction

end ApiDocs
