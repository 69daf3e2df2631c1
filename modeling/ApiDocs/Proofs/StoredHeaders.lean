import ApiDocs.Proofs.SentNames
/-!
# Headers that are stored

An extraction merges the headers of each endpoint with those of the service and stores them in its definition. Operations
and requests merge the headers of the service into it once more, which changes nothing, so they show what is stored: an
operation as parameters, a request as entries whose values may have been changed in an earlier collection
(`merge_stored`).
-/
namespace ApiDocs

/-- A definition has the headers of the service merged into it already. -/
theorem Endpoint.merge_headers_of_build {ctx : Context} {e : Facts.Endpoint} {d : Definition}
    (h : (build ctx e).definition = .ok d) : Header.merge d.headers ctx.service.headers = d.headers := by
  obtain ⟨i, -, hd⟩ := made_of_build h
  rw [hd.headers, Header.merge_merge]

/-- Whether a request shows some headers: just as they are generated if it is over no earlier request, and else with
the values that the first entries of their names have there. -/
structure Collection.ShowsHeaders (hs : List Header) (old : Option Request) (r : Request) : Prop where
  fresh : old = none → r.headers = hs.map headerEntry
  kept : ∀ o, old = some o →
    TakesOver HeaderEntry.key (fun f k => { f with value := k.value }) o.headers (hs.map headerEntry) r.headers

theorem Collection.showsHeaders_itemOf (ctx : Context) (d : Definition) (old : Option Item) :
    ∃ r, (itemOf ctx d old).request = some r ∧
      ShowsHeaders (Header.merge d.headers ctx.service.headers) (old.bind (·.request)) r := by
  have hfresh : (requestOf ctx d).headers = (Header.merge d.headers ctx.service.headers).map headerEntry := rfl
  cases hold : old.bind (·.request) with
  | none =>
    exact ⟨requestOf ctx d, by simp only [itemOf, hold], fun _ => hfresh,
      fun o ho => absurd ho.symm (Option.some_ne_none o)⟩
  | some o =>
    refine ⟨mergeRequest (requestOf ctx d) o, by simp only [itemOf, hold],
      fun h => absurd h (Option.some_ne_none o), ?_⟩
    intro o' ho'
    obtain rfl := Option.some.inj ho'
    exact hfresh ▸ takesOver_mergeHeaders _ _

namespace Extraction

open OpenApi (headerParameter pathOf)
open Collection (ShowsHeaders saved?)

/-- Merging headers makes their union, and merging the same ones again changes nothing. So the headers that are stored in
a definition of an extraction are those that its operation lists and that its request shows. -/
theorem merge_stored :
    (∀ own common, Header.IsUnion own common (Header.merge own common) ∧
      Header.merge (Header.merge own common) common = Header.merge own common) ∧
    ∀ (source : Facts.Source) (config : Config) (ex : Extraction), ofSource source config = .ok ex →
      ∀ d ∈ ex.endpoints.toList,
        Header.merge d.headers config.service.headers = d.headers ∧
        (∀ doc, OpenApi.render (ex.documentContext config) ex.endpoints.toList = .ok doc →
          ∃ op, doc.operation? (pathOf (ex.documentContext config) d) d.method = some op ∧
            op.listedIn "header" = d.headers.map headerParameter) ∧
        ∀ previous, ∃ i r,
          i ∈ (Collection.render (ex.requestContext config) ex.endpoints.toList previous).requests ∧
          i.id = some d.id ∧ i.request = some r ∧
          ShowsHeaders d.headers ((saved? previous d.id).bind (·.request)) r := by
  refine ⟨fun own common => ⟨Header.isUnion_merge own common, Header.merge_merge own common⟩, ?_⟩
  intro source config ex hx d hd
  obtain ⟨es, catalog, -, e, -, hb⟩ := exists_build hx hd
  have hstored : Header.merge d.headers config.service.headers = d.headers := Endpoint.merge_headers_of_build hb
  refine ⟨hstored, fun doc hdoc => ?_, fun previous => ?_⟩
  · obtain ⟨m, hm, hop⟩ := OpenApi.operationAt_render hdoc hd
    refine ⟨OpenApi.operationOf (ex.documentContext config) d, ?_, ?_⟩
    · rw [OpenApi.Document.operation?_eq, hm]
      exact hop
    · rw [OpenApi.listedIn_operationOf]
      exact congrArg (List.map headerParameter) hstored
  · obtain ⟨r, hr, hshows⟩ :=
      Collection.showsHeaders_itemOf (ex.requestContext config) d (saved? previous d.id)
    have hservice : (ex.requestContext config).service.headers = config.service.headers := rfl
    rw [hservice, hstored] at hshows
    exact ⟨_, r, (Collection.mem_requests_render _).2 ⟨d, hd, rfl⟩, rfl, hr, hshows⟩

/-- A service with two headers of one name. -/
def traced : Config :=
  { Config.ofServiceId "svc" with
    service := { Service.ofId "svc" with
      headers := [Header.ofText "X-Trace" "service", Header.ofText "X-Trace" "other", Header.ofText "X-Lang" ""] } }

/-- An endpoint with headers under two parameters, of which one is sent under the name of the other. -/
def tracing : List Facts.Parameter :=
  [⟨"token", .named "java.lang.String", false, .header (some "X-Token") true none⟩,
   ⟨"trace", .named "java.lang.String", false, .header (some "X-Trace") false (some "0")⟩,
   ⟨"again", .named "java.lang.String", false, .header (some "X-Token") false none⟩]

theorem tracing_stored : ∃ ex doc, ofSource (.ofDocument (rowsDocument tracing)) traced = .ok ex ∧
    OpenApi.render (ex.documentContext traced) ex.endpoints.toList = .ok doc ∧
    ∃ d ∈ ex.endpoints.toList, ∃ op i r, doc.operation? (pathOf (ex.documentContext traced) d) d.method = some op ∧
      op.namesIn "header" = ["X-Token", "X-Trace", "X-Lang"] ∧
      i ∈ (Collection.render (ex.requestContext traced) ex.endpoints.toList none).requests ∧ i.request = some r ∧
      r.headers.map (·.key) = ["X-Token", "X-Trace", "X-Lang"] ∧ r.headers.map (·.value) = ["", "0", ""] := by
  obtain ⟨ex, doc, hx, hdoc, hheaders⟩ := exists_of_rendered Definition.headers (.ofDocument (rowsDocument tracing))
    traced
    [[⟨"X-Token", "String", "java.lang.String", "", false, none⟩,
      ⟨"X-Trace", "String", "java.lang.String", "", true, some "0"⟩, Header.ofText "X-Lang" ""]] (by decide)
  obtain ⟨d, hd, hstored⟩ := List.mem_map.1 (hheaders.symm ▸ List.mem_singleton_self _)
  obtain ⟨-, hoperation, hrequest⟩ := merge_stored.2 _ _ ex hx d hd
  obtain ⟨op, hop, hlisted⟩ := hoperation doc hdoc
  obtain ⟨i, r, hi, -, hr, hshows⟩ := hrequest none
  have hentries := hshows.fresh rfl
  rw [hstored] at hlisted hentries
  have hnames : op.namesIn "header" = (op.listedIn "header").map (·.name) := rfl
  refine ⟨ex, doc, hx, hdoc, d, hd, op, i, r, hop, ?_, hi, hr, ?_, ?_⟩
  · rw [hnames, hlisted]
    rfl
  · rw [hentries]
    rfl
  · rw [hentries]
    rfl

end Extraction

end ApiDocs
