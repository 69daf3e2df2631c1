import ApiDocs.Proofs.Endpoint.Errors
import ApiDocs.Proofs.OpenApi.Conformance
import ApiDocs.Proofs.SentNames
/-!
# The responses of what is returned

What an endpoint returns is documented under the codes that begin with two, and a new request is saved with the first
of them. Whether there is such a code is up to the tags and the errors of the endpoint: the default is only documented
where no tag has a text for a code (`Endpoint.Succeeds`). Where there is none, no response has content and the saved
one has the first code of all.
-/
namespace ApiDocs

open OpenApi (isSuccess)

/-! ## Codes of endpoints -/

namespace Endpoint

/-- Whether an endpoint documents a code of success: as the status of an error, in a tag, or as the default. -/
def Succeeds (e : Facts.Endpoint) (errors : List ErrorGroup) : Prop :=
  (∃ g ∈ errors, isSuccess (toString g.status) = true) ∨
    (∃ t ∈ e.comment.tags, ∃ code, responseCode? t = some code ∧ isSuccess code = true) ∨
    isTagged e = false

variable {ctx : Context} {e : Facts.Endpoint} {d : Definition}

/-- The codes that are documented: those of errors, those that tags have texts for, and that of the default. -/
theorem mem_responses_of_build (h : (build ctx e).definition = .ok d) {code : String} : code ∈ d.responses.keys ↔
    (∃ g ∈ d.errors, toString g.status = code) ∨ (∃ t ∈ e.comment.tags, responseCode? t = some code) ∨
      (isTagged e = false ∧ code = "200") := by
  have herror : (d.errors.findRev? fun g => toString g.status == code) = none ↔
      ∀ g ∈ d.errors, toString g.status ≠ code := by
    simp [List.findRev?_eq_find?_reverse]
  have hdefault : defaultText? e code = none ↔ ¬ (isTagged e = false ∧ code = "200") := by
    simp [defaultText?]
  rw [← not_iff_not, ← Sorted.get?_eq_none_iff, get?_responses_of_build h, Option.or_eq_none_iff,
    Option.or_eq_none_iff, Option.map_eq_none_iff, herror, taggedText?_eq_none_iff, hdefault, not_or, not_or]
  simp only [not_exists, not_and, ne_eq]

theorem exists_isSuccess_iff (h : (build ctx e).definition = .ok d) :
    (∃ code ∈ d.responses.keys, isSuccess code = true) ↔ Succeeds e d.errors := by
  constructor
  · rintro ⟨code, hmem, hs⟩
    rcases (mem_responses_of_build h).1 hmem with ⟨g, hg, rfl⟩ | ⟨t, ht, hcode⟩ | ⟨hdefault, -⟩
    · exact .inl ⟨g, hg, hs⟩
    · exact .inr (.inl ⟨t, ht, code, hcode, hs⟩)
    · exact .inr (.inr hdefault)
  · rintro (⟨g, hg, hs⟩ | ⟨t, ht, code, hcode, hs⟩ | hdefault)
    · exact ⟨_, (mem_responses_of_build h).2 (.inl ⟨g, hg, rfl⟩), hs⟩
    · exact ⟨code, (mem_responses_of_build h).2 (.inr (.inl ⟨t, ht, hcode⟩)), hs⟩
    · exact ⟨"200", (mem_responses_of_build h).2 (.inr (.inr ⟨hdefault, rfl⟩)), by decide⟩

end Endpoint

/-! ## Operations -/

namespace OpenApi

variable {ctx : Context} {d : Definition} {path : String}

/-- The responses that tell of success have the schema of what is returned as their content. -/
theorem get?_responsesOf_returning (hr : d.returnClass = some path) (code : String) :
    (responsesOf ctx d).get? code = (d.responses.get? code).map fun text =>
      ⟨text, if isSuccess code then Content.json (returnSchema ctx d.returnShape path) else Keyed.empty⟩ := by
  rw [get?_responsesOf_eq, responseContent, hr]

/-- What is returned is the content of some response exactly if there is a code of success. -/
theorem exists_content_iff (hr : d.returnClass = some path) :
    (∃ code response, (responsesOf ctx d).get? code = some response ∧
      response.content.get? "application/json" = some (returnSchema ctx d.returnShape path)) ↔
      ∃ code ∈ d.responses.keys, isSuccess code = true := by
  simp only [get?_responsesOf_returning hr, Option.map_eq_some_iff, Sorted.mem_keys_iff]
  constructor
  · rintro ⟨code, -, ⟨text, htext, rfl⟩, hcontent⟩
    refine ⟨code, ⟨text, htext⟩, ?_⟩
    by_contra hs
    simp [hs] at hcontent
  · rintro ⟨code, ⟨text, htext⟩, hs⟩
    exact ⟨code, _, ⟨text, htext, rfl⟩, by simp [hs, Content.json, Keyed.get?_put]⟩

end OpenApi

/-! ## Saved responses -/

namespace Collection

/-- The number that a saved response has as its code. -/
def carried? : Json → Option Int
  | .obj members =>
    match Pairs.get? "code" members with
    | some (.int n) => some n
    | _ => none
  | _ => none

/-- Whether success is shown with a code: the first that begins with two, or the first of all if none does. -/
structure ShownCode (responses : Sorted String) (code : String) : Prop where
  documented : code ∈ responses.keys
  success : (∃ c ∈ responses.keys, isSuccess c = true) → isSuccess code = true
  first : ∀ c ∈ responses.keys, (isSuccess code = true → isSuccess c = true) → code ≤ c

/-- Whether a saved response carries a code: its number, which is one of success if the code begins with two and is not
a number of more or less than three digits. -/
structure Carries (response : Json) (code : String) : Prop where
  number : carried? response = some ((codeNumber? code).getD 200 : Nat)
  success : isSuccess code = true → (∀ n, codeNumber? code = some n → code.length = 3) →
    ∃ n : Nat, carried? response = some (n : Int) ∧ 200 ≤ n ∧ n < 300

variable {responses : Sorted String} {code : String}

theorem shownCode_successStatus (h : responses.entries ≠ []) : ShownCode responses (successStatus responses).1 := by
  unfold successStatus
  cases hfind : responses.entries.find? fun r => Text.startsWith r.1 "2" with
  | some r =>
    obtain ⟨hr, before, after, hsplit, hbefore⟩ := List.find?_eq_some_iff_append.1 hfind
    have hs : isSuccess r.1 = true := hr
    refine ⟨List.mem_map_of_mem (List.mem_of_find?_eq_some hfind), fun _ => hs, fun c hc himp => ?_⟩
    refine Sorted.le_of_mem_keys hsplit hc fun hmem => ?_
    obtain ⟨r', hr', rfl⟩ := List.mem_map.1 hmem
    have hnot := hbefore r' hr'
    rw [show Text.startsWith r'.1 "2" = true from himp hs] at hnot
    cases hnot
  | none =>
    obtain ⟨r, rest, hsplit⟩ := List.exists_cons_of_ne_nil h
    have hfirst : responses.entries = [] ++ r :: rest := hsplit
    rw [hsplit]
    refine ⟨?_, fun ⟨c, hc, hs⟩ => ?_, fun c hc _ => Sorted.le_of_mem_keys hfirst hc List.not_mem_nil⟩
    · rw [Sorted.keys, hsplit]
      exact List.mem_cons_self
    · obtain ⟨r', hr', rfl⟩ := List.mem_map.1 hc
      exact absurd hs (List.find?_eq_none.1 hfind r' hr')

theorem toNat_of_isDigit {c : Char} (h : c.isDigit = true) : 48 ≤ c.toNat ∧ c.toNat ≤ 57 := by
  simpa [Char.isDigit, UInt32.le_iff_toNat_le] using h

/-- A number of three digits that begins with two tells of success. -/
theorem codeNumber?_of_isSuccess {n : Nat} (hs : isSuccess code = true) (hlength : code.length = 3)
    (h : codeNumber? code = some n) : 200 ≤ n ∧ n < 300 := by
  obtain ⟨rest, hrest⟩ := List.isPrefixOf_iff_prefix.1 hs
  have hcount : (['2'] ++ rest).length = 3 := (congrArg List.length hrest).trans hlength
  obtain ⟨a, b, rfl⟩ : ∃ a b, rest = [a, b] := List.length_eq_two.1 (by simpa using hcount)
  have hlist : code.toList = ['2', a, b] := hrest.symm
  obtain ⟨⟨ha, hb⟩, -, rfl⟩ : (a.isDigit = true ∧ b.isDigit = true) ∧
      10 * (20 + (a.toNat - 48)) + (b.toNat - 48) < 65536 ∧ 10 * (20 + (a.toNat - 48)) + (b.toNat - 48) = n := by
    simpa [codeNumber?, hlist, Json.digitsValue] using h
  have ha' := toNat_of_isDigit ha
  have hb' := toNat_of_isDigit hb
  omega

theorem getD_codeNumber?_of_isSuccess (hs : isSuccess code = true)
    (hlength : ∀ n, codeNumber? code = some n → code.length = 3) :
    200 ≤ (codeNumber? code).getD 200 ∧ (codeNumber? code).getD 200 < 300 := by
  cases hn : codeNumber? code with
  | none => decide
  | some n => exact codeNumber?_of_isSuccess hs (hlength n hn) hn

/-- An item that nothing was saved for has one response, with the code that is shown. -/
theorem responses_itemOf_none (ctx : Context) (d : Definition) :
    ∃ response, (itemOf ctx d none).responses = [response] ∧ Carries response (successStatus d.responses).1 :=
  ⟨_, rfl, rfl, fun hs hlength => ⟨_, rfl, getD_codeNumber?_of_isSuccess hs hlength⟩⟩

end Collection

/-! ## Extractions -/

namespace Extraction

open OpenApi (Content returnSchema pathOf)
open Collection (ShownCode Carries carried? itemOf saved?)

/-- In a document of an extraction, the operation of a definition that returns a class has the schema of what is
returned, in its shape, as the content of each response with a code that begins with two, and of no other. There is such
a response exactly if the endpoint documents a code of success; then the saved response of a new request carries the
first of these codes, and else the first of all. -/
theorem return_documented (source : Facts.Source) (config : Config) (ex : Extraction) (doc : OpenApi.Document)
    (hx : ofSource source config = .ok ex)
    (hdoc : OpenApi.render (ex.documentContext config) ex.endpoints.toList = .ok doc) :
    ∀ d ∈ ex.endpoints.toList, ∀ path, d.returnClass = some path →
      ∃ es catalog, source.endpoints = .ok es ∧
      ∃ e ∈ es, (Endpoint.build (contextOf source config catalog) e).definition = .ok d ∧
      (∃ op, doc.operation? (pathOf (ex.documentContext config) d) d.method = some op ∧
        (∀ code, op.responses.get? code = (d.responses.get? code).map fun text =>
          ⟨text, if isSuccess code then Content.json (returnSchema (ex.documentContext config) d.returnShape path)
            else Keyed.empty⟩) ∧
        ((∃ code response, op.responses.get? code = some response ∧
          response.content.get? "application/json" =
            some (returnSchema (ex.documentContext config) d.returnShape path)) ↔ Endpoint.Succeeds e d.errors)) ∧
      ∀ previous, saved? previous d.id = none →
        itemOf (ex.requestContext config) d none ∈
          (Collection.render (ex.requestContext config) ex.endpoints.toList previous).requests ∧
        ∃ response code, (itemOf (ex.requestContext config) d none).responses = [response] ∧
          Carries response code ∧ ShownCode d.responses code ∧
          (isSuccess code = true ↔ Endpoint.Succeeds e d.errors) := by
  intro d hd path hr
  obtain ⟨es, catalog, he, e, hmem, hb⟩ := exists_build hx hd
  obtain ⟨m, hm, hop⟩ := OpenApi.operationAt_render hdoc hd
  refine ⟨es, catalog, he, e, hmem, hb, ⟨OpenApi.operationOf (ex.documentContext config) d, ?_,
    OpenApi.get?_responsesOf_returning hr, (OpenApi.exists_content_iff hr).trans (Endpoint.exists_isSuccess_iff hb)⟩,
    fun previous hnone => ⟨?_, ?_⟩⟩
  · rw [OpenApi.Document.operation?_eq, hm]
    exact hop
  · exact (Collection.mem_requests_render _).2 ⟨d, hd, by rw [hnone]⟩
  · obtain ⟨response, hresponse, hcarries⟩ := Collection.responses_itemOf_none (ex.requestContext config) d
    have hshown := Collection.shownCode_successStatus (Endpoint.entries_responses_ne_nil hb)
    have hsucceeds : isSuccess (Collection.successStatus d.responses).1 = true ↔ Endpoint.Succeeds e d.errors := by
      rw [← Endpoint.exists_isSuccess_iff hb]
      exact ⟨fun hs => ⟨_, hshown.documented, hs⟩, hshown.success⟩
    exact ⟨response, _, hresponse, hcarries, hshown, hsucceeds⟩

/-- Facts of one endpoint that returns rows, and of the texts that it has for codes. -/
def rowsReturned (returnType : TypeExpr) (texts : List (String × String)) : Facts.Document where
  endpoints :=
    [{ listed "h.Rows" "GET" [] with
        returnType := returnType
        comment := ⟨"", texts.map fun t => ⟨"response", some t.1, some t.2⟩⟩ }]
  types := Keyed.empty.put "com.x.Row"
    ⟨"com.x.Row", .object, "", none, [⟨"id", .named "long", false, false, false, ""⟩], []⟩
  exceptions := []
  errorResponse := none

/-- What a definition returns, and the codes that it documents. -/
def returned (d : Definition) : Option String × ReturnShape × List String :=
  (d.returnClass, d.returnShape, d.responses.keys)

theorem exists_of_returned (facts : Facts.Document) (config : Config) (path : String) (shape : ReturnShape)
    (codes : List String) (h : ((ofSource (.ofDocument facts) config).toOption.bind fun ex =>
      (OpenApi.render (ex.documentContext config) ex.endpoints.toList).toOption.map fun _ =>
        ex.endpoints.toList.map returned) = some [(some path, shape, codes)]) :
    ∃ ex doc, ofSource (.ofDocument facts) config = .ok ex ∧
      OpenApi.render (ex.documentContext config) ex.endpoints.toList = .ok doc ∧
      ∃ d ∈ ex.endpoints.toList, d.returnClass = some path ∧ d.returnShape = shape ∧ d.responses.keys = codes := by
  obtain ⟨ex, doc, hx, hdoc, hreturned⟩ := exists_of_rendered returned _ _ _ h
  obtain ⟨d, hd, hreturned⟩ := List.mem_map.1 (hreturned.symm ▸ List.mem_singleton_self _)
  simp only [returned, Prod.mk.injEq] at hreturned
  exact ⟨ex, doc, hx, hdoc, d, hd, hreturned⟩

/-- Facts with an endpoint that lists rows, under a code of success and another. -/
def listsRows : Facts.Document :=
  rowsReturned (.generic "java.util.List" [.named "com.x.Row"]) [("404", "Nothing"), ("206", "Some")]

theorem listsRows_documented : ∃ ex doc, ofSource (.ofDocument listsRows) (.ofServiceId "svc") = .ok ex ∧
    OpenApi.render (ex.documentContext (.ofServiceId "svc")) ex.endpoints.toList = .ok doc ∧
    ∃ d ∈ ex.endpoints.toList, d.returnClass = some "com.x.Row" ∧
      (∃ op response, doc.operation? (pathOf (ex.documentContext (.ofServiceId "svc")) d) d.method = some op ∧
        op.responses.get? "206" = some response ∧
        response.content = Content.json (.inline (OpenApi.Schema.array (.component "Row")))) ∧
      ∃ (response : Json) (n : Nat), (itemOf (ex.requestContext (.ofServiceId "svc")) d none).responses = [response] ∧
        carried? response = some (n : Int) ∧ 200 ≤ n ∧ n < 300 := by
  obtain ⟨ex, doc, hx, hdoc, d, hd, hclass, hshape, hkeys⟩ := exists_of_returned listsRows (.ofServiceId "svc")
    "com.x.Row" .array ["206", "404"] (by decide)
  obtain ⟨-, -, -, e, -, -, ⟨op, hop, hget, -⟩, hsaved⟩ := return_documented _ _ ex doc hx hdoc d hd _ hclass
  obtain ⟨-, response, code, hresponse, hcarries, hshown, -⟩ := hsaved none rfl
  have hcode : code = "206" := by
    have hmem : code = "206" ∨ code = "404" := by simpa [hkeys] using hshown.documented
    refine hmem.resolve_right fun h404 => ?_
    have hs := hshown.success ⟨"206", by simp [hkeys], by decide⟩
    rw [h404] at hs
    exact absurd hs (by decide)
  subst hcode
  obtain ⟨text, htext⟩ := Sorted.mem_keys_iff.1 hshown.documented
  refine ⟨ex, doc, hx, hdoc, d, hd, hclass, ⟨op, _, hop, (hget "206").trans (congrArg (Option.map _) htext), ?_⟩,
    response, ?_⟩
  · rw [hshape]
    rfl
  · obtain ⟨n, hn⟩ := hcarries.success (by decide) fun _ _ => by decide
    exact ⟨n, hresponse, hn⟩

/-- Facts with an endpoint that returns a row, of which only another code is said. -/
def missesRow : Facts.Document :=
  rowsReturned (.named "com.x.Row") [("404", "Nothing")]

/-- The row is in no response, and what is saved as a success tells that nothing was found. -/
theorem missesRow_undocumented :
    (¬ ∀ (facts : Facts.Document) (config : Config) (ex : Extraction) (doc : OpenApi.Document),
      ofSource (.ofDocument facts) config = .ok ex →
      OpenApi.render (ex.documentContext config) ex.endpoints.toList = .ok doc →
      ∀ d ∈ ex.endpoints.toList, ∀ path, d.returnClass = some path →
        ∃ op code response, doc.operation? (pathOf (ex.documentContext config) d) d.method = some op ∧
          op.responses.get? code = some response ∧ response.content.get? "application/json" =
            some (returnSchema (ex.documentContext config) d.returnShape path)) ∧
    ¬ ∀ (facts : Facts.Document) (config : Config) (ex : Extraction) (doc : OpenApi.Document),
      ofSource (.ofDocument facts) config = .ok ex →
      OpenApi.render (ex.documentContext config) ex.endpoints.toList = .ok doc →
      ∀ d ∈ ex.endpoints.toList, ∀ path, d.returnClass = some path →
        ∃ (response : Json) (n : Nat), (itemOf (ex.requestContext config) d none).responses = [response] ∧
          carried? response = some (n : Int) ∧ 200 ≤ n ∧ n < 300 := by
  obtain ⟨ex, doc, hx, hdoc, d, hd, hclass, -, hkeys⟩ := exists_of_returned missesRow (.ofServiceId "svc")
    "com.x.Row" .plain ["404"] (by decide)
  have hnone : ¬ ∃ code ∈ d.responses.keys, isSuccess code = true := by
    rw [hkeys]
    decide
  constructor
  · intro hall
    obtain ⟨op, code, response, hop, hresponse, hcontent⟩ := hall _ _ ex doc hx hdoc d hd _ hclass
    obtain ⟨m, hm, hop'⟩ := OpenApi.operationAt_render hdoc hd
    rw [OpenApi.Document.operation?_eq, hm, Option.bind_some, hop', Option.some.injEq] at hop
    subst hop
    exact hnone ((OpenApi.exists_content_iff hclass).1 ⟨code, response, hresponse, hcontent⟩)
  · intro hall
    obtain ⟨response, n, hresponse, hcarried, hle, hlt⟩ := hall _ _ ex doc hx hdoc d hd _ hclass
    obtain ⟨response', hresponse', hcarries⟩ :=
      Collection.responses_itemOf_none (ex.requestContext (.ofServiceId "svc")) d
    have hentries : d.responses.entries ≠ [] := fun hempty => by simp [Sorted.keys, hempty, Pairs.keys] at hkeys
    have hcode : (Collection.successStatus d.responses).1 = "404" := by
      simpa [hkeys] using (Collection.shownCode_successStatus hentries).documented
    obtain rfl : response = response' := List.singleton_inj.1 (hresponse.symm.trans hresponse')
    have hn : (n : Int) = 404 := by
      have hnumber := hcarries.number
      rw [hcarried, hcode] at hnumber
      exact (Option.some.inj hnumber).trans (by decide)
    omega

end Extraction

end ApiDocs
