import ApiDocs.Proofs.Extraction
import Mathlib.Data.Set.Function
/-!
# What ids tell apart

The id of a definition is made of its URL, its name and its method, one after the other and with nothing
between them. As long as no two such texts of a run have one id, definitions share an id exactly if their
texts are the same, and then they agree in all three parts exactly if they are cut at the same places.
-/
namespace ApiDocs

/-- The text that the id of a definition is made of. -/
def Definition.idText (d : Definition) : String :=
  d.urlMapping ++ d.name ++ d.method

/-- A text that is cut into three parts of the same lengths has the same parts. -/
theorem parts_inj {a b c a' b' c' : String} (h : a ++ b ++ c = a' ++ b' ++ c') (ha : a.length = a'.length)
    (hb : b.length = b'.length) : a = a' ∧ b = b' ∧ c = c' := by
  simp only [← String.toList_inj, String.toList_append, List.append_assoc, ← String.length_toList] at h ha hb ⊢
  obtain ⟨ha, h⟩ := List.append_inj h ha
  exact ⟨ha, List.append_inj h hb⟩

theorem Endpoint.id_of_build {ctx : Context} {e : Facts.Endpoint} {d : Definition}
    (h : (build ctx e).definition = .ok d) : d.id = StableId.ofText d.idText := by
  obtain ⟨i, -, hd⟩ := made_of_build h
  rw [hd.id, stableId, Definition.idText]
  simp [String.join]

namespace Extraction

/-- The texts that the ids of an extraction are made of. -/
def idTexts (ex : Extraction) : Set String :=
  {t | ∃ d ∈ ex.endpoints.toList, d.idText = t}

variable {source : Facts.Source} {config : Config} {ex : Extraction}

theorem id_eq (h : ofSource source config = .ok ex) {d : Definition} (hd : d ∈ ex.endpoints.toList) :
    d.id = StableId.ofText d.idText := by
  obtain ⟨es, catalog, -, e, -, hb⟩ := exists_build h hd
  exact Endpoint.id_of_build hb

/-- If no two texts of the run have one id, definitions have the same id exactly if the texts of their URL,
name and method are the same when put together. They have the same URL, the same name and the same method
exactly if the first two are also as long as each other. -/
theorem same_id_iff (source : Facts.Source) (config : Config) (ex : Extraction)
    (h : ofSource source config = .ok ex) (hinj : Set.InjOn StableId.ofText ex.idTexts) :
    ∀ d ∈ ex.endpoints.toList, ∀ d' ∈ ex.endpoints.toList,
      (d.id = d'.id ↔ d.idText = d'.idText) ∧
      (d.urlMapping = d'.urlMapping ∧ d.name = d'.name ∧ d.method = d'.method ↔
        d.id = d'.id ∧ d.urlMapping.length = d'.urlMapping.length ∧ d.name.length = d'.name.length) := by
  intro d hd d' hd'
  have hid : d.id = d'.id ↔ d.idText = d'.idText := by
    rw [id_eq h hd, id_eq h hd']
    exact hinj.eq_iff ⟨d, hd, rfl⟩ ⟨d', hd', rfl⟩
  refine ⟨hid, ?_⟩
  rw [hid]
  constructor
  · rintro ⟨hu, hn, hm⟩
    simp [Definition.idText, hu, hn, hm]
  · rintro ⟨ht, hu, hn⟩
    exact parts_inj ht hu hn

/-- A source of endpoints, each given by its method and the path that it posts to. -/
def postings (es : List (String × String)) : Facts.Source :=
  .ofDocument ⟨es.map fun e => { listed "h.Sign" "POST" [] with methodName := e.1, path := e.2 }, Keyed.empty, [], none⟩

/-- The URLs, names and methods of an extraction. -/
def parts (ex : Extraction) : List (String × String × String) :=
  ex.endpoints.toList.map fun d => (d.urlMapping, d.name, d.method)

theorem idTexts_eq (ex : Extraction) : ex.idTexts = {t | t ∈ ex.parts.map fun p => p.1 ++ p.2.1 ++ p.2.2} := by
  ext t
  simp [idTexts, parts, Definition.idText]

theorem exists_of_mem_parts {ex : Extraction} {url name method : String} (h : (url, name, method) ∈ ex.parts) :
    ∃ d ∈ ex.endpoints.toList, d.urlMapping = url ∧ d.name = name ∧ d.method = method := by
  obtain ⟨d, hd, he⟩ := List.mem_map.1 h
  simp only [Prod.mk.injEq] at he
  exact ⟨d, hd, he⟩

/-- Signing in and signing out have different ids. -/
theorem signs_same_id_iff : ∃ ex,
    ofSource (postings [("enter", "/in"), ("leave", "/out")]) (.ofServiceId "svc") = .ok ex ∧
    Set.InjOn StableId.ofText ex.idTexts ∧
    ∃ d ∈ ex.endpoints.toList, ∃ d' ∈ ex.endpoints.toList, d.id ≠ d'.id ∧
      ¬ (d.urlMapping = d'.urlMapping ∧ d.name = d'.name ∧ d.method = d'.method) := by
  obtain ⟨ex, he, hp⟩ := exists_of_map parts (postings [("enter", "/in"), ("leave", "/out")]) (.ofServiceId "svc")
    [("/in", "enter", "POST"), ("/out", "leave", "POST")] (by decide)
  have hinj : Set.InjOn StableId.ofText ex.idTexts := by
    rw [idTexts_eq, hp]
    have hne : StableId.ofText "/inenterPOST" ≠ StableId.ofText "/outleavePOST" := by decide +kernel
    simp [Set.InjOn, hne, hne.symm]
  obtain ⟨d, hd, hu, hn, hm⟩ : ∃ d ∈ ex.endpoints.toList, d.urlMapping = "/in" ∧ d.name = "enter" ∧ d.method = "POST" :=
    exists_of_mem_parts (by simp [hp])
  obtain ⟨d', hd', hu', hn', hm'⟩ :
      ∃ d ∈ ex.endpoints.toList, d.urlMapping = "/out" ∧ d.name = "leave" ∧ d.method = "POST" :=
    exists_of_mem_parts (by simp [hp])
  obtain ⟨hid, hparts⟩ := same_id_iff _ _ ex he hinj d hd d' hd'
  have hne : d.id ≠ d'.id := by
    rw [Ne, hid]
    simp [Definition.idText, hu, hn, hm, hu', hn', hm']
  exact ⟨ex, he, hinj, d, hd, d', hd', hne, fun h => hne (hparts.1 h).1⟩

/-- Where a method is called after the end of a path, two endpoints can have one id. -/
theorem signs_share_id : ¬ ∀ (facts : Facts.Document) (config : Config) (ex : Extraction),
    ofSource (.ofDocument facts) config = .ok ex → Set.InjOn StableId.ofText ex.idTexts →
      ∀ d ∈ ex.endpoints.toList, ∀ d' ∈ ex.endpoints.toList, d.id = d'.id →
        d.urlMapping = d'.urlMapping ∧ d.name = d'.name ∧ d.method = d'.method := by
  intro hall
  obtain ⟨ex, he, hp⟩ := exists_of_map parts (postings [("upload", "/sign"), ("load", "/signup")]) (.ofServiceId "svc")
    [("/sign", "upload", "POST"), ("/signup", "load", "POST")] (by decide)
  have hinj : Set.InjOn StableId.ofText ex.idTexts := by
    rw [idTexts_eq, hp]
    simp [Set.InjOn]
  obtain ⟨d, hd, hu, hn, hm⟩ : ∃ d ∈ ex.endpoints.toList, d.urlMapping = "/sign" ∧ d.name = "upload" ∧ d.method = "POST" :=
    exists_of_mem_parts (by simp [hp])
  obtain ⟨d', hd', hu', hn', hm'⟩ :
      ∃ d ∈ ex.endpoints.toList, d.urlMapping = "/signup" ∧ d.name = "load" ∧ d.method = "POST" :=
    exists_of_mem_parts (by simp [hp])
  -- Both texts are "/signuploadPOST".
  have hid : d.id = d'.id := by
    rw [id_eq he hd, id_eq he hd']
    simp [Definition.idText, hu, hn, hm, hu', hn', hm']
  have hurl := (hall _ _ ex he hinj d hd d' hd' hid).1
  simp [hu, hu'] at hurl

end Extraction

end ApiDocs
