import ApiDocs.Proofs.Generation.Course
/-!
# Runs over the disks of other runs

Where the path of the archive leads to one place (`Archive.Fixed`), the bundle of a complete run depends on what was
on the disk before in one thing at most, the error response (`Plan.bundle_run`). It does not if the run writes one.
If the run writes none, it leaves the document of an earlier run where it is, and puts it into the bundle
(`Plan.bundle_run_fails_problem`).
-/
namespace ApiDocs

open Disk

namespace Generation.Plan

variable {p : Plan} {x : Extraction} {document : OpenApi.Document} {d d' d₁ d₂ e e' e₁ e₂ : Disk}
  {report report' : Report} {source : Facts.Source}

/-- The place of the error response is in none of the folders that are cleared. -/
theorem not_under_errorResponse (p : Plan) (home : Place) :
    ¬ Archive.Under home p.archive.clearedFolders (p.archive.place home ++ ["error", "error-response.json"]) := by
  rw [Archive.under_clearedFolders_iff]
  rintro ⟨m, hm, hp⟩
  rw [List.prefix_append_right_inj] at hp
  have he : m = "error" := by simpa using hp
  rcases hm with rfl | rfl <;> exact absurd he (by decide)

/-- A run that does not write the error response leaves it as it was. -/
theorem Course.readErrorResponse_of_ne (hf : p.archive.Fixed d) (h : p.Course x document d d₁ d₂ d')
    (hne : ∀ doc ∈ p.documents x document, p.archive.place d.home ++ ["error", "error-response.json"] ≠ placeAt d.home doc.1) :
    p.archive.readErrorResponse d₂ = p.archive.readErrorResponse d := by
  have hc := h.cleared hf
  have hhome := (h.home hf).2.1
  refine Archive.readErrorResponse_congr (h.fixed hf).1.anchors hf.anchors hhome ?_
  rw [hhome, h.documents.text?_of_ne isDocument_of_mem (by rwa [hc.home]), text?, text?,
    hc.kept _ (not_under_errorResponse p d.home)]

/-- Two runs read the same error response if they write one, or read the same before. -/
theorem Course.readErrorResponse_congr (hf : p.archive.Fixed d) (hf' : p.archive.Fixed e)
    (h : p.Course x document d d₁ d₂ d') (h' : p.Course x document e e₁ e₂ e') (hh : d.home = e.home)
    (hr : x.errorResponse.isSome = true ∨ p.archive.readErrorResponse d = p.archive.readErrorResponse e) :
    p.archive.readErrorResponse d₂ = p.archive.readErrorResponse e₂ := by
  by_cases hw : ∃ doc ∈ p.documents x document, p.archive.place d.home ++ ["error", "error-response.json"] = placeAt d.home doc.1
  · -- Some document stands there, and both runs wrote it.
    have hhome := (h.home hf).2.1
    refine Archive.readErrorResponse_congr (h.fixed hf).1.anchors (h'.fixed hf').1.anchors
      (by rw [hhome, (h'.home hf').2.1, hh]) ?_
    rw [hhome]
    exact h.text?_congr hf hf' h' hh (.inl hw)
  · have hne : ∀ doc ∈ p.documents x document,
        p.archive.place d.home ++ ["error", "error-response.json"] ≠ placeAt d.home doc.1 :=
      fun doc hdoc he => hw ⟨doc, hdoc, he⟩
    have hsame : p.archive.readErrorResponse d = p.archive.readErrorResponse e := by
      refine hr.resolve_left fun hsome => ?_
      obtain ⟨v, hv⟩ := errorResponse_mem_documents p hsome document
      exact hne _ hv (Archive.placeAt_grandchild Archive.simple_error Archive.simple_errorResponse _ _).symm
    rw [h.readErrorResponse_of_ne hf hne, h'.readErrorResponse_of_ne hf' (by rwa [← hh]), hsame]

/-- The bundle is read back with the error response that stands on the disk. -/
theorem Course.readText_bundle (hf : p.archive.Fixed d) (h : p.Course x document d d₁ d₂ d') :
    d'.readText p.archive.bundlePath = .ok ((p.archive.bundle p.config.service d₂).toJson.pretty ++ "\n") ∧
      p.archive.readErrorResponse d' = p.archive.readErrorResponse d₂ := by
  have hdocument := (documentPath_bundle p).isDocument
  have hwritten := written_of_isDocument hdocument h.bundle
  refine ⟨hwritten.readText hdocument, ?_⟩
  refine Archive.readErrorResponse_congr (h.fixed hf).2.anchors (h.fixed hf).1.anchors hwritten.home ?_
  rw [hwritten.text?, hwritten.home, placeAt_bundle, if_neg (by simp)]

/-- The bundles of two complete runs over the same facts are the same but for the error response. -/
theorem exists_bundle (hf : p.archive.Fixed d) (hf' : p.archive.Fixed e) (hh : d.home = e.home)
    (h : p.run source d = (.ok report, d')) (hs : report.isSuccess = true)
    (h' : p.run source e = (.ok report', e')) (hs' : report'.isSuccess = true) :
    ∃ b : Bundle,
      d'.readText p.archive.bundlePath =
        .ok ({ b with errorResponse := p.archive.readErrorResponse d' }.toJson.pretty ++ "\n") ∧
      e'.readText p.archive.bundlePath =
        .ok ({ b with errorResponse := p.archive.readErrorResponse e' }.toJson.pretty ++ "\n") := by
  obtain ⟨x, hx, document, d₁, d₂, hcourse⟩ := completes_of_run h hs
  obtain ⟨y, hy, document', e₁, e₂, hcourse'⟩ := completes_of_run h' hs'
  obtain rfl := Except.ok.inj (hx.symm.trans hy)
  obtain rfl := Except.ok.inj (hcourse.specification.symm.trans hcourse'.specification)
  obtain ⟨htext, hresponse⟩ := hcourse.readText_bundle hf
  obtain ⟨htext', hresponse'⟩ := hcourse'.readText_bundle hf'
  refine ⟨p.archive.bundle p.config.service d₂, ?_, ?_⟩
  · rw [htext, hresponse]
    rfl
  · rw [htext', hresponse', hcourse.bundle_congr hf hf' hcourse' hh]

/-- Two complete runs leave the same error response if the facts have one, or the disks had the same. -/
theorem readErrorResponse_run (hf : p.archive.Fixed d) (hf' : p.archive.Fixed e) (hh : d.home = e.home)
    (h : p.run source d = (.ok report, d')) (hs : report.isSuccess = true)
    (h' : p.run source e = (.ok report', e')) (hs' : report'.isSuccess = true)
    (hr : (∃ x, Extraction.ofSource source p.config = .ok x ∧ x.errorResponse.isSome = true) ∨
      p.archive.readErrorResponse d = p.archive.readErrorResponse e) :
    p.archive.readErrorResponse d' = p.archive.readErrorResponse e' := by
  obtain ⟨x, hx, document, d₁, d₂, hcourse⟩ := completes_of_run h hs
  obtain ⟨y, hy, document', e₁, e₂, hcourse'⟩ := completes_of_run h' hs'
  obtain rfl := Except.ok.inj (hx.symm.trans hy)
  obtain rfl := Except.ok.inj (hcourse.specification.symm.trans hcourse'.specification)
  rw [(hcourse.readText_bundle hf).2, (hcourse'.readText_bundle hf').2]
  refine hcourse.readErrorResponse_congr hf hf' hcourse' hh (hr.imp_left fun ⟨y, hy, hsome⟩ => ?_)
  rwa [Except.ok.inj (hx.symm.trans hy)]

/-- The bundles of two complete runs over the same facts differ in nothing but the error response, where on both disks
the path of the archive leads to one place before and after the clearing, from the same home. If the facts have an
error response, or the disks had the same, the bundles are the same. -/
theorem bundle_run (hf : p.archive.Fixed d) (hf' : p.archive.Fixed e) (hh : d.home = e.home)
    (h : p.run source d = (.ok report, d')) (hs : report.isSuccess = true)
    (h' : p.run source e = (.ok report', e')) (hs' : report'.isSuccess = true) :
    (∃ b : Bundle,
      d'.readText p.archive.bundlePath =
        .ok ({ b with errorResponse := p.archive.readErrorResponse d' }.toJson.pretty ++ "\n") ∧
      e'.readText p.archive.bundlePath =
        .ok ({ b with errorResponse := p.archive.readErrorResponse e' }.toJson.pretty ++ "\n")) ∧
    ((∃ x, Extraction.ofSource source p.config = .ok x ∧ x.errorResponse.isSome = true) ∨
        p.archive.readErrorResponse d = p.archive.readErrorResponse e →
      d'.readText p.archive.bundlePath = e'.readText p.archive.bundlePath) := by
  obtain ⟨b, htext, htext'⟩ := exists_bundle hf hf' hh h hs h' hs'
  refine ⟨⟨b, htext, htext'⟩, fun hr => ?_⟩
  rw [htext, htext', readErrorResponse_run hf hf' hh h hs h' hs' hr]

theorem bundle_run_small :
    let source := errorsAs (some "com.x.Problem")
    let d := (small.run (errorsAs (some "com.x.Fault")) .empty).2
    ∃ report report' d' e', small.run source d = (.ok report, d') ∧ report.isSuccess = true ∧
      small.run source .empty = (.ok report', e') ∧ report'.isSuccess = true ∧
      d'.readText small.archive.bundlePath = e'.readText small.archive.bundlePath := by
  intro source d
  have hdown : ".." ∉ Path.pieces small.archive.root := by decide
  have hd : (small.run source d).1.toOption.map Report.isSuccess = some true ∧ d.home = [] := by decide +kernel
  obtain ⟨report, hrun, hs⟩ := exists_report hd.1
  obtain ⟨report', hrun', hs'⟩ : ∃ report, small.run source .empty = (.ok report, (small.run source .empty).2) ∧
      report.isSuccess = true := exists_report (by decide +kernel)
  have hx : ∃ x, Extraction.ofSource source small.config = .ok x ∧ x.errorResponse.isSome = true := by
    have hresponse : ((Extraction.ofSource source small.config).toOption.bind (·.errorResponse)).isSome = true := by
      decide +kernel
    cases hofSource : Extraction.ofSource source small.config with
    | error fault =>
      rw [hofSource] at hresponse
      cases hresponse
    | ok x => exact ⟨x, rfl, by rwa [hofSource] at hresponse⟩
  exact ⟨report, report', _, _, hrun, hs, hrun', hs', (bundle_run (Archive.fixed_of_down hdown d)
    (Archive.fixed_of_down hdown .empty) hd.2 hrun hs hrun' hs').2 (.inl hx)⟩

/-- The text of a bundle tells whether it has an error response. -/
theorem pretty_bundle_ne (b : Bundle) (m : Model) :
    { b with errorResponse := some m }.toJson.pretty ≠ { b with errorResponse := none }.toJson.pretty := by
  intro h
  have hchars := String.ofList_injective h
  simp [Bundle.toJson, Json.present, Json.prettyChars, Json.prettyMembers, Json.newLine] at hchars

/-- After a run over other facts, the bundle has the error response of those, although the new facts have none. -/
theorem bundle_run_fails_problem :
    let d := (small.run (errorsAs (some "com.x.Problem")) .empty).2
    ∃ report report' d' e', small.run (errorsAs none) d = (.ok report, d') ∧ report.isSuccess = true ∧
      small.run (errorsAs none) .empty = (.ok report', e') ∧ report'.isSuccess = true ∧
      d'.readText small.archive.bundlePath ≠ e'.readText small.archive.bundlePath := by
  intro d
  have hdown : ".." ∉ Path.pieces small.archive.root := by decide
  have hd : (small.run (errorsAs none) d).1.toOption.map Report.isSuccess = some true ∧ d.home = [] ∧
      (small.archive.readErrorResponse (small.run (errorsAs none) d).2).isSome = true := by decide +kernel
  have he : (small.run (errorsAs none) .empty).1.toOption.map Report.isSuccess = some true ∧
      (small.archive.readErrorResponse (small.run (errorsAs none) .empty).2).isNone = true := by decide +kernel
  obtain ⟨report, hrun, hs⟩ := exists_report hd.1
  obtain ⟨report', hrun', hs'⟩ := exists_report he.1
  obtain ⟨b, htext, htext'⟩ := exists_bundle (Archive.fixed_of_down hdown d) (Archive.fixed_of_down hdown .empty)
    hd.2.1 hrun hs hrun' hs'
  refine ⟨report, report', _, _, hrun, hs, hrun', hs', fun hsame => ?_⟩
  obtain ⟨m, hm⟩ := Option.isSome_iff_exists.1 hd.2.2
  rw [htext, htext', hm, Option.isNone_iff_eq_none.1 he.2] at hsame
  exact pretty_bundle_ne b m ((String.append_left_inj _).1 (Except.ok.inj hsame))

end Generation.Plan

end ApiDocs
