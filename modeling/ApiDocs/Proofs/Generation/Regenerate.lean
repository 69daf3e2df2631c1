import ApiDocs.Proofs.Generation.Course
/-!
# Generating again

A complete run over what a complete run left behind writes the same documents over those that are there
(`Plan.run_run`). The folders that it clears are filled again by the same documents, and the bundle is put together
from the same texts, for no document that a bundle is read from is written after it.
-/
namespace ApiDocs

open Disk

namespace Generation.Plan

variable {p : Plan} {x : Extraction} {document : OpenApi.Document} {d d' d₁ d₂ e₁ e₂ T T' : Disk} {q : Place}
  {report : Report} {source : Facts.Source}

/-- No file stands in the place of a folder that is cleared: those of the documents end in `.json`. -/
theorem Course.text?_eq_none (hf : p.archive.Fixed d) (h : p.Course x document d d₁ d₂ T) :
    ∀ path ∈ p.archive.clearedFolders, T.text? (placeAt T.home path) = none := by
  intro path hpath
  obtain ⟨m, hm, hplace⟩ := Archive.placeAt_of_mem_clearedFolders hpath d.home
  rw [(h.home hf).2.2, h.everything.text?_of_ne isDocument_of_mem_everything, text?,
    (h.cleared hf).gone _ ⟨path, hpath, List.prefix_refl _⟩]
  intro doc hdoc he
  exact Archive.placeAt_ne_of_documentPath (documentPath_of_mem_everything doc hdoc) hm d₁.home _ (he.symm.trans hplace)

/-- What a complete run left can be cleared, which takes away nothing that cannot be written again. -/
theorem Course.clear_again (hf : p.archive.Fixed d) (h : p.Course x document d d₁ d₂ T) :
    ∃ e₁, p.archive.clear T = (.ok (), e₁) ∧ Archive.Cleared p.archive.clearedFolders T e₁ ∧ Open e₁ T := by
  have hfixed := (h.fixed hf).2
  have hsub := List.Subset.refl p.archive.clearedFolders
  obtain ⟨e₁, hclear⟩ := Archive.exists_clearFolders h.clearable hsub hfixed (h.text?_eq_none hf)
  have hcleared := Archive.cleared_clearFolders h.clearable hsub hfixed hclear
  refine ⟨e₁, hclear, hcleared, fun q hq hne => ?_⟩
  have hu : Archive.Under T.home p.archive.clearedFolders q := by
    by_contra hu
    rw [hcleared.kept q hu] at hq
    exact hne hq
  exact h.everything.open isDocument_of_mem_everything q ((h.cleared hf).gone q ((h.home hf).2.2 ▸ hu)) hne

/-- A complete run can be followed by another one. -/
theorem Course.again (hf : p.archive.Fixed d) (h : p.Course x document d d₁ d₂ T) :
    ∃ e₁ e₂ T', p.Course x document T e₁ e₂ T' ∧ Within T' T := by
  obtain ⟨e₁, hclear, hcleared, hopen⟩ := h.clear_again hf
  have hstart : ∀ path, p.archive.DocumentPath path → e₁.at? (start e₁.home path) = some .folder := by
    intro path hpath
    rw [hcleared.home]
    rcases hpath.start T.home with hs | hs
    · rw [hs]
      exact at?_nil e₁
    · rw [hs, hcleared.kept _ (h.fixed hf).2.not_under_start]
      exact h.at?_start
  obtain ⟨e₂, hwrites, hwithin₂, hopen₂⟩ := WritesAll.again isDocument_of_mem hcleared.within hopen
    (fun doc hdoc => h.keeps doc (List.mem_append_left _ hdoc)) fun doc hdoc => hstart doc.1 (documentPath_of_mem hdoc)
  have hbundle := documentPath_bundle p
  obtain ⟨ps, n, hpieces⟩ := hbundle.isDocument
  have hkeeps : Keeps T p.archive.bundlePath := h.keeps _ (List.mem_append_right _ (List.mem_singleton_self _))
  have hwrites₁ := hwrites.within isDocument_of_mem
  obtain ⟨T', hT'⟩ := writeDocument_again hpieces (proper_json n) hwithin₂ hopen₂ hkeeps
    (hwrites₁.home ▸ hwrites₁.folder _ (hstart _ hbundle)) (p.archive.bundle p.config.service e₂).toJson
  exact ⟨e₁, e₂, T', ⟨h.specification, hclear, hwrites, hT'⟩,
    hwithin₂.of_written (written_of_isDocument hbundle.isDocument hT') hkeeps⟩

/-- The bundle is the only document that a second run could find changed when it writes its own. -/
theorem Course.text?_again_of_ne (hf : p.archive.Fixed d) (h : p.Course x document d d₁ d₂ T)
    (h' : p.Course x document T e₁ e₂ T') (hq : q ≠ p.archive.place d.home ++ ["spec-bundle.json"]) :
    e₂.text? q = d₂.text? q := by
  obtain ⟨-, hd₂, hhome⟩ := h.home hf
  refine h'.text?_congr (h.fixed hf).2 hf h hhome ?_
  by_cases hg : ∃ doc ∈ p.documents x document, q = placeAt T.home doc.1
  · exact .inl hg
  by_cases hu : Archive.Under T.home p.archive.clearedFolders q
  · exact .inr (.inl hu)
  -- Neither written nor cleared: the first run found there what it left.
  refine .inr (.inr ?_)
  have hc := h.cleared hf
  have hwritten := written_of_isDocument (documentPath_bundle p).isDocument h.bundle
  rw [hwritten.text?, placeAt_bundle, hd₂, if_neg hq, h.documents.text?_of_ne isDocument_of_mem, text?, text?,
    hc.kept q (hhome ▸ hu)]
  intro doc hdoc he
  rw [hc.home, ← hhome] at he
  exact hg ⟨doc, hdoc, he⟩

/-- The bundle is not put together from itself, so a second run puts together the same. -/
theorem Course.bundle_again (hf : p.archive.Fixed d) (h : p.Course x document d d₁ d₂ T)
    (h' : p.Course x document T e₁ e₂ T') (s : Service) : p.archive.bundle s e₂ = p.archive.bundle s d₂ := by
  have hfixed := (h.fixed hf).2
  obtain ⟨-, hd₂, hhome⟩ := h.home hf
  have he₂ := (h'.home hfixed).2.1
  have hresponse : p.archive.readErrorResponse e₂ = p.archive.readErrorResponse d₂ := by
    refine Archive.readErrorResponse_congr (h'.fixed hfixed).1.anchors (h.fixed hf).1.anchors
      (by rw [he₂, hd₂, hhome]) (h.text?_again_of_ne hf h' ?_)
    rw [he₂, hhome]
    simp
  rw [h.bundle_congr hf hfixed h' hhome.symm, hresponse]
  rfl

/-- Two complete runs in a row leave the same texts. -/
theorem Course.text?_again (hf : p.archive.Fixed d) (h : p.Course x document d d₁ d₂ T)
    (h' : p.Course x document T e₁ e₂ T') (q : Place) : T'.text? q = T.text? q := by
  obtain ⟨-, hd₂, hhome⟩ := h.home hf
  have he₂ := (h'.home (h.fixed hf).2).2.1
  have hwritten := written_of_isDocument (documentPath_bundle p).isDocument h.bundle
  have hwritten' := written_of_isDocument (documentPath_bundle p).isDocument h'.bundle
  rw [hwritten'.text?, hwritten.text?, he₂, hd₂, hhome, placeAt_bundle, h.bundle_again hf h']
  by_cases hq : q = p.archive.place d.home ++ ["spec-bundle.json"]
  · rw [if_pos hq, if_pos hq]
  · rw [if_neg hq, if_neg hq]
    exact h.text?_again_of_ne hf h' hq

/-- A second run makes the folders again that the first left. -/
theorem Course.folder_again (hf : p.archive.Fixed d) (h : p.Course x document d d₁ d₂ T)
    (h' : p.Course x document T e₁ e₂ T') (hq : T.at? q = some .folder) : T'.at? q = some .folder := by
  have hfixed := (h.fixed hf).2
  have hc := h.cleared hf
  have hhome := (h.home hf).2.2
  by_cases hu : Archive.Under T.home p.archive.clearedFolders q
  · -- What stands in a folder that was cleared is on the way to a document, and so it is again.
    obtain ⟨doc, hdoc, hg⟩ := h.everything.new isDocument_of_mem_everything (hc.gone q (hhome ▸ hu)) (by simp [hq])
    rw [hc.home, ← hhome] at hg
    obtain ⟨v, hdoc'⟩ : ∃ v, (doc.1, v) ∈ p.everything x document e₂ := by
      rcases List.mem_append.1 hdoc with hdoc | hdoc
      · exact ⟨doc.2, List.mem_append_left _ hdoc⟩
      · rw [List.mem_singleton.1 hdoc]
        exact ⟨_, List.mem_append_right _ (List.mem_singleton_self _)⟩
    rcases hg with hg | hway
    · obtain ⟨text, ht⟩ := (h.keeps doc hdoc).file
      rw [← hg, hq] at ht
      cases ht
    · refine (h'.keeps _ hdoc').of_onWay ?_
      rwa [(h'.home hfixed).2.2]
  · refine h'.within.folder q ?_
    rw [(h'.cleared hfixed).kept q hu, hq]

/-- Two complete runs in a row leave the same entries. -/
theorem Course.at?_again (hf : p.archive.Fixed d) (h : p.Course x document d d₁ d₂ T)
    (h' : p.Course x document T e₁ e₂ T') (hw : Within T' T) (q : Place) : T'.at? q = T.at? q := by
  have htext := h.text?_again hf h' q
  cases hq : T'.at? q with
  | some entry =>
    cases entry with
    | folder => exact (hw.folder q hq).symm
    | file text =>
      rw [text?_eq_some_iff.2 hq] at htext
      exact (text?_eq_some_iff.1 htext.symm).symm
  | none =>
    cases hq' : T.at? q with
    | none => rfl
    | some entry =>
      cases entry with
      | folder =>
        rw [h.folder_again hf h' hq'] at hq
        cases hq
      | file text =>
        rw [text?_eq_some_iff.2 hq', text?_eq_some_iff, hq] at htext
        cases htext

/-- After a run without failed stages, another run of the same plan reports the same and leaves every file,
and every folder, as it is. The path of the archive has to lead to one place before the run and after it. -/
theorem run_run (hf : p.archive.Fixed d) (h : p.run source d = (.ok report, d')) (hs : report.isSuccess = true) :
    ∃ d'', p.run source d' = (.ok report, d'') ∧ ∀ place, d''.at? place = d'.at? place := by
  obtain ⟨x, hx, document, d₁, d₂, hcourse⟩ := completes_of_run h hs
  obtain ⟨e₁, e₂, d'', hcourse', hwithin⟩ := hcourse.again hf
  exact ⟨d'', run_of_completes hx h ⟨document, d₁, d₂, hcourse⟩ ⟨document, e₁, e₂, hcourse'⟩,
    hcourse.at?_again hf hcourse' hwithin⟩

theorem run_run_small :
    let d := ((Disk.empty.put ["out"] .folder).put ["out", "api"] .folder).put ["out", "api", "Gone.json"] (.file "[]\n")
    ∃ report d' d'', small.run (errorsAs (some "com.x.Problem")) d = (.ok report, d') ∧ report.isSuccess = true ∧
      small.run (errorsAs (some "com.x.Problem")) d' = (.ok report, d'') ∧ ∀ place, d''.at? place = d'.at? place := by
  intro d
  have hfixed : small.archive.Fixed d := Archive.fixed_of_down (by decide) d
  obtain ⟨report, hrun, hs⟩ : ∃ report, small.run (errorsAs (some "com.x.Problem")) d =
      (.ok report, (small.run (errorsAs (some "com.x.Problem")) d).2) ∧ report.isSuccess = true :=
    exists_report (by decide +kernel)
  obtain ⟨d'', hagain, hsame⟩ := run_run hfixed hrun hs
  exact ⟨report, _, d'', hrun, hs, hagain, hsame⟩

end Generation.Plan

end ApiDocs
