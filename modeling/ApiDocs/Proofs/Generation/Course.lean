import ApiDocs.Proofs.Generation.Run
/-!
# The course of a complete run

What stands on the disks that a complete run passes. Two runs leave the same texts behind wherever they
write a document, where they clear, and where the disks agreed before (`Course.text?_congr`). So their
bundles differ in nothing but perhaps the error response (`Course.bundle_congr`).
-/
namespace ApiDocs

open Disk

namespace Archive

variable {d d' : Disk} {a : Archive} {docs : List (String × Json)} {q : Place}

theorem isDocument_of_forall (hd : ∀ p ∈ docs, a.DocumentPath p.1) : ∀ p ∈ docs, IsDocument p.1 :=
  fun p hp => (hd p hp).isDocument

theorem tidy_of_writesAll (hd : ∀ p ∈ docs, a.DocumentPath p.1) (h : WritesAll docs d d')
    (hgone : ∀ q, Under d.home a.clearedFolders q → d.at? q = none) : a.Tidy d' := by
  intro m n hm hne
  rw [← (h.within (isDocument_of_forall hd)).home] at hne
  have hu : Under d.home a.clearedFolders (a.place d.home ++ [m, n]) :=
    under_clearedFolders_iff.2 ⟨m, hm, ⟨[n], by simp⟩⟩
  have hplace : a.place d.home ++ [m, n] = (a.place d.home ++ [m]) ++ [n] := by simp
  rw [hplace] at hu hne
  exact h.simple_of_new (isDocument_of_forall hd) (hgone _ hu) hne

end Archive

namespace Generation.Plan

variable {p : Plan} {x : Extraction} {d d' e e' : Disk} {q : Place}

variable {document : OpenApi.Document} {d₁ d₂ e₁ e₂ : Disk}

/-- All documents that a run writes, with the bundle. -/
def everything (p : Plan) (x : Extraction) (document : OpenApi.Document) (d₂ : Disk) : List (String × Json) :=
  p.documents x document ++ [(p.archive.bundlePath, (p.archive.bundle p.config.service d₂).toJson)]

theorem isDocument_of_mem : ∀ doc ∈ p.documents x document, IsDocument doc.1 :=
  fun _ hdoc => (documentPath_of_mem hdoc).isDocument

theorem documentPath_of_mem_everything : ∀ doc ∈ p.everything x document d₂, p.archive.DocumentPath doc.1 := by
  intro doc hdoc
  rcases List.mem_append.1 hdoc with hdoc | hdoc
  · exact documentPath_of_mem hdoc
  · rw [List.mem_singleton.1 hdoc]
    exact documentPath_bundle p

theorem Course.everything (h : p.Course x document d d₁ d₂ d') : WritesAll (p.everything x document d₂) d₁ d' :=
  h.documents.append (.cons h.bundle .nil)

theorem isDocument_of_mem_everything : ∀ doc ∈ p.everything x document d₂, IsDocument doc.1 :=
  fun doc hdoc => (documentPath_of_mem_everything doc hdoc).isDocument

theorem Course.keeps (h : p.Course x document d d₁ d₂ d') : ∀ doc ∈ p.everything x document d₂, Keeps d' doc.1 :=
  h.everything.keeps isDocument_of_mem_everything

theorem Course.keeps_errors (h : p.Course x document d d₁ d₂ d') : Keeps d' p.archive.errorsPath := by
  obtain ⟨v, hv⟩ := errors_mem_documents p x document
  exact h.keeps (p.archive.errorsPath, v) (List.mem_append_left _ hv)

theorem Course.clearable (h : p.Course x document d d₁ d₂ d') : ∀ path ∈ p.archive.clearedFolders, Archive.Clear path :=
  Archive.clear_of_keeps h.keeps_errors

theorem Course.cleared (hf : p.archive.Fixed d) (h : p.Course x document d d₁ d₂ d') :
    Archive.Cleared p.archive.clearedFolders d d₁ :=
  Archive.cleared_clearFolders h.clearable (List.Subset.refl _) hf h.clear

theorem Course.within (h : p.Course x document d d₁ d₂ d') : Within d₁ d' :=
  h.everything.within isDocument_of_mem_everything

/-- The path of the archive starts at a folder. -/
theorem Course.at?_start (h : p.Course x document d d₁ d₂ d') : d'.at? (start d'.home p.archive.root) = some .folder := by
  have hl := h.keeps_errors.leads
  rw [Archive.errorsPath, Archive.start_grandchild Archive.simple_error Archive.simple_errors,
    Archive.names_grandchild Archive.simple_error Archive.simple_errors] at hl
  exact hl.head (by simp)

theorem Course.home (hf : p.archive.Fixed d) (h : p.Course x document d d₁ d₂ d') :
    d₁.home = d.home ∧ d₂.home = d.home ∧ d'.home = d.home := by
  have hc := (h.cleared hf).home
  exact ⟨hc, (h.documents.within isDocument_of_mem).home.symm.trans hc, h.within.home.symm.trans hc⟩

/-- A run leaves the path of the archive as fixed as it was. -/
theorem Course.fixed (hf : p.archive.Fixed d) (h : p.Course x document d d₁ d₂ d') :
    p.archive.Fixed d₂ ∧ p.archive.Fixed d' := by
  have h₁ := hf.cleared (List.Subset.refl _) (h.cleared hf)
  exact ⟨h₁.within (h.documents.within isDocument_of_mem), h₁.within h.within⟩

theorem placeAt_bundle (p : Plan) (home : Place) :
    placeAt home p.archive.bundlePath = p.archive.place home ++ ["spec-bundle.json"] :=
  Archive.placeAt_child Archive.simple_bundle p.archive home

/-! ## Two runs -/

theorem Course.text?_congr (hf : p.archive.Fixed d) (hf' : p.archive.Fixed e) (h : p.Course x document d d₁ d₂ d')
    (h' : p.Course x document e e₁ e₂ e') (hh : d.home = e.home)
    (hq : (∃ doc ∈ p.documents x document, q = placeAt d.home doc.1) ∨
      Archive.Under d.home p.archive.clearedFolders q ∨ d.text? q = e.text? q) :
    d₂.text? q = e₂.text? q := by
  have hc := h.cleared hf
  have hc' := h'.cleared hf'
  refine h.documents.text?_congr isDocument_of_mem h'.documents (by rw [hc.home, hc'.home, hh]) ?_
  rw [hc.home]
  refine hq.imp_right fun hq => ?_
  by_cases hu : Archive.Under d.home p.archive.clearedFolders q
  · rw [text?, text?, hc.gone q hu, hc'.gone q (hh ▸ hu)]
  · rw [text?, text?, hc.kept q hu, hc'.kept q (hh ▸ hu)]
    exact hq.resolve_left hu

theorem Course.tidy (hf : p.archive.Fixed d) (h : p.Course x document d d₁ d₂ d') : p.archive.Tidy d₂ := by
  have hc := h.cleared hf
  exact Archive.tidy_of_writesAll (fun _ hdoc => documentPath_of_mem hdoc) h.documents (by rw [hc.home]; exact hc.gone)

/-- The bundles of two runs are put together from the same documents, but for the error response. -/
theorem Course.bundle_congr (hf : p.archive.Fixed d) (hf' : p.archive.Fixed e) (h : p.Course x document d d₁ d₂ d')
    (h' : p.Course x document e e₁ e₂ e') (hh : d.home = e.home) (s : Service) :
    p.archive.bundle s e₂ = { p.archive.bundle s d₂ with errorResponse := p.archive.readErrorResponse e₂ } := by
  have hh₂ := (h.home hf).2.1
  have hh₂' := (h'.home hf').2.1
  have hhome : e₂.home = d₂.home := by rw [hh₂, hh₂', hh]
  have hd := (h.fixed hf).1.anchors
  have he := (h'.fixed hf').1.anchors
  -- The folders were cleared by both runs, and the errors written by both.
  have hfolder : ∀ m, m = "api" ∨ m = "model" → ∀ n,
      e₂.text? (p.archive.place e₂.home ++ [m, n]) = d₂.text? (p.archive.place e₂.home ++ [m, n]) := by
    intro m hm n
    refine h'.text?_congr hf' hf h hh.symm (.inr (.inl ?_))
    rw [hh₂']
    exact Archive.under_clearedFolders_iff.2 ⟨m, hm, ⟨[n], by simp⟩⟩
  have herrors : e₂.text? (p.archive.place e₂.home ++ ["error", "errors.json"]) =
      d₂.text? (p.archive.place e₂.home ++ ["error", "errors.json"]) := by
    refine h'.text?_congr hf' hf h hh.symm (.inl ?_)
    obtain ⟨v, hv⟩ := errors_mem_documents p x document
    refine ⟨_, hv, ?_⟩
    rw [hh₂', ← Archive.placeAt_grandchild Archive.simple_error Archive.simple_errors]
    rfl
  unfold Archive.bundle
  rw [Archive.readEndpoints_congr he hd hhome (h'.tidy hf') (h.tidy hf) (hfolder "api" (.inl rfl)),
    Archive.readModels_congr he hd hhome (h'.tidy hf') (h.tidy hf) (hfolder "model" (.inr rfl)),
    Archive.readErrors_congr he hd hhome herrors]

end Generation.Plan

end ApiDocs
