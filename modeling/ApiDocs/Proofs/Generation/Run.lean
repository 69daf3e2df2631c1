import ApiDocs.Generation
import ApiDocs.Proofs.Archive
/-!
# What a complete run writes

A run that completes every stage clears the archive, writes all of its documents in a row, and then the
bundle of what stands there (`Completes`). Whatever such a run reports does not depend on the disk.
-/
namespace ApiDocs.Generation

open Disk

variable {d d' e : Disk} {p : Plan} {x : Extraction} {r r' report : Report} {writes writes' : List Write}

/-! ## Writes in a row -/

theorem writeAll_append (writes writes' : List Write) (d : Disk) :
    writeAll (writes ++ writes') d =
      ((writeAll writes d).1 ++ (writeAll writes' (writeAll writes d).2).1, (writeAll writes' (writeAll writes d).2).2) := by
  induction writes generalizing d with
  | nil => rfl
  | cons write writes ih => simp only [List.cons_append, writeAll, ih]

theorem length_writeAll (writes : List Write) (d : Disk) : (writeAll writes d).1.length = writes.length := by
  induction writes generalizing d with
  | nil => rfl
  | cons write writes ih => simp only [writeAll, List.length_cons, ih]

theorem faultsOf_append (os os' : List (Outcome String)) :
    Report.faultsOf (os ++ os') = Report.faultsOf os ++ Report.faultsOf os' := by
  induction os with
  | nil => rfl
  | cons o os ih => cases o <;> simp [Report.faultsOf, ih]

theorem faultsOf_cons {o : Outcome String} {os : List (Outcome String)} :
    Report.faultsOf (o :: os) = [] ↔ (∃ path, o = .ok path) ∧ Report.faultsOf os = [] := by
  cases o <;> simp [Report.faultsOf]

theorem faultsOf_of_mem {write : Write} (hm : write ∈ writes) (hw : ∀ d, ∃ fault, (write d).1 = .error fault) (d : Disk) :
    Report.faultsOf (writeAll writes d).1 ≠ [] := by
  induction writes generalizing d with
  | nil => cases hm
  | cons first writes ih =>
    simp only [writeAll]
    intro h
    obtain ⟨⟨path, hfirst⟩, hrest⟩ := faultsOf_cons.1 h
    rcases List.mem_cons.1 hm with rfl | hm
    · obtain ⟨fault, hf⟩ := hw d
      rw [hf] at hfirst
      cases hfirst
    · exact ih hm _ hrest

/-- All writes of some stages, in order. -/
def writesOf (stages : List (Stage × List Write)) : List Write :=
  stages.flatMap (·.2)

theorem writesOf_cons (stage : Stage × List Write) (stages : List (Stage × List Write)) :
    writesOf (stage :: stages) = stage.2 ++ writesOf stages :=
  List.flatMap_cons

/-- Does all stages in order. -/
def runStages (stages : List (Stage × List Write)) (s : Report × Disk) : Report × Disk :=
  stages.foldl (fun s stage => runStage stage.1 stage.2 s) s

variable {stages : List (Stage × List Write)}

theorem runStages_cons (stage : Stage) (writes : List Write) (stages : List (Stage × List Write)) (r : Report) (d : Disk) :
    runStages ((stage, writes) :: stages) (r, d) =
      runStages stages (r.record stage (writeAll writes d).1, (writeAll writes d).2) :=
  rfl

theorem runStages_snd (stages : List (Stage × List Write)) (r : Report) (d : Disk) :
    (runStages stages (r, d)).2 = (writeAll (writesOf stages) d).2 := by
  induction stages generalizing r d with
  | nil => rfl
  | cons s stages ih =>
    obtain ⟨stage, writes⟩ := s
    rw [runStages_cons, ih, writesOf_cons, writeAll_append]

theorem failures_runStages (stages : List (Stage × List Write)) (r : Report) (d : Disk) :
    (runStages stages (r, d)).1.failures = [] ↔
      r.failures = [] ∧ Report.faultsOf (writeAll (writesOf stages) d).1 = [] := by
  induction stages generalizing r d with
  | nil => simp [runStages, writesOf, writeAll, Report.faultsOf]
  | cons s stages ih =>
    obtain ⟨stage, writes⟩ := s
    rw [runStages_cons, ih, writesOf_cons, writeAll_append, faultsOf_append]
    simp only [Report.record, List.append_eq_nil_iff, List.map_eq_nil_iff]
    exact and_assoc

/-- Where all writes have the same outcomes, the same is reported. -/
theorem runStages_congr (h : (writeAll (writesOf stages) d).1 = (writeAll (writesOf stages) e).1) (r : Report) :
    (runStages stages (r, d)).1 = (runStages stages (r, e)).1 := by
  induction stages generalizing r d e with
  | nil => rfl
  | cons s stages ih =>
    obtain ⟨stage, writes⟩ := s
    rw [writesOf_cons, writeAll_append, writeAll_append] at h
    obtain ⟨h₁, h₂⟩ := List.append_inj h (by rw [length_writeAll, length_writeAll])
    rw [runStages_cons, runStages_cons, show (writeAll writes d).1 = (writeAll writes e).1 from h₁]
    exact ih h₂ _

/-! ## Documents -/

/-- The write of a document. -/
def writeOf (doc : String × Json) : Write :=
  Archive.write doc.1 doc.2

theorem write_eq_writeOf (path : String) (v : Json) : Archive.write path v = writeOf (path, v) :=
  rfl

theorem writeOf_eq_ok_iff {path : String} {doc : String × Json} :
    writeOf doc d = (.ok path, d') ↔ path = doc.1 ∧ d.writeDocument doc.1 doc.2 = (.ok (), d') := by
  unfold writeOf Archive.write
  split
  case h_1 d₁ hw => simp [hw, eq_comm]
  case h_2 fault d₁ hw => simp [hw]

theorem writeAll_of_writesAll {docs : List (String × Json)} (h : WritesAll docs d d') :
    writeAll (docs.map writeOf) d = (docs.map fun doc => .ok doc.1, d') := by
  induction h with
  | nil => rfl
  | @cons path v rest d d₁ d' hw _ ih =>
    have hfirst : writeOf (path, v) d = (.ok path, d₁) := writeOf_eq_ok_iff.2 ⟨rfl, hw⟩
    simp only [List.map_cons, writeAll, hfirst, ih]

theorem writesAll_of_faultsOf {docs : List (String × Json)} (h : Report.faultsOf (writeAll (docs.map writeOf) d).1 = []) :
    WritesAll docs d (writeAll (docs.map writeOf) d).2 := by
  induction docs generalizing d with
  | nil => exact .nil
  | cons doc rest ih =>
    obtain ⟨path, v⟩ := doc
    rw [List.map_cons, writeAll] at h ⊢
    cases hfirst : writeOf (path, v) d with
    | mk outcome d₁ =>
      simp only [hfirst] at h ⊢
      cases outcome with
      | error fault => simp [Report.faultsOf] at h
      | ok path' => exact .cons (writeOf_eq_ok_iff.1 hfirst).2 (ih h)

namespace Plan

/-- The OpenAPI document of a run. -/
def specification (p : Plan) (x : Extraction) : Outcome OpenApi.Document :=
  OpenApi.render ⟨p.config.service, p.config.conventions, x.registry.models⟩ x.endpoints.toList

/-- The document of the service. -/
def serviceDocument (p : Plan) : String × Json :=
  (p.archive.servicePath p.config.service.id, p.config.service.toJson)

/-- The documents that are written between the service and the bundle. -/
def laterDocuments (p : Plan) (x : Extraction) (specification : OpenApi.Document) : List (String × Json) :=
  (x.endpoints.groups.entries.map fun (handler, ds) => (p.archive.endpointsPath handler, .list (ds.map Definition.toJson))) ++
  ((x.registry.models.entries.map fun (classPath, m) => (p.archive.modelPath classPath, m.toJson)) ++
  ((p.archive.errorsPath, .list (x.errors.toList.map ErrorGroup.toJson)) ::
  ((x.errorResponse.map fun m => (p.archive.errorResponsePath, m.toJson)).toList ++
  ((p.archive.openApiPath, specification.toJson) ::
  ((p.archive.collectionPath, (Collection.render ⟨p.config.service, p.config.conventions, x.registry.models⟩
      x.endpoints.toList p.previous).toJson) ::
  (Collection.environments p.config.service).map fun e => (p.archive.environmentPath e.name, e.toJson))))))

/-- All documents of a run but the bundle. -/
def documents (p : Plan) (x : Extraction) (specification : OpenApi.Document) : List (String × Json) :=
  p.serviceDocument :: p.laterDocuments x specification

theorem writesOf_stages {document : OpenApi.Document} (h : p.specification x = .ok document) :
    writesOf (p.stages x) = p.writeService :: ((p.laterDocuments x document).map writeOf ++
      [p.archive.writeBundle p.config.service]) := by
  have hopen : p.writeOpenApi x = writeOf (p.archive.openApiPath, document.toJson) := by
    funext d
    unfold Plan.writeOpenApi
    rw [specification] at h
    simp only [h, write_eq_writeOf]
  have herrors : p.errorWrites x = writeOf (p.archive.errorsPath, .list (x.errors.toList.map ErrorGroup.toJson)) ::
      (x.errorResponse.map fun m => (p.archive.errorResponsePath, m.toJson)).toList.map writeOf := by
    unfold Plan.errorWrites Archive.writeErrors Archive.writeErrorResponse
    cases x.errorResponse <;> simp only [write_eq_writeOf, Option.map_some, Option.map_none, Option.toList_some,
      Option.toList_none, List.map_cons, List.map_nil]
  simp only [stages, writesOf, List.flatMap_cons, List.flatMap_nil, hopen, endpointWrites, modelWrites, herrors,
    collectionWrites, Archive.writeEndpoints, Archive.writeModel, write_eq_writeOf, laterDocuments, List.map_append,
    List.map_cons, List.map_map, Function.comp_def, List.append_assoc, List.cons_append, List.nil_append]

/-- The disks that a run passes that completes every stage: cleared, with all documents but the bundle, and
with the bundle. -/
structure Course (p : Plan) (x : Extraction) (document : OpenApi.Document) (d d₁ d₂ d' : Disk) : Prop where
  specification : p.specification x = .ok document
  clear : p.archive.clear d = (.ok (), d₁)
  documents : WritesAll (p.documents x document) d₁ d₂
  bundle : d₂.writeDocument p.archive.bundlePath (p.archive.bundle p.config.service d₂).toJson = (.ok (), d')

/-- A run can complete every stage. -/
def Completes (p : Plan) (x : Extraction) (d d' : Disk) : Prop :=
  ∃ document d₁ d₂, p.Course x document d d₁ d₂ d'

theorem run_eq (p : Plan) {source : Facts.Source} (h : Extraction.ofSource source p.config = .ok x) (d : Disk) :
    p.run source d = (.ok (runStages (p.stages x) (Report.ofExtraction x, d)).1,
      (runStages (p.stages x) (Report.ofExtraction x, d)).2) := by
  simp only [run, h]
  rfl

theorem writeService_ok_iff {path : String} : p.writeService d = (.ok path, d') ↔
    path = p.serviceDocument.1 ∧ ∃ d₁, p.archive.clear d = (.ok (), d₁) ∧
      d₁.writeDocument p.serviceDocument.1 p.serviceDocument.2 = (.ok (), d') := by
  unfold writeService
  cases hc : p.archive.clear d with
  | mk outcome d₁ =>
    cases outcome with
    | error fault => simp
    | ok _ =>
      have hwrite : p.archive.writeService p.config.service = writeOf p.serviceDocument := write_eq_writeOf _ _
      simp only [hwrite, writeOf_eq_ok_iff, Prod.mk.injEq, true_and, exists_eq_left']

theorem exists_specification (h : Report.faultsOf (writeAll (writesOf (p.stages x)) d).1 = []) :
    ∃ document, p.specification x = .ok document := by
  cases hs : p.specification x with
  | ok document => exact ⟨document, rfl⟩
  | error fault =>
    have hm : p.writeOpenApi x ∈ writesOf (p.stages x) := by
      simp [writesOf, stages]
    refine absurd h (faultsOf_of_mem hm (fun d => ⟨fault, ?_⟩) d)
    unfold Plan.writeOpenApi
    rw [specification] at hs
    rw [hs]

theorem writeBundle_eq (p : Plan) (d : Disk) : p.archive.writeBundle p.config.service d =
    writeOf (p.archive.bundlePath, (p.archive.bundle p.config.service d).toJson) d := by
  rw [Archive.writeBundle, write_eq_writeOf]

theorem completes_of_faultsOf (h : Report.faultsOf (writeAll (writesOf (p.stages x)) d).1 = []) :
    Completes p x d (writeAll (writesOf (p.stages x)) d).2 := by
  obtain ⟨document, hdocument⟩ := exists_specification h
  rw [writesOf_stages hdocument] at h ⊢
  simp only [writeAll, writeAll_append, writeBundle_eq] at h ⊢
  obtain ⟨⟨path, hservice⟩, h⟩ := faultsOf_cons.1 h
  rw [faultsOf_append, List.append_eq_nil_iff] at h
  obtain ⟨hlater, hbundle⟩ := h
  obtain ⟨⟨path', hbundle⟩, -⟩ := faultsOf_cons.1 hbundle
  obtain ⟨-, d₁, hclear, hw⟩ := writeService_ok_iff.1 (Prod.ext hservice rfl)
  exact ⟨document, d₁, _, hdocument, hclear, .cons hw (writesAll_of_faultsOf hlater),
    (writeOf_eq_ok_iff.1 (Prod.ext hbundle rfl)).2⟩

theorem writeAll_of_completes (h : Completes p x d d') : ∃ document, p.specification x = .ok document ∧
    writeAll (writesOf (p.stages x)) d = ((p.documents x document).map (fun doc => .ok doc.1) ++ [.ok p.archive.bundlePath], d') := by
  obtain ⟨document, d₁, d₂, hdocument, hclear, hdocs, hbundle⟩ := h
  refine ⟨document, hdocument, ?_⟩
  cases hdocs with
  | cons hservice hlater =>
    have hfirst := writeService_ok_iff.2 ⟨rfl, d₁, hclear, hservice⟩
    have hlast : writeOf (p.archive.bundlePath, (p.archive.bundle p.config.service d₂).toJson) d₂ =
        (.ok p.archive.bundlePath, d') := writeOf_eq_ok_iff.2 ⟨rfl, hbundle⟩
    simp only [writesOf_stages hdocument, writeAll, writeAll_append, hfirst, writeAll_of_writesAll hlater, writeBundle_eq,
      hlast, documents, List.map_cons, List.cons_append]

variable {source : Facts.Source} {d' e' : Disk}

theorem completes_of_run (h : p.run source d = (.ok report, d')) (hs : report.isSuccess = true) :
    ∃ x, Extraction.ofSource source p.config = .ok x ∧ Completes p x d d' := by
  cases hx : Extraction.ofSource source p.config with
  | error fault =>
    simp only [run, hx] at h
    cases h
  | ok x =>
    rw [run_eq p hx] at h
    obtain ⟨hreport, hdisk⟩ := Prod.mk.inj h
    rw [← Except.ok.inj hreport, Report.isSuccess, List.isEmpty_iff, failures_runStages] at hs
    rw [runStages_snd] at hdisk
    exact ⟨x, rfl, hdisk ▸ completes_of_faultsOf hs.2⟩

/-- All runs that complete every stage report the same. -/
theorem run_of_completes (hx : Extraction.ofSource source p.config = .ok x) (h : p.run source d = (.ok report, d'))
    (hd : Completes p x d d') (he : Completes p x e e') : p.run source e = (.ok report, e') := by
  obtain ⟨document, hdocument, hwd⟩ := writeAll_of_completes hd
  obtain ⟨document', hdocument', hwe⟩ := writeAll_of_completes he
  obtain rfl := Except.ok.inj (hdocument.symm.trans hdocument')
  rw [run_eq p hx] at h ⊢
  rw [runStages_snd, hwe, ← (Prod.mk.inj h).1, runStages_congr (by rw [hwd, hwe])]

/-! ## Where documents stand -/

theorem documentPath_of_mem {document : OpenApi.Document} {doc : String × Json} (h : doc ∈ p.documents x document) :
    p.archive.DocumentPath doc.1 := by
  simp only [documents, laterDocuments, serviceDocument, List.mem_cons, List.mem_append, List.mem_map,
    Option.mem_toList, Option.map_eq_some_iff] at h
  rcases h with rfl | ⟨⟨handler, ds⟩, -, rfl⟩ | ⟨⟨classPath, m⟩, -, rfl⟩ | rfl | ⟨m, -, rfl⟩ | rfl | rfl | ⟨e, -, rfl⟩
  all_goals dsimp only
  · exact Archive.documentPath_child _ _
  · exact Archive.documentPath_grandchild _ _ _
  · exact Archive.documentPath_grandchild _ _ _
  · exact Archive.documentPath_grandchild _ "error" "errors"
  · exact Archive.documentPath_grandchild _ "error" "error-response"
  · exact Archive.documentPath_child _ "openapi"
  · exact Archive.documentPath_grandchild _ "postman" "collection"
  · exact Archive.documentPath_environment _ _

theorem documentPath_bundle (p : Plan) : p.archive.DocumentPath p.archive.bundlePath :=
  Archive.documentPath_child _ "spec-bundle"

theorem errors_mem_documents (p : Plan) (x : Extraction) (document : OpenApi.Document) :
    ∃ v, (p.archive.errorsPath, v) ∈ p.documents x document :=
  ⟨.list (x.errors.toList.map ErrorGroup.toJson), by simp [documents, laterDocuments]⟩

theorem errorResponse_mem_documents (p : Plan) {x : Extraction} (h : x.errorResponse.isSome = true)
    (document : OpenApi.Document) : ∃ v, (p.archive.errorResponsePath, v) ∈ p.documents x document := by
  obtain ⟨m, hm⟩ := Option.isSome_iff_exists.1 h
  exact ⟨m.toJson, by simp [documents, laterDocuments, hm]⟩

/-! ## A small service -/

/-- A service of which only the id is known, in the folder `out`. -/
def small : Plan :=
  ⟨.ofServiceId "svc", ⟨"out"⟩, none⟩

/-- A source of nothing but the type of error responses, which has no members. -/
def errorsAs (path : Option String) : Facts.Source :=
  .ofDocument ⟨[], .ofList (path.toList.map fun path => (path, ⟨path, .object, "", none, [], []⟩)), [], path⟩

/-- A run without failed stages, from what it reports. -/
theorem exists_report (h : (p.run source d).1.toOption.map Report.isSuccess = some true) :
    ∃ report, p.run source d = (.ok report, (p.run source d).2) ∧ report.isSuccess = true := by
  obtain ⟨report, hr, hs⟩ := Option.map_eq_some_iff.1 h
  exact ⟨report, Prod.ext (Outcome.toOption_eq_some_iff.1 hr) rfl, hs⟩

end Plan

end ApiDocs.Generation
