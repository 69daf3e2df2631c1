import ApiDocs.Proofs.Disk.Frame
import ApiDocs.Proofs.Generation.Run
/-!
# What becomes of each document

A run tries to write each of its documents once, in order (`Tries`). One that cannot be rendered or written changes no
text and holds up no other, and the report accounts for every one of them (`Plan.run_accounts`): a stage is complete
exactly if none of its documents failed. What is written does not depend on what fails, but for the service, which waits
for the archive to be cleared, and the bundle, which is put together from what is there.
-/
namespace ApiDocs.Generation

open Disk

variable {d d' d₁ e e' : Disk} {p : Plan} {x : Extraction} {r : Report} {stage : Stage} {q : Place}

/-- All stages, in order. -/
def Stage.all : List Stage :=
  [.service, .endpoints, .models, .errors, .openApi, .collection, .bundle]

/-- A document of a run, with its content unless that cannot be had. -/
structure Planned where
  stage : Stage
  path : String
  content : Outcome Json

/-- What became of a document. -/
structure Attempt where
  document : Planned
  outcome : Outcome Unit

def Planned.write (doc : Planned) : Write := fun d =>
  match doc.content with
  | .ok v => Archive.write doc.path v d
  | .error fault => (.error fault, d)

namespace Attempt

/-- What the write of the document answers. -/
def answer (a : Attempt) : Outcome String :=
  a.outcome.map fun _ => a.document.path

def path? (a : Attempt) : Option String :=
  a.answer.toOption

/-- What the report says of a document that failed. -/
def failure? (a : Attempt) : Option (Stage × String) :=
  match a.outcome with
  | .ok () => none
  | .error fault => some (a.document.stage, fault.message)

/-- Where the document stands. -/
def place (a : Attempt) (home : Place) : Place :=
  placeAt home a.document.path

end Attempt

variable {a : Attempt} {attempts before after : List Attempt}

/-- Documents are tried one after the other. -/
inductive Tries : List Attempt → Disk → Disk → Prop
  | nil {d : Disk} : Tries [] d d
  | written {doc : Planned} {v : Json} {rest : List Attempt} {d d₁ d' : Disk} : doc.content = .ok v →
    d.writeDocument doc.path v = (.ok (), d₁) → Tries rest d₁ d' → Tries (⟨doc, .ok ()⟩ :: rest) d d'
  | unwritten {doc : Planned} {v : Json} {fault : Fault} {rest : List Attempt} {d d₁ d' : Disk} : doc.content = .ok v →
    d.writeDocument doc.path v = (.error fault, d₁) → Tries rest d₁ d' → Tries (⟨doc, .error fault⟩ :: rest) d d'
  | unrendered {doc : Planned} {fault : Fault} {rest : List Attempt} {d d' : Disk} : doc.content = .error fault →
    Tries rest d d' → Tries (⟨doc, .error fault⟩ :: rest) d d'

/-! ## Trying -/

theorem Tries.append (h : Tries before d d₁) (h' : Tries after d₁ d') : Tries (before ++ after) d d' := by
  induction h with
  | nil => exact h'
  | written hv hw _ ih => exact .written hv hw (ih h')
  | unwritten hv hw _ ih => exact .unwritten hv hw (ih h')
  | unrendered hv _ ih => exact .unrendered hv (ih h')

theorem exists_try (doc : Planned) (d : Disk) :
    ∃ (a : Attempt) (d' : Disk), a.document = doc ∧ Tries [a] d d' ∧ doc.write d = (a.answer, d') := by
  cases hv : doc.content with
  | error fault =>
    exact ⟨⟨doc, .error fault⟩, d, rfl, .unrendered hv .nil, by simp [Planned.write, hv, Attempt.answer, Except.map]⟩
  | ok v =>
    rcases hw : d.writeDocument doc.path v with ⟨fault | _, d'⟩
    · refine ⟨⟨doc, .error fault⟩, d', rfl, .unwritten hv hw .nil, ?_⟩
      simp [Planned.write, hv, Archive.write, hw, Attempt.answer, Except.map]
    · refine ⟨⟨doc, .ok ()⟩, d', rfl, .written hv hw .nil, ?_⟩
      simp [Planned.write, hv, Archive.write, hw, Attempt.answer, Except.map]

theorem exists_tries (docs : List Planned) (d : Disk) : ∃ (attempts : List Attempt) (d' : Disk),
    attempts.map Attempt.document = docs ∧ Tries attempts d d' ∧
      writeAll (docs.map Planned.write) d = (attempts.map Attempt.answer, d') := by
  induction docs generalizing d with
  | nil => exact ⟨[], d, rfl, .nil, rfl⟩
  | cons doc docs ih =>
    obtain ⟨a, d₁, rfl, htry, hwrite⟩ := exists_try doc d
    obtain ⟨attempts, d', rfl, htries, hrest⟩ := ih d₁
    refine ⟨a :: attempts, d', rfl, htry.append htries, ?_⟩
    simp only [List.map_cons, writeAll, hwrite, hrest]

/-! ## What is on the disk -/

/-- One document changes no text but its own, and that only if it is written. -/
theorem Tries.frame_cons (hd : IsDocument a.document.path) (h : Tries (a :: attempts) d d') :
    ∃ d₁, Tries attempts d₁ d' ∧ Frame (fun q => q = a.place d.home ∧ a.outcome = .ok ()) d d₁ := by
  cases h with
  | written hv hw hrest => exact ⟨_, hrest, (frame_writeDocument hd hw).mono fun q hq => ⟨hq, rfl⟩⟩
  | unwritten hv hw hrest => exact ⟨_, hrest, (grown_of_error hd hw).frame⟩
  | unrendered hv hrest => exact ⟨_, hrest, .refl _ _⟩

/-- Documents that are tried change no text but those of the ones that are written. -/
theorem Tries.frame (hd : ∀ a ∈ attempts, IsDocument a.document.path) (h : Tries attempts d d') :
    Frame (fun q => ∃ a ∈ attempts, q = a.place d.home ∧ a.outcome = .ok ()) d d' := by
  induction attempts generalizing d with
  | nil =>
    cases h
    exact .refl _ _
  | cons a attempts ih =>
    rw [List.forall_mem_cons] at hd
    obtain ⟨d₁, hrest, hfirst⟩ := h.frame_cons hd.1
    refine (hfirst.mono fun q hq => ⟨a, List.mem_cons_self, hq⟩).trans ((ih hd.2 hrest).mono ?_)
    rintro q ⟨b, hb, hq⟩
    exact ⟨b, List.mem_cons_of_mem a hb, hfirst.home ▸ hq⟩

/-- A document that is written stands at its place, if none is written there later. -/
theorem Tries.text? (hd : ∀ b ∈ before ++ a :: after, IsDocument b.document.path) (h : Tries (before ++ a :: after) d d')
    (hok : a.outcome = .ok ()) (hlast : ∀ b ∈ after, b.outcome = .ok () → b.place d.home ≠ a.place d.home) :
    ∃ v, a.document.content = .ok v ∧ d'.text? (a.place d.home) = some (v.pretty ++ "\n") := by
  induction before generalizing d with
  | cons b before ih =>
    rw [List.cons_append, List.forall_mem_cons] at hd
    obtain ⟨d₁, hrest, hfirst⟩ := h.frame_cons hd.1
    rw [← hfirst.home] at hlast ⊢
    exact ih hd.2 hrest hlast
  | nil =>
    rw [List.nil_append, List.forall_mem_cons] at hd
    cases h with
    | unwritten | unrendered => cases hok
    | @written doc v _ _ d₁ _ hv hw hrest =>
      have hwritten := written_of_isDocument hd.1 hw
      refine ⟨v, hv, ?_⟩
      rcases (hrest.frame hd.2).text? (placeAt d.home doc.path) with hsame | ⟨b, hb, hq, hbok⟩
      · exact hsame.trans hwritten.text?_place
      · rw [hwritten.home] at hq
        exact absurd hq.symm (hlast b hb hbok)

/-! ## What is reported -/

theorem pathsOf_answers (attempts : List Attempt) :
    Report.pathsOf (attempts.map Attempt.answer) = attempts.filterMap Attempt.path? := by
  induction attempts with
  | nil => rfl
  | cons a attempts ih =>
    rw [List.map_cons, List.filterMap_cons, Attempt.path?, ← ih]
    cases a.answer <;> rfl

theorem faultsOf_answers (hs : ∀ a ∈ attempts, a.document.stage = stage) :
    ((Report.faultsOf (attempts.map Attempt.answer)).map fun fault => (stage, fault.message)) =
      attempts.filterMap Attempt.failure? := by
  induction attempts with
  | nil => rfl
  | cons a attempts ih =>
    rw [List.forall_mem_cons] at hs
    rw [List.map_cons, List.filterMap_cons, Attempt.failure?, Attempt.answer, hs.1, ← ih hs.2]
    cases a.outcome <;> rfl

/-- The report of some attempts after others: which stages had no failures, what failed, and what was written. -/
def Report.tally (r : Report) (groups : List (Stage × List Attempt)) : Report :=
  { r with
    completed := r.completed ++ (groups.filter fun g => (g.2.filterMap Attempt.failure?).isEmpty).map Prod.fst
    failures := r.failures ++ (groups.flatMap Prod.snd).filterMap Attempt.failure?
    written := r.written ++ (groups.flatMap Prod.snd).filterMap Attempt.path? }

theorem record_answers (r : Report) (hs : ∀ a ∈ attempts, a.document.stage = stage) :
    r.record stage (attempts.map Attempt.answer) = r.tally [(stage, attempts)] := by
  have hfaults := faultsOf_answers hs
  have hempty : (Report.faultsOf (attempts.map Attempt.answer)).isEmpty = (attempts.filterMap Attempt.failure?).isEmpty := by
    rw [← hfaults, List.isEmpty_map]
  rw [Report.record, Report.tally, pathsOf_answers, hfaults, hempty]
  cases h : (attempts.filterMap Attempt.failure?).isEmpty <;> simp [h]

/-- The writes of stages come out as the attempts of these stages. -/
inductive Goes : List (Stage × List Write) → List (Stage × List Attempt) → Disk → Disk → Prop
  | nil {d : Disk} : Goes [] [] d d
  | cons {stage : Stage} {writes : List Write} {attempts : List Attempt} {stages : List (Stage × List Write)}
      {groups : List (Stage × List Attempt)} {d d₁ d' : Disk} :
    writeAll writes d = (attempts.map Attempt.answer, d₁) → Goes stages groups d₁ d' →
    Goes ((stage, writes) :: stages) ((stage, attempts) :: groups) d d'

variable {stages stages' : List (Stage × List Write)} {groups groups' : List (Stage × List Attempt)}

theorem Goes.append (h : Goes stages groups d d₁) (h' : Goes stages' groups' d₁ d') :
    Goes (stages ++ stages') (groups ++ groups') d d' := by
  induction h with
  | nil => exact h'
  | cons hw _ ih => exact .cons hw (ih h')

/-- The stages of a run are reported as the attempts of each. -/
theorem Goes.runStages (h : Goes stages groups d d') (hs : ∀ g ∈ groups, ∀ a ∈ g.2, a.document.stage = g.1)
    (r : Report) : runStages stages (r, d) = (r.tally groups, d') := by
  induction h generalizing r with
  | nil => simp [Generation.runStages, Report.tally]
  | @cons stage writes attempts stages groups d d₁ d' hw _ ih =>
    rw [List.forall_mem_cons] at hs
    rw [runStages_cons, hw, record_answers r hs.1, ih hs.2]
    cases hempty : (attempts.filterMap Attempt.failure?).isEmpty <;> simp [Report.tally, hempty]

theorem Attempt.fst_of_failure? {f : Stage × String} (h : a.failure? = some f) : f.1 = a.document.stage := by
  unfold Attempt.failure? at h
  split at h
  · cases h
  · rw [← Option.some.inj h]

/-- A stage has no failures of its own exactly if none of the failures is of that stage. -/
theorem filter_completed (hn : (groups.map Prod.fst).Nodup) (hs : ∀ g ∈ groups, ∀ a ∈ g.2, a.document.stage = g.1) :
    (groups.filter fun g => (g.2.filterMap Attempt.failure?).isEmpty).map Prod.fst =
      (groups.map Prod.fst).filter fun stage =>
        ((groups.flatMap Prod.snd).filterMap Attempt.failure?).all fun f => f.1 != stage := by
  rw [List.filter_map]
  refine congrArg _ (List.filter_congr fun g hg => ?_)
  rw [Bool.eq_iff_iff]
  simp only [List.isEmpty_iff, List.filterMap_eq_nil_iff, Function.comp_apply, List.all_eq_true,
    List.mem_filterMap, List.mem_flatMap, bne_iff_ne]
  constructor
  · rintro hnone f ⟨a, ⟨g', hg', ha⟩, hf⟩ hstage
    -- Stages differ, so a failure of this stage comes from this group.
    have hsame : g'.1 = g.1 := by rw [← hs g' hg' a ha, ← Attempt.fst_of_failure? hf, hstage]
    obtain rfl := List.inj_on_of_nodup_map hn hg' hg hsame
    rw [hnone a ha] at hf
    cases hf
  · intro hnone a ha
    refine Option.eq_none_iff_forall_ne_some.2 fun f hf => ?_
    exact hnone f ⟨a, ⟨g, hg, ha⟩, hf⟩ ((Attempt.fst_of_failure? hf).trans (hs g hg a ha))

/-! ## The documents of a run -/

namespace Plan

/-- The document of the service, which waits for the archive to be cleared. -/
def plannedService (p : Plan) (cleared : Outcome Unit) : Planned :=
  ⟨.service, p.archive.servicePath p.config.service.id, cleared.map fun _ => p.config.service.toJson⟩

/-- The bundle of what is there. -/
def plannedBundle (p : Plan) (d : Disk) : Planned :=
  ⟨.bundle, p.archive.bundlePath, .ok (p.archive.bundle p.config.service d).toJson⟩

def plannedErrors (p : Plan) (x : Extraction) : List Planned :=
  ⟨.errors, p.archive.errorsPath, .ok (.list (x.errors.toList.map ErrorGroup.toJson))⟩ ::
    (x.errorResponse.map fun m => ⟨.errors, p.archive.errorResponsePath, .ok m.toJson⟩).toList

/-- The specification, which may be impossible to render. -/
def plannedOpenApi (p : Plan) (x : Extraction) : Planned :=
  ⟨.openApi, p.archive.openApiPath, (p.specification x).map OpenApi.Document.toJson⟩

/-- The stages between the service and the bundle, with their documents. -/
def plannedStages (p : Plan) (x : Extraction) : List (Stage × List Planned) :=
  [(.endpoints, x.endpoints.groups.entries.map fun (handler, ds) =>
      ⟨.endpoints, p.archive.endpointsPath handler, .ok (.list (ds.map Definition.toJson))⟩),
   (.models, x.registry.models.entries.map fun (classPath, m) =>
      ⟨.models, p.archive.modelPath classPath, .ok m.toJson⟩),
   (.errors, p.plannedErrors x),
   (.openApi, [p.plannedOpenApi x]),
   (.collection, ⟨.collection, p.archive.collectionPath, .ok (Collection.render
        ⟨p.config.service, p.config.conventions, x.registry.models⟩ x.endpoints.toList p.previous).toJson⟩ ::
      (Collection.environments p.config.service).map fun e =>
        ⟨.collection, p.archive.environmentPath e.name, .ok e.toJson⟩)]

/-- The documents between the service and the bundle. -/
def planned (p : Plan) (x : Extraction) : List Planned :=
  (p.plannedStages x).flatMap Prod.snd

theorem write_planned (stage : Stage) (path : String) (v : Json) :
    Planned.write ⟨stage, path, .ok v⟩ = Archive.write path v :=
  rfl

theorem errorWrites_eq (p : Plan) (x : Extraction) : p.errorWrites x = (p.plannedErrors x).map Planned.write := by
  unfold errorWrites plannedErrors
  cases x.errorResponse <;> rfl

theorem writeOpenApi_eq (p : Plan) (x : Extraction) : p.writeOpenApi x = (p.plannedOpenApi x).write := by
  funext d
  unfold writeOpenApi Planned.write plannedOpenApi specification
  cases OpenApi.render ⟨p.config.service, p.config.conventions, x.registry.models⟩ x.endpoints.toList <;> rfl

theorem stages_eq (p : Plan) (x : Extraction) : p.stages x =
    (.service, [p.writeService]) :: ((p.plannedStages x).map fun g => (g.1, g.2.map Planned.write)) ++
      [(.bundle, [p.archive.writeBundle p.config.service])] := by
  simp [stages, plannedStages, errorWrites_eq, writeOpenApi_eq, endpointWrites, modelWrites, collectionWrites,
    write_planned, Function.comp_def, Archive.writeEndpoints, Archive.writeModel]

theorem stage_of_mem_plannedStages {g : Stage × List Planned} (hg : g ∈ p.plannedStages x) :
    ∀ doc ∈ g.2, doc.stage = g.1 := by
  simp only [plannedStages, List.mem_cons, List.not_mem_nil, or_false] at hg
  rcases hg with rfl | rfl | rfl | rfl | rfl
  all_goals
    intro doc hdoc
    simp only [plannedErrors, List.mem_map, List.mem_cons, Option.mem_toList, Option.map_eq_some_iff, List.not_mem_nil,
      or_false] at hdoc
  · obtain ⟨_, -, rfl⟩ := hdoc
    rfl
  · obtain ⟨_, -, rfl⟩ := hdoc
    rfl
  · obtain rfl | ⟨_, -, rfl⟩ := hdoc <;> rfl
  · obtain rfl := hdoc
    rfl
  · obtain rfl | ⟨_, -, rfl⟩ := hdoc <;> rfl

theorem isDocument_of_mem_planned {doc : Planned} (h : doc ∈ p.planned x) : IsDocument doc.path := by
  simp only [planned, plannedStages, plannedErrors, List.flatMap_cons, List.flatMap_nil, List.mem_append, List.mem_cons,
    List.mem_map, Option.mem_toList, Option.map_eq_some_iff, List.not_mem_nil, or_false] at h
  rcases h with ⟨_, -, rfl⟩ | ⟨_, -, rfl⟩ | (rfl | ⟨_, -, rfl⟩) | rfl | rfl | ⟨_, -, rfl⟩
  all_goals dsimp only [plannedOpenApi]
  · exact (Archive.documentPath_grandchild _ _ _).isDocument
  · exact (Archive.documentPath_grandchild _ _ _).isDocument
  · exact (Archive.documentPath_grandchild _ "error" "errors").isDocument
  · exact (Archive.documentPath_grandchild _ "error" "error-response").isDocument
  · exact (Archive.documentPath_child _ "openapi").isDocument
  · exact (Archive.documentPath_grandchild _ "postman" "collection").isDocument
  · exact (Archive.documentPath_environment _ _).isDocument

theorem writeService_eq (p : Plan) {cleared : Outcome Unit} (hc : p.archive.clear d = (cleared, d₁)) :
    p.writeService d = (p.plannedService cleared).write d₁ := by
  unfold writeService
  rw [hc]
  cases cleared <;> rfl

theorem writeBundle_eq_write (p : Plan) (d : Disk) :
    p.archive.writeBundle p.config.service d = (p.plannedBundle d).write d :=
  rfl

/-- The stages between the service and the bundle go through with attempts at their documents. -/
theorem exists_goes (stages : List (Stage × List Planned)) (hs : ∀ g ∈ stages, ∀ doc ∈ g.2, doc.stage = g.1)
    (d : Disk) : ∃ (groups : List (Stage × List Attempt)) (d' : Disk),
      groups.map (fun g => (g.1, g.2.map Attempt.document)) = stages ∧
      Goes (stages.map fun g => (g.1, g.2.map Planned.write)) groups d d' ∧
      Tries (groups.flatMap Prod.snd) d d' ∧ ∀ g ∈ groups, ∀ a ∈ g.2, a.document.stage = g.1 := by
  induction stages generalizing d with
  | nil => exact ⟨[], d, rfl, .nil, .nil, by simp⟩
  | cons g stages ih =>
    rw [List.forall_mem_cons] at hs
    obtain ⟨attempts, d₁, hdocs, htries, hwrites⟩ := exists_tries g.2 d
    obtain ⟨groups, d', rfl, hgoes, hrest, hgroups⟩ := ih hs.2 d₁
    refine ⟨(g.1, attempts) :: groups, d', by simp [hdocs], .cons hwrites hgoes, htries.append hrest, ?_⟩
    refine List.forall_mem_cons.2 ⟨fun a ha => hs.1 _ ?_, hgroups⟩
    exact hdocs ▸ List.mem_map_of_mem ha

end Plan

/-! ## The account of a run -/

/-- The attempts of a run: at the service, at the documents that are planned, and at the bundle. -/
structure Attempts where
  service : Attempt
  planned : List Attempt
  bundle : Attempt

namespace Attempts

def all (t : Attempts) : List Attempt :=
  t.service :: t.planned ++ [t.bundle]

/-- How a run goes: the archive is cleared, then the service and all planned documents are tried, and then the bundle
of what is there. -/
structure IsOf (p : Plan) (x : Extraction) (d d' : Disk) (t : Attempts) : Prop where
  planned : t.planned.map Attempt.document = p.planned x
  tried : ∃ cleared d₀ d₁, p.archive.clear d = (cleared, d₀) ∧ t.service.document = p.plannedService cleared ∧
    Tries (t.service :: t.planned) d₀ d₁ ∧ t.bundle.document = p.plannedBundle d₁ ∧ Tries [t.bundle] d₁ d'

end Attempts

/-- A report tells of each attempt whether it failed or was written, and of each stage whether it had no failures. -/
structure Report.Accounts (report : Report) (t : Attempts) : Prop where
  completed : report.completed = Stage.all.filter fun stage => report.failures.all fun f => f.1 != stage
  failures : report.failures = t.all.filterMap Attempt.failure?
  written : report.written = t.all.filterMap Attempt.path?

variable {source : Facts.Source} {t t' : Attempts} {report : Report}

theorem Stage.mem_all (stage : Stage) : stage ∈ Stage.all := by
  cases stage <;> decide

theorem Report.Accounts.isSuccess_iff (h : report.Accounts t) : report.isSuccess = true ↔ report.completed = Stage.all := by
  rw [Report.isSuccess, List.isEmpty_iff, h.completed, List.filter_eq_self]
  constructor
  · intro hnone stage _
    simp [hnone]
  · intro hall
    refine List.eq_nil_iff_forall_not_mem.2 fun f hf => ?_
    simpa using List.all_eq_true.1 (hall f.1 (Stage.mem_all f.1)) f hf

theorem Report.Accounts.outcome_of_isSuccess (h : report.Accounts t) (hs : report.isSuccess = true) :
    ∀ a ∈ t.all, a.outcome = .ok () := by
  rw [Report.isSuccess, List.isEmpty_iff, h.failures, List.filterMap_eq_nil_iff] at hs
  intro a ha
  have hnone := hs a ha
  unfold Attempt.failure? at hnone
  split at hnone
  case h_1 hok => exact hok
  case h_2 => cases hnone

/-- The attempts of a run by stage. -/
def byStage (service : Attempt) (groups : List (Stage × List Attempt)) (bundle : Attempt) : List (Stage × List Attempt) :=
  (.service, [service]) :: groups ++ [(.bundle, [bundle])]

/-- Every run with an extraction goes so, and is reported so. -/
theorem Plan.exists_attempts (hx : Extraction.ofSource source p.config = .ok x) (d : Disk) :
    ∃ (t : Attempts) (report : Report) (d' : Disk),
      p.run source d = (.ok report, d') ∧ t.IsOf p x d d' ∧ report.Accounts t := by
  rcases hc : p.archive.clear d with ⟨cleared, d₀⟩
  obtain ⟨service, s, hservice, hfirst, hws⟩ := exists_try (p.plannedService cleared) d₀
  obtain ⟨groups, d₁, hgroups, hgoes, hmiddle, hstages⟩ :=
    Plan.exists_goes (p.plannedStages x) (fun g hg => Plan.stage_of_mem_plannedStages hg) s
  obtain ⟨bundle, d', hbundle, hlast, hwb⟩ := exists_try (p.plannedBundle d₁) d₁
  have hrun : Goes (p.stages x) (byStage service groups bundle) d d' := by
    rw [Plan.stages_eq]
    refine Goes.append (.cons ?_ hgoes) (.cons ?_ .nil)
    · simp [writeAll, Plan.writeService_eq p hc, hws]
    · simp [writeAll, Plan.writeBundle_eq_write, hwb]
  have hall : ∀ g ∈ byStage service groups bundle, ∀ a ∈ g.2, a.document.stage = g.1 := by
    simp only [byStage, List.cons_append, List.forall_mem_cons, List.forall_mem_append]
    exact ⟨by simp [hservice, Plan.plannedService], hstages, by simp [hbundle, Plan.plannedBundle]⟩
  have hnames : (byStage service groups bundle).map Prod.fst = Stage.all := by
    have hfst : groups.map Prod.fst = (p.plannedStages x).map Prod.fst := by
      rw [← hgroups, List.map_map]
      rfl
    rw [byStage, List.map_append, List.map_cons, hfst]
    rfl
  have hattempts : (byStage service groups bundle).flatMap Prod.snd =
      (Attempts.mk service (groups.flatMap Prod.snd) bundle).all := by
    simp [byStage, Attempts.all]
  refine ⟨⟨service, groups.flatMap Prod.snd, bundle⟩, (Report.ofExtraction x).tally (byStage service groups bundle), d',
    ?_, ⟨?_, cleared, d₀, d₁, hc, hservice, ?_, hbundle, hlast⟩, ?_⟩
  · rw [Plan.run_eq p hx, hrun.runStages hall]
  · rw [Plan.planned, ← hgroups]
    simp [List.map_flatMap, List.flatMap_map]
  · exact hfirst.append hmiddle
  · refine ⟨?_, ?_, ?_⟩
    · rw [Report.tally]
      simp only [filter_completed (hnames ▸ by decide) hall, hnames]
      rfl
    · rw [Report.tally, hattempts]
      rfl
    · rw [Report.tally, hattempts]
      rfl

namespace Attempts

theorem IsOf.isDocument (h : t.IsOf p x d d') : ∀ a ∈ t.all, IsDocument a.document.path := by
  obtain ⟨hplanned, cleared, d₀, d₁, -, hservice, -, hbundle, -⟩ := h
  simp only [all, List.cons_append, List.forall_mem_cons, List.forall_mem_append]
  refine ⟨?_, fun a ha => ?_, ?_⟩
  · rw [hservice]
    exact (Archive.documentPath_child _ _).isDocument
  · exact Plan.isDocument_of_mem_planned (hplanned ▸ List.mem_map_of_mem ha)
  · rw [hbundle]
    exact ⟨(Plan.documentPath_bundle p).isDocument, by simp⟩

theorem IsOf.tries (h : t.IsOf p x d d') : ∃ d₀, d₀.home = d.home ∧ Tries t.all d₀ d' := by
  obtain ⟨-, cleared, d₀, d₁, hclear, -, htries, -, hlast⟩ := h
  exact ⟨d₀, Archive.home_clearFolders hclear, htries.append hlast⟩

theorem IsOf.path_bundle (h : t.IsOf p x d d') : t.bundle.document.path = p.archive.bundlePath := by
  obtain ⟨-, cleared, d₀, d₁, -, -, -, hbundle, -⟩ := h
  rw [hbundle]
  rfl

/-- A planned document that is written stands at its place in the end, if none is tried there later. -/
theorem IsOf.text? (h : t.IsOf p x d d') (ht : t.planned = before ++ a :: after) (hok : a.outcome = .ok ())
    (hlast : ∀ b ∈ after ++ [t.bundle], b.place d.home ≠ a.place d.home) :
    ∃ v, a.document.content = .ok v ∧ d'.text? (a.place d.home) = some (v.pretty ++ "\n") := by
  obtain ⟨d₀, hhome, htries⟩ := h.tries
  have hall : t.all = (t.service :: before) ++ a :: (after ++ [t.bundle]) := by
    simp [all, ht]
  have hdocuments := h.isDocument
  rw [hall] at htries hdocuments
  rw [← hhome] at hlast ⊢
  exact htries.text? hdocuments hok fun b hb _ => hlast b hb

theorem places_eq (attempts : List Attempt) (home : Place) :
    attempts.map (·.place home) = (attempts.map Attempt.document).map fun doc => placeAt home doc.path := by
  rw [List.map_map]
  rfl

/-- So it does after every other run, if all is written there. -/
theorem IsOf.text?_of_all {v : Json} (h : t.IsOf p x d d') (h' : t'.IsOf p x e e') (hhome : e.home = d.home)
    (hall : ∀ b ∈ t'.all, b.outcome = .ok ()) (ht : t.planned = before ++ a :: after) (hv : a.document.content = .ok v)
    (hlast : ∀ b ∈ after ++ [t.bundle], b.place d.home ≠ a.place d.home) :
    e'.text? (a.place d.home) = some (v.pretty ++ "\n") := by
  -- The other run plans the same documents, so the same ones come later.
  have hsame : t'.planned.map Attempt.document = before.map Attempt.document ++
      a.document :: after.map Attempt.document := by
    rw [h'.planned, ← h.planned, ht, List.map_append, List.map_cons]
  obtain ⟨before', rest, ht', -, hrest⟩ := List.map_eq_append_iff.1 hsame
  obtain ⟨a', after', rfl, hdocument, hafter⟩ := List.map_eq_cons_iff.1 hrest
  have hplaces : (after' ++ [t'.bundle]).map (·.place e.home) = (after ++ [t.bundle]).map (·.place d.home) := by
    rw [places_eq, places_eq, List.map_append, List.map_append, hafter, hhome]
    simp [h.path_bundle, h'.path_bundle]
  have hplace : a'.place e.home = a.place d.home := by
    rw [Attempt.place, Attempt.place, hdocument, hhome]
  obtain ⟨v', hv', htext⟩ := h'.text? ht' (hall a' (by simp [all, ht'])) fun b hb => by
    have hmem : b.place e.home ∈ (after ++ [t.bundle]).map (·.place d.home) := hplaces ▸ List.mem_map_of_mem hb
    obtain ⟨c, hc, hbc⟩ := List.mem_map.1 hmem
    rw [hplace, ← hbc]
    exact hlast c hc
  rw [hdocument, hv] at hv'
  obtain rfl := Except.ok.inj hv'
  rwa [hplace] at htext

end Attempts

/-- A run fails only if its source cannot be extracted, and then the disk is as it was. Otherwise it tries the service
after the archive was cleared, then each planned document, and then the bundle. The report says of each of them either
why it failed or where it was written, and a stage is complete exactly if none of its documents failed; the run is a
success exactly if all stages are. A planned document that is written, with no other tried at its place later, has the
text that it has after every run without failures. -/
theorem Plan.run_accounts (p : Plan) (source : Facts.Source) (d : Disk) :
    match Extraction.ofSource source p.config with
    | .error fault => p.run source d = (.error fault, d)
    | .ok x => ∃ (t : Attempts) (report : Report) (d' : Disk),
        p.run source d = (.ok report, d') ∧ t.IsOf p x d d' ∧ report.Accounts t ∧
        (report.isSuccess = true ↔ report.completed = Stage.all) ∧
        ∀ before a after, t.planned = before ++ a :: after → a.outcome = .ok () →
          (∀ b ∈ after ++ [t.bundle], b.place d.home ≠ a.place d.home) →
          ∃ v, a.document.content = .ok v ∧ d'.text? (a.place d.home) = some (v.pretty ++ "\n") ∧
            ∀ e e' other, e.home = d.home → p.run source e = (.ok other, e') → other.isSuccess = true →
              e'.text? (a.place d.home) = some (v.pretty ++ "\n") := by
  cases hx : Extraction.ofSource source p.config with
  | error fault => simp only [run, hx]
  | ok x =>
    obtain ⟨t, report, d', hrun, ht, haccounts⟩ := exists_attempts hx d
    refine ⟨t, report, d', hrun, ht, haccounts, haccounts.isSuccess_iff, fun before a after hsplit hok hlast => ?_⟩
    obtain ⟨v, hv, htext⟩ := ht.text? hsplit hok hlast
    refine ⟨v, hv, htext, fun e e' other hhome hother hs => ?_⟩
    obtain ⟨t', report', e'', hrun', ht', haccounts'⟩ := exists_attempts hx e
    obtain ⟨hreport, rfl⟩ := Prod.mk.inj (hother.symm.trans hrun')
    obtain rfl := Except.ok.inj hreport
    exact ht.text?_of_all ht' hhome (haccounts'.outcome_of_isSuccess hs) hsplit hv hlast

/-- A disk on which the specification of a small plan cannot be written. -/
def withoutSpecification : Disk :=
  { Disk.empty with locked := fun q => q == ["out", "openapi.json"] }

/-- There the other stages are complete. -/
theorem Plan.run_accounts_small : ∃ (t : Attempts) (report : Report) (d' : Disk),
    small.run (errorsAs none) withoutSpecification = (.ok report, d') ∧ report.Accounts t ∧
    report.completed = [.service, .endpoints, .models, .errors, .collection, .bundle] ∧
    report.isSuccess = false := by
  have hcompleted : (small.run (errorsAs none) withoutSpecification).1.toOption.map (·.completed) =
      some [.service, .endpoints, .models, .errors, .collection, .bundle] := by
    decide +kernel
  have hrun := run_accounts small (errorsAs none) withoutSpecification
  cases hx : Extraction.ofSource (errorsAs none) small.config with
  | error fault =>
    rw [hx] at hrun
    rw [hrun] at hcompleted
    cases hcompleted
  | ok x =>
    rw [hx] at hrun
    obtain ⟨t, report, d', hreport, -, haccounts, hsuccess, -⟩ := hrun
    rw [hreport] at hcompleted
    have hstages : report.completed = _ := Option.some.inj hcompleted
    refine ⟨t, report, d', hreport, haccounts, hstages, Bool.eq_false_iff.2 fun hs => ?_⟩
    rw [hsuccess, hstages] at hs
    cases hs

end ApiDocs.Generation
