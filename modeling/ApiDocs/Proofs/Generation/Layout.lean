import ApiDocs.Proofs.Generation.Run
/-!
# Where a run writes

A run lays its documents out below the archive, some of them under names from outside (`Plan.positions`). Only the names
of environments are reduced to plain ones. So the id of a service can be that of a document with a fixed name, and a
name with slashes in it can lead out of the archive; nothing else can (`Plan.run_layout`).
-/
namespace ApiDocs

open Disk

namespace Archive

variable {a : Archive} {home : Place} {n m : String} {ns : List String}

/-- A name that does not just lead down from the folder that it is joined to. -/
def Climbs (n : String) : Prop :=
  Path.isAbsolute n = true ∨ ".." ∈ Path.pieces n

/-- A path leads to a place below that of the archive. -/
def Inside (a : Archive) (home : Place) (path : String) : Prop :=
  ∃ ns, ns ≠ [] ∧ placeAt home path = a.place home ++ ns

theorem not_climbs_of_simple (h : Simple n) : ¬ Climbs n := by
  rintro (habs | hup)
  · rw [h.isAbsolute] at habs
    cases habs
  · rw [Path.pieces_of_not_mem h.no_slash, List.mem_singleton] at hup
    exact h.proper.not_up hup.symm

theorem placeAt_join_of_not_climbs (h : ¬ Climbs n) (home : Place) (folder : String) :
    placeAt home (Path.join folder n) = placeAt home folder ++ Path.names n := by
  obtain ⟨habs, hup⟩ := not_or.1 h
  have habs : Path.isAbsolute n = false := by simpa using habs
  have hstart : start home (Path.join folder n) = start home folder := by
    rw [start, start, Path.isAbsolute_join habs]
  have hdown : ".." ∉ Path.names n := fun hm => hup (List.mem_filter.1 hm).1
  have hnamed : Path.named (Path.names n) = Path.names n := by simp [Path.names, Path.named]
  rw [placeAt, Path.names_join habs, hstart, goal_append, goal_of_down hdown, hnamed, ← placeAt]

/-- Names that do not climb lead down from the archive, piece by piece. -/
theorem placeAt_below (h : ∀ n ∈ ns, ¬ Climbs n) (a : Archive) (home : Place) :
    placeAt home (a.below ns) = a.place home ++ ns.flatMap Path.names := by
  -- By induction from the back, where the last name is joined.
  induction ns using List.reverseRecOn with
  | nil => simp [below, place]
  | append_singleton ns n ih =>
    rw [List.forall_mem_append] at h
    have hjoin : a.below (ns ++ [n]) = Path.join (a.below ns) n := by simp [below]
    rw [hjoin, placeAt_join_of_not_climbs (h.2 n (by simp)), ih h.1, List.append_assoc, List.flatMap_append,
      List.flatMap_singleton]

theorem names_json_ne_nil (n : String) : Path.names (n ++ ".json") ≠ [] := by
  obtain ⟨ps, m, hp⟩ := Path.pieces_append_json n
  simp [names_of_last hp (proper_json m).not_idle]

theorem inside_below (h : ∀ m ∈ ns, ¬ Climbs m) (n : String) (hn : n ++ ".json" ∈ ns) (home : Place) :
    a.Inside home (a.below ns) := by
  refine ⟨_, fun hnil => ?_, placeAt_below h a home⟩
  exact names_json_ne_nil n (List.flatMap_eq_nil_iff.1 hnil _ hn)

theorem placeAt_below_of_simple (h : ∀ n ∈ ns, Simple n) (a : Archive) (home : Place) :
    placeAt home (a.below ns) = a.place home ++ ns := by
  rw [placeAt_below (fun n hn => not_climbs_of_simple (h n hn)), List.append_cancel_left_eq]
  calc ns.flatMap Path.names = ns.flatMap fun n => [n] := List.flatMap_congr fun n hn => (h n hn).names
    _ = ns := List.flatMap_singleton' ns

theorem slash_not_mem_plainName (name : String) : '/' ∉ (plainName name).toList := by
  rw [plainName, String.toList_ofList]
  intro h
  obtain ⟨c, -, hc⟩ := List.mem_map.1 h
  split at hc
  case isTrue hplain =>
    subst hc
    exact absurd hplain (by decide)
  case isFalse => cases hc

theorem simple_environment (name : String) : Simple ("env-" ++ plainName name ++ ".json") :=
  simple_json (by simp [slash_not_mem_plainName])

end Archive

namespace Generation

variable {d d' : Disk} {p : Plan} {x : Extraction} {report : Report} {source : Facts.Source}

theorem pathsOf_append (os os' : List (Outcome String)) :
    Report.pathsOf (os ++ os') = Report.pathsOf os ++ Report.pathsOf os' := by
  induction os with
  | nil => rfl
  | cons o os ih => cases o <;> simp [Report.pathsOf, ih]

theorem pathsOf_map_ok (paths : List String) : Report.pathsOf (paths.map .ok) = paths := by
  induction paths with
  | nil => rfl
  | cons path paths ih => simp [Report.pathsOf, ih]

theorem written_runStages (stages : List (Stage × List Write)) (r : Report) (d : Disk) :
    (runStages stages (r, d)).1.written = r.written ++ Report.pathsOf (writeAll (writesOf stages) d).1 := by
  induction stages generalizing r d with
  | nil => simp [runStages, writesOf, writeAll, Report.pathsOf]
  | cons s stages ih =>
    obtain ⟨stage, writes⟩ := s
    rw [runStages_cons, ih, writesOf_cons, writeAll_append, pathsOf_append, Report.record, List.append_assoc]

namespace Plan

/-- The names that lead from the archive to each document of a run. -/
def positions (p : Plan) (x : Extraction) : List (List String) :=
  [p.config.service.id ++ ".json"] ::
  ((x.endpoints.groups.keys.map fun handler => ["api", handler ++ ".json"]) ++
  ((x.registry.models.keys.map fun classPath => ["model", classPath ++ ".json"]) ++
  (["error", "errors.json"] ::
  ((x.errorResponse.map fun _ => ["error", "error-response.json"]).toList ++
  (["openapi.json"] ::
  (["postman", "collection.json"] ::
  ((Collection.environments p.config.service).map fun e => ["postman", "env-" ++ Archive.plainName e.name ++ ".json"]) ++
  [["spec-bundle.json"]]))))))

/-- The id of the service is not the name of another document, and no two environments have the same plain name. -/
@[mk_iff]
structure NamesApart (p : Plan) : Prop where
  openApi : p.config.service.id ≠ "openapi"
  bundle : p.config.service.id ≠ "spec-bundle"
  environments : ((Collection.environments p.config.service).map fun e => Archive.plainName e.name).Nodup

theorem paths_documents (p : Plan) (x : Extraction) (document : OpenApi.Document) :
    (p.documents x document).map Prod.fst ++ [p.archive.bundlePath] = (p.positions x).map p.archive.below := by
  simp [documents, laterDocuments, serviceDocument, positions, Keyed.keys, Pairs.keys, Function.comp_def,
    Archive.servicePath, Archive.endpointsPath, Archive.modelPath, Archive.errorsPath, Archive.errorResponsePath,
    Archive.openApiPath, Archive.collectionPath, Archive.environmentPath, Archive.bundlePath]
  cases x.errorResponse <;> rfl

theorem written_of_run (h : p.run source d = (.ok report, d')) (hs : report.isSuccess = true) :
    ∃ x, Extraction.ofSource source p.config = .ok x ∧ report.written = (p.positions x).map p.archive.below := by
  obtain ⟨x, hx, hcompletes⟩ := completes_of_run h hs
  obtain ⟨document, -, hwrites⟩ := writeAll_of_completes hcompletes
  rw [run_eq p hx] at h
  obtain ⟨hreport, -⟩ := Prod.mk.inj h
  have houtcomes : (p.documents x document).map (fun doc => Except.ok (ε := Fault) doc.1) ++ [.ok p.archive.bundlePath] =
      ((p.positions x).map p.archive.below).map .ok := by
    rw [← paths_documents p x document, List.map_append, List.map_map]
    rfl
  refine ⟨x, hx, ?_⟩
  rw [← Except.ok.inj hreport, written_runStages, hwrites, houtcomes, pathsOf_map_ok]
  rfl

theorem json_injective (m : String) : Function.Injective fun n : String => [m, n ++ ".json"] := by
  intro n n' h
  simpa using h

theorem nodup_positions_iff (p : Plan) (x : Extraction) : (p.positions x).Nodup ↔ p.NamesApart := by
  have hhandlers := (Keyed.nodup_keys x.endpoints.groups).map (json_injective "api")
  have hmodels := (Keyed.nodup_keys x.registry.models).map (json_injective "model")
  have hresponse : (x.errorResponse.map fun _ => ["error", "error-response.json"]).toList.Nodup := by
    cases x.errorResponse <;> simp
  have henvironments : ((Collection.environments p.config.service).map fun e =>
        ["postman", "env-" ++ Archive.plainName e.name ++ ".json"]).Nodup ↔
      ((Collection.environments p.config.service).map fun e => Archive.plainName e.name).Nodup := by
    have hinj : Function.Injective fun n : String => ["postman", "env-" ++ n ++ ".json"] := by
      intro n n' h
      simpa using h
    rw [← List.nodup_map_iff hinj, List.map_map]
    rfl
  have hcollection : ∀ n : String, "env-" ++ n ++ ".json" ≠ "collection.json" := by
    intro n h
    have := congrArg (fun s : String => s.toList.head?) h
    simp at this
  have hopenApi : p.config.service.id ++ ".json" = "openapi.json" ↔ p.config.service.id = "openapi" := by
    rw [show "openapi.json" = "openapi" ++ ".json" from rfl, String.append_left_inj]
  have hbundle : p.config.service.id ++ ".json" = "spec-bundle.json" ↔ p.config.service.id = "spec-bundle" := by
    rw [show "spec-bundle.json" = "spec-bundle" ++ ".json" from rfl, String.append_left_inj]
  -- Documents in different folders differ in their first names.
  simp only [positions, List.nodup_cons, List.nodup_append, hhandlers, hmodels, hresponse, henvironments]
  simp [namesApart_iff, or_imp, forall_and, and_assoc, hcollection, hopenApi, hbundle]

/-- Where a document stands: under names that are known to be simple, or under one from outside. -/
theorem mem_positions_cases {ns : List String} (h : ns ∈ p.positions x) :
    (ns ≠ [] ∧ ∀ n ∈ ns, Simple n) ∨ ns = [p.config.service.id ++ ".json"] ∨
      (∃ handler ∈ x.endpoints.groups.keys, ns = ["api", handler ++ ".json"]) ∨
        ∃ classPath ∈ x.registry.models.keys, ns = ["model", classPath ++ ".json"] := by
  have hopenApi : Simple "openapi.json" := ⟨⟨by decide, by decide⟩, by decide⟩
  have hpostman : Simple "postman" := ⟨⟨by decide, by decide⟩, by decide⟩
  have hcollection : Simple "collection.json" := ⟨⟨by decide, by decide⟩, by decide⟩
  simp only [positions, List.mem_cons, List.mem_append, List.mem_map, Option.mem_toList, Option.map_eq_some_iff,
    List.not_mem_nil, or_false] at h
  rcases h with rfl | ⟨handler, hh, rfl⟩ | ⟨classPath, hc, rfl⟩ | rfl | ⟨m, -, rfl⟩ | rfl | (rfl | ⟨e, -, rfl⟩) | rfl
  · exact .inr (.inl rfl)
  · exact .inr (.inr (.inl ⟨handler, hh, rfl⟩))
  · exact .inr (.inr (.inr ⟨classPath, hc, rfl⟩))
  · exact .inl (by simp [Archive.simple_error, Archive.simple_errors])
  · exact .inl (by simp [Archive.simple_error, Archive.simple_errorResponse])
  · exact .inl (by simp [hopenApi])
  · exact .inl (by simp [hpostman, hcollection])
  · exact .inl (by simp [hpostman, Archive.simple_environment])
  · exact .inl (by simp [Archive.simple_bundle])

/-- The names that become names of files as they are: the id of the service, the handlers, and the class paths. -/
def rawNames (p : Plan) (x : Extraction) : List String :=
  p.config.service.id :: (x.endpoints.groups.keys ++ x.registry.models.keys)

theorem simple_of_mem_positions (hraw : ∀ n ∈ p.rawNames x, '/' ∉ n.toList) {ns : List String} (h : ns ∈ p.positions x) :
    ∀ n ∈ ns, Simple n := by
  simp only [rawNames, List.forall_mem_cons, List.forall_mem_append] at hraw
  obtain ⟨hid, hhandlers, hclassPaths⟩ := hraw
  rcases mem_positions_cases h with ⟨-, hs⟩ | rfl | ⟨handler, hh, rfl⟩ | ⟨classPath, hc, rfl⟩
  · exact hs
  · simpa using simple_json hid
  · simpa using ⟨Archive.simple_api, simple_json (hhandlers handler hh)⟩
  · simpa using ⟨Archive.simple_model, simple_json (hclassPaths classPath hc)⟩

/-- Where the names from outside have no slashes, all documents stand at places of their own below the archive. -/
theorem nodup_places (hraw : ∀ n ∈ p.rawNames x, '/' ∉ n.toList) (ha : p.NamesApart) (home : Place) :
    (((p.positions x).map p.archive.below).map (placeAt home)).Nodup := by
  have hplaces : ((p.positions x).map p.archive.below).map (placeAt home) =
      (p.positions x).map (p.archive.place home ++ ·) := by
    rw [List.map_map]
    exact List.map_congr_left fun ns hns => Archive.placeAt_below_of_simple (simple_of_mem_positions hraw hns) _ _
  rw [hplaces]
  exact ((nodup_positions_iff p x).2 ha).map fun _ _ => List.append_cancel_left

/-- The documents that a run without failures writes stand inside the archive, but for the service, the endpoints of a
handler or a model whose name is an absolute path or has a step up in it. If they are all at paths of their own, the id
of the service is neither `openapi` nor `spec-bundle`, and no two environments have the same plain name. Conversely,
if that is so and no id, handler and class path has a slash in it, all documents are at places of their own. -/
theorem run_layout (h : p.run source d = (.ok report, d')) (hs : report.isSuccess = true) :
    ∃ x, Extraction.ofSource source p.config = .ok x ∧
      (∀ path ∈ report.written, p.archive.Inside d.home path ∨
        path = p.archive.servicePath p.config.service.id ∧ Archive.Climbs (p.config.service.id ++ ".json") ∨
        (∃ handler ∈ x.endpoints.groups.keys,
          path = p.archive.endpointsPath handler ∧ Archive.Climbs (handler ++ ".json")) ∨
        ∃ classPath ∈ x.registry.models.keys,
          path = p.archive.modelPath classPath ∧ Archive.Climbs (classPath ++ ".json")) ∧
      (report.written.Nodup → p.NamesApart) ∧
      ((∀ n ∈ p.rawNames x, '/' ∉ n.toList) → p.NamesApart → (report.written.map (placeAt d.home)).Nodup) := by
  obtain ⟨x, hx, hwritten⟩ := written_of_run h hs
  rw [hwritten]
  refine ⟨x, hx, fun path hp => ?_, fun hn => (nodup_positions_iff p x).1 hn.of_map, fun hraw ha => nodup_places hraw ha _⟩
  obtain ⟨ns, hns, rfl⟩ := List.mem_map.1 hp
  rcases mem_positions_cases hns with ⟨hne, hs⟩ | rfl | ⟨handler, hh, rfl⟩ | ⟨classPath, hc, rfl⟩
  · exact .inl ⟨ns, hne, Archive.placeAt_below_of_simple hs _ _⟩
  · by_cases hclimbs : Archive.Climbs (p.config.service.id ++ ".json")
    · exact .inr (.inl ⟨rfl, hclimbs⟩)
    · exact .inl (Archive.inside_below (by simpa using hclimbs) p.config.service.id (by simp) _)
  · by_cases hclimbs : Archive.Climbs (handler ++ ".json")
    · exact .inr (.inr (.inl ⟨handler, hh, rfl, hclimbs⟩))
    · have hdown := Archive.not_climbs_of_simple Archive.simple_api
      exact .inl (Archive.inside_below (by simpa using ⟨hdown, hclimbs⟩) handler (by simp) _)
  · by_cases hclimbs : Archive.Climbs (classPath ++ ".json")
    · exact .inr (.inr (.inr ⟨classPath, hc, rfl, hclimbs⟩))
    · have hdown := Archive.not_climbs_of_simple Archive.simple_model
      exact .inl (Archive.inside_below (by simpa using ⟨hdown, hclimbs⟩) classPath (by simp) _)

/-- A service without endpoints and models has its documents at places of their own. -/
theorem run_layout_small : ∃ report d', small.run (errorsAs none) .empty = (.ok report, d') ∧
    (report.written.map (placeAt Disk.empty.home)).Nodup := by
  obtain ⟨report, hrun, hs⟩ : ∃ report, small.run (errorsAs none) .empty =
      (.ok report, (small.run (errorsAs none) .empty).2) ∧ report.isSuccess = true :=
    exists_report (by decide +kernel)
  obtain ⟨x, hx, -, -, hplaces⟩ := run_layout hrun hs
  have hnames : (Extraction.ofSource (errorsAs none) small.config).toOption.map (small.rawNames ·) = some ["svc"] := by
    decide +kernel
  rw [hx] at hnames
  have hnames : small.rawNames x = ["svc"] := Option.some.inj hnames
  exact ⟨report, _, hrun, hplaces (by simp [hnames]) ⟨by decide, by decide, by decide⟩⟩

/-- A plan for a service of which only the id is known. -/
def planOf (id : String) : Plan :=
  ⟨.ofServiceId id, ⟨"out"⟩, none⟩

/-- The service can be written to the path of another document, and out of the archive. -/
theorem service_astray :
    (¬ ∀ (p : Plan) (source : Facts.Source) (d d' : Disk) (report : Report), p.run source d = (.ok report, d') →
      report.isSuccess = true → report.written.Nodup) ∧
    ¬ ∀ (p : Plan) (source : Facts.Source) (d d' : Disk) (report : Report), p.run source d = (.ok report, d') →
      report.isSuccess = true → ∀ path ∈ report.written, p.archive.Inside d.home path := by
  constructor
  · intro hall
    obtain ⟨report, hrun, hs⟩ : ∃ report, (planOf "openapi").run (errorsAs none) .empty =
        (.ok report, ((planOf "openapi").run (errorsAs none) .empty).2) ∧ report.isSuccess = true :=
      exists_report (by decide +kernel)
    obtain ⟨x, -, hwritten⟩ := written_of_run hrun hs
    have hnodup := hall _ _ _ _ _ hrun hs
    rw [hwritten] at hnodup
    exact ((nodup_positions_iff _ x).1 hnodup.of_map).openApi rfl
  · intro hall
    obtain ⟨report, hrun, hs⟩ : ∃ report, (planOf "../svc").run (errorsAs none) .empty =
        (.ok report, ((planOf "../svc").run (errorsAs none) .empty).2) ∧ report.isSuccess = true :=
      exists_report (by decide +kernel)
    obtain ⟨x, -, hwritten⟩ := written_of_run hrun hs
    have hmem : (planOf "../svc").archive.servicePath "../svc" ∈ report.written := by
      rw [hwritten]
      exact List.mem_map_of_mem List.mem_cons_self
    obtain ⟨ns, hne, hplace⟩ := hall _ _ _ _ _ hrun hs _ hmem
    have hout : placeAt Disk.empty.home ((planOf "../svc").archive.servicePath "../svc") = ["svc.json"] := by
      decide +kernel
    rw [hout] at hplace
    have hroot : (planOf "../svc").archive.place Disk.empty.home = ["out"] := by
      decide +kernel
    rw [hroot] at hplace
    simp at hplace

end Plan

end Generation

end ApiDocs
