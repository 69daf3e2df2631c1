import ApiDocs.Proofs.Generation.Course
import ApiDocs.Proofs.Model
import ApiDocs.Proofs.ModelGraph
import ApiDocs.Proofs.TypeExpr.Classify
/-!
# Reading an archive back

What is read in a folder in which nothing stood is what was written to it, document by document in the order
of the file names (`readable_of_writesAll`). The endpoints of an archive are read back as they were
(`readEndpoints_endpointWrites`), and so are its models, but for fields of a scalar class whose simple name is the
label of a structural kind (`readModels_resolveAll`).
-/
namespace ApiDocs

open Disk Generation

namespace Archive

variable {a : Archive} {d d' : Disk} {m k : String} {α β : Type}

/-! ## Documents in a folder -/

/-- The file of the document under a key. -/
def fileOf (key : String) : String := key ++ ".json"

/-- Entries in the order of their files. -/
def byFile (entries : List (String × β)) : List (String × β) :=
  entries.mergeSort fun e f => !(fileOf f.1 < fileOf e.1)

/-- The documents of some entries in a folder of an archive. -/
def documentsOf (a : Archive) (m : String) (toJson : β → Json) (entries : List (String × β)) : List (String × Json) :=
  entries.map fun e => (a.below [m, fileOf e.1], toJson e.2)

theorem fileOf_inj {k k' : String} : fileOf k = fileOf k' ↔ k = k' :=
  String.append_left_inj ".json"

theorem simple_fileOf (h : '/' ∉ k.toList) : Simple (fileOf k) :=
  simple_json h

theorem documentPath_of_mem_documentsOf (a : Archive) (m : String) (toJson : β → Json) (entries : List (String × β)) :
    ∀ p ∈ a.documentsOf m toJson entries, a.DocumentPath p.1 := by
  intro p hp
  obtain ⟨e, -, rfl⟩ := List.mem_map.1 hp
  exact documentPath_grandchild a m e.1

variable {read : Node → Reading α} {toJson : β → Json} {back : β → α} {entries : List (String × β)}

theorem mem_byFile {e : String × β} : e ∈ byFile entries ↔ e ∈ entries :=
  List.mem_mergeSort

/-- It is the one list of the entries in which the files are in order. -/
theorem byFile_eq {es : List (String × β)} (hp : es.Perm entries)
    (hs : (es.map fun e => fileOf e.1).Pairwise (· < ·)) : byFile entries = es := by
  have hordered := List.pairwise_map.1 (ordered_mergeSort (fun e => fileOf e.1) entries)
  have hnodup : (es.map fun e => fileOf e.1).Nodup := hs.imp fun hlt => String.ne_of_lt hlt
  have hperm : (byFile entries).Perm es := (List.mergeSort_perm _ _).trans hp.symm
  refine List.Perm.eq_of_pairwise (fun e f he hf hle hge => ?_) hordered
    ((List.pairwise_map.1 hs).imp fun hlt => Std.le_of_lt hlt) hperm
  exact List.inj_on_of_nodup_map hnodup (hperm.mem_iff.1 he) hf (String.le_antisymm hle hge)

theorem nodup_byFile (hn : (Pairs.keys entries).Nodup) : ((byFile entries).map fun e => fileOf e.1).Nodup := by
  have hperm : ((byFile entries).map fun e => fileOf e.1).Perm ((Pairs.keys entries).map fileOf) := by
    rw [Pairs.keys, List.map_map]
    exact (List.mergeSort_perm _ _).map _
  exact hperm.nodup_iff.2 (hn.map fun _ _ => fileOf_inj.1)

section

variable (hm : Simple m) (hn : (Pairs.keys entries).Nodup) (hk : ∀ e ∈ entries, '/' ∉ e.1.toList)
  (hempty : ∀ n, d.at? (a.place d.home ++ [m, n]) = none) (h : WritesAll (a.documentsOf m toJson entries) d d')

include hm hk in
theorem placeAt_documentsOf {e : String × β} (he : e ∈ entries) :
    placeAt d.home (a.below [m, fileOf e.1]) = a.place d.home ++ [m, fileOf e.1] :=
  placeAt_grandchild hm (simple_fileOf (hk e he)) a d.home

include hm hn hk in
/-- Each of the documents stands at a place of its own. -/
theorem nodup_documentsOf : ((a.documentsOf m toJson entries).map fun p => placeAt d.home p.1).Nodup := by
  have hplaces : (a.documentsOf m toJson entries).map (fun p => placeAt d.home p.1) =
      ((Pairs.keys entries).map fun k => a.place d.home ++ [m, fileOf k]) := by
    rw [documentsOf, Pairs.keys, List.map_map, List.map_map]
    exact List.map_congr_left fun e he => by simpa only [Function.comp_apply] using placeAt_documentsOf hm hk he
  rw [hplaces]
  refine hn.map fun k k' he => ?_
  simpa [fileOf_inj] using he

include hm hn hk hempty h in
/-- A folder in which nothing stood holds just the files of the documents. -/
theorem files_of_writesAll : d'.files (a.place d.home ++ [m]) = (byFile entries).map fun e => fileOf e.1 := by
  have hdocs := isDocument_of_forall (documentPath_of_mem_documentsOf a m toJson entries)
  refine (files_eq_iff (ordered_mergeSort (fun e => fileOf e.1) entries) (nodup_byFile hn)).2 fun n => ?_
  have hplace : a.place d.home ++ [m] ++ [n] = a.place d.home ++ [m, n] := by simp
  rw [hplace]
  constructor
  · intro hfile
    by_contra hnew
    -- A file of another name is not one that was written, and before there was none.
    have hother : ∀ p ∈ a.documentsOf m toJson entries, a.place d.home ++ [m, n] ≠ placeAt d.home p.1 := by
      intro p hp hat
      obtain ⟨e, he, rfl⟩ := List.mem_map.1 hp
      rw [placeAt_documentsOf hm hk he] at hat
      have hname : n = fileOf e.1 := by simpa using hat
      exact hnew (List.mem_map.2 ⟨e, mem_byFile.2 he, hname.symm⟩)
    rw [h.text?_of_ne hdocs hother, text?, hempty n] at hfile
    cases hfile
  · intro hn'
    obtain ⟨e, he, rfl⟩ := List.mem_map.1 hn'
    have htext := h.text?_of_mem hdocs (nodup_documentsOf hm hn hk) _ (List.mem_map_of_mem (mem_byFile.1 he))
    rw [placeAt_documentsOf hm hk (mem_byFile.1 he)] at htext
    rw [htext]
    rfl

include hm hn hk hempty h in
/-- Documents that were written to a folder in which nothing stood are those that are read there. -/
theorem readable_of_writesAll (hne : ∀ e ∈ entries, e.1 ≠ "") (hw : ∀ e ∈ entries, (toJson e.2).Within Json.maxDepth)
    (hr : ∀ e ∈ entries, read (.ofJson (toJson e.2)) = .ok (back e.2)) :
    readable read (a.below [m]) d' = (byFile entries).map fun e => (a.below [m, fileOf e.1], back e.2) := by
  have hpaths := documentPath_of_mem_documentsOf a m toJson entries
  have hdocs := isDocument_of_forall hpaths
  have hhome : d'.home = d.home := (h.within hdocs).home.symm
  have hfolder : placeAt d'.home (a.below [m]) = a.place d.home ++ [m] := by
    rw [hhome]
    exact placeAt_child hm a d.home
  -- What stands in the folder has come with a document, so its name can be joined to the path.
  have hsimple : ∀ n, d'.at? (placeAt d'.home (a.below [m]) ++ [n]) ≠ none → Simple n := by
    intro n hstands
    rw [hfolder] at hstands
    exact h.simple_of_new hdocs (by simpa using hempty n) hstands
  have hnonempty : a.below [m] ≠ "" := join_ne_empty (fun he => by subst he; exact absurd hm.proper.not_idle (by decide)) a.root
  rw [readable_eq_of_files read hnonempty hsimple, hfolder, files_of_writesAll hm hn hk hempty h, List.filterMap_map,
    ← List.filterMap_eq_map]
  refine List.filterMap_congr fun e he => ?_
  replace he := mem_byFile.1 he
  have hmem : (a.below [m, fileOf e.1], toJson e.2) ∈ a.documentsOf m toJson entries := List.mem_map_of_mem he
  have htext := h.text?_of_mem hdocs (nodup_documentsOf hm hn hk) _ hmem
  rw [← hhome] at htext
  have hread := (h.keeps hdocs _ hmem).readText (hdocs _ hmem) htext
  have hvalue : d'.value? read (a.below [m, fileOf e.1]) = some (back e.2) := by
    rw [value?_eq_some_iff, readDocument_eq_ok_iff]
    exact ⟨_, hread, by rw [Json.read_document (hw e he), Option.map_some, hr e he]⟩
  have hjson : (Path.splitName (fileOf e.1)).2 = some "json" := by rw [fileOf, Path.splitName_json (hne e he)]
  have hpath : Path.join (a.below [m]) (fileOf e.1) = a.below [m, fileOf e.1] := rfl
  rw [Function.comp_apply, documentAt, hjson, hpath, hvalue]
  rfl

end

/-! ## Endpoints -/

/-- The writes of endpoint documents by handler. -/
def endpointWrites (a : Archive) (groups : Keyed (List Definition)) : List Write :=
  groups.entries.map fun (handler, ds) => a.writeEndpoints handler ds

theorem endpointWrites_eq (a : Archive) (groups : Keyed (List Definition)) :
    a.endpointWrites groups = (a.documentsOf "api" (fun ds => .list (ds.map Definition.toJson)) groups.entries).map writeOf := by
  simp only [endpointWrites, documentsOf, List.map_map, Function.comp_def, writeEndpoints, endpointsPath, fileOf, writeOf]

/-- Endpoint documents are read back as they were written, handler by handler in the order of the files. -/
theorem readEndpoints_endpointWrites (a : Archive) (d : Disk) (groups : Keyed (List Definition))
    (hk : ∀ handler ∈ groups.keys, handler ≠ "" ∧ '/' ∉ handler.toList)
    (hs : ∀ ds ∈ groups.values, ∀ x ∈ ds, x.StatusesFit) (hempty : ∀ n, d.at? (a.place d.home ++ ["api", n]) = none)
    (hw : Report.faultsOf (writeAll (a.endpointWrites groups) d).1 = []) :
    a.readEndpoints (writeAll (a.endpointWrites groups) d).2 = (byFile groups.entries).flatMap (·.2) := by
  rw [endpointWrites_eq] at hw ⊢
  have hkey : ∀ e ∈ groups.entries, e.1 ≠ "" ∧ '/' ∉ e.1.toList := fun e he => hk e.1 (List.mem_map_of_mem he)
  have hstatus : ∀ e ∈ groups.entries, ∀ x ∈ e.2, x.StatusesFit := fun e he => hs e.2 (List.mem_map_of_mem he)
  have hwithin : ∀ e ∈ groups.entries, (Json.list (e.2.map Definition.toJson)).Within Json.maxDepth := fun e he =>
    .mono (.listOf fun x hx => Definition.within_toJson (hstatus e he x hx)) (by decide)
  have hback : ∀ e ∈ groups.entries,
      Reading.list Definition.ofNode (.ofJson (.list (e.2.map Definition.toJson))) = .ok (id e.2) :=
    fun e he => Reading.list_ofJson fun x hx => Definition.ofNode_toJson (hstatus e he x hx)
  rw [readEndpoints, endpointsFolder, readable_of_writesAll simple_api groups.distinct (fun e he => (hkey e he).2) hempty
    (writesAll_of_faultsOf hw) (fun e he => (hkey e he).1) hwithin hback, List.flatMap_map]
  rfl

/-- A definition with a page of rows as its content, a header, a parameter and an error. -/
def listing (name : String) : Definition where
  id := name
  name := name
  className := "Rows"
  description := ""
  group := "Rows"
  groupId := ""
  method := "GET"
  urlMapping := "/rows"
  parameters := [⟨"page", "int", "int", "", true, some "1", .query, false, false⟩]
  headers := [.ofText "X-Trace" ""]
  returnClass := some "com.x.Row"
  returnDescription := ""
  returnShape := .paged .xpage
  needsSession := false
  responses := .ofList [("200", "Success")]
  errors := [⟨"Common", "com.x.Problem", 404, [⟨"E1", "NONE", "none", ""⟩]⟩]

theorem readEndpoints_endpointWrites_listing :
    let groups : Keyed (List Definition) := .ofList [("h.Users", [listing "users"]), ("h.Orders", [listing "orders", listing "open"])]
    Report.faultsOf (writeAll (endpointWrites ⟨"out"⟩ groups) .empty).1 = [] ∧
      readEndpoints ⟨"out"⟩ (writeAll (endpointWrites ⟨"out"⟩ groups) .empty).2 =
        [listing "orders", listing "open", listing "users"] := by
  intro groups
  have hw : Report.faultsOf (writeAll (endpointWrites ⟨"out"⟩ groups) .empty).1 = [] := by decide +kernel
  have hread := readEndpoints_endpointWrites ⟨"out"⟩ .empty groups (by decide) (by decide +kernel)
    (fun n => by simp [Disk.at?, Disk.lookUp, Disk.empty, Pairs.get?]) hw
  have hsorted : byFile groups.entries = [("h.Orders", [listing "orders", listing "open"]), ("h.Users", [listing "users"])] :=
    byFile_eq (.swap _ _ _) (by decide)
  exact ⟨hw, by rw [hread, hsorted]; rfl⟩

/-! ## Models -/

/-- The writes of model documents by class path. -/
def modelWrites (a : Archive) (models : Models) : List Write :=
  models.entries.map fun (classPath, m) => a.writeModel classPath m

theorem modelWrites_eq (a : Archive) (models : Models) :
    a.modelWrites models = (a.documentsOf "model" Model.toJson models.entries).map writeOf := by
  simp only [modelWrites, documentsOf, List.map_map, Function.comp_def, writeModel, modelPath, fileOf, writeOf]

/-- The class path of a document is the name of its file. -/
theorem classPathOf_below (hm : '/' ∉ k.toList) (hk : k ≠ "") : classPathOf (a.below [m, fileOf k]) = k := by
  have hs := simple_fileOf hm
  obtain ⟨ps, hp⟩ := hs.pieces_join (a.below [m])
  have hname : Path.fileName? (a.below [m, fileOf k]) = some (fileOf k) :=
    Path.fileName?_of_last hp hs.proper.not_idle hs.proper.not_up
  rw [classPathOf, hname, Option.getD_some, fileOf, Path.splitName_json hk]

/-- Models that were written are read back under their class paths, each as `Model.reread` says. -/
theorem readModels_modelWrites (models : Models) (hk : ∀ path ∈ models.keys, path ≠ "" ∧ '/' ∉ path.toList)
    (hempty : ∀ n, d.at? (a.place d.home ++ ["model", n]) = none)
    (hw : Report.faultsOf (writeAll (a.modelWrites models) d).1 = []) (path : String) :
    (a.readModels (writeAll (a.modelWrites models) d).2).get? path = (models.get? path).map Model.reread := by
  rw [modelWrites_eq] at hw ⊢
  have hkey : ∀ e ∈ models.entries, e.1 ≠ "" ∧ '/' ∉ e.1.toList := fun e he => hk e.1 (List.mem_map_of_mem he)
  have hread := readable_of_writesAll simple_model models.distinct (fun e he => (hkey e he).2) hempty
    (writesAll_of_faultsOf hw) (fun e he => (hkey e he).1) (fun e _ => e.2.within_toJson.mono (by decide))
    (fun e _ => e.2.ofNode_toJson)
  have hpaths : ((byFile models.entries).map fun e => (a.below ["model", fileOf e.1], e.2.reread)).map
      (fun (path, m) => (classPathOf path, m)) = (byFile models.entries).map fun e => (e.1, e.2.reread) := by
    rw [List.map_map]
    refine List.map_congr_left fun e he => ?_
    obtain ⟨hne, hslash⟩ := hkey e (mem_byFile.1 he)
    exact congrArg (·, e.2.reread) (classPathOf_below hslash hne)
  -- Class paths are distinct, so a look-up does not depend on the order of the files.
  have hperm : (byFile models.entries).Perm models.entries := List.mergeSort_perm _ _
  have hnodup : (Pairs.keys (byFile models.entries)).Nodup := (hperm.map _).nodup_iff.2 models.distinct
  rw [readModels, modelsFolder, hread, hpaths, Keyed.get?, Keyed.entries_ofList, Pairs.get?_map,
    Pairs.get?_perm hperm hnodup]
  · rfl
  · rw [Pairs.keys_map fun _ => Model.reread]
    exact hnodup

/-- A scalar field of a model is called by the simple name of its class. -/
theorem eq_simple_of_mem_fields {modeler : Modeler} {t : Facts.TypeFacts} {f : Field} {name : String}
    (hf : f ∈ (modeler.modelOf t).fields) (hk : f.kind = .scalar name) : name = TypeName.simple f.classPath := by
  unfold Modeler.modelOf at hf
  cases ht : t.kind with
  | enum =>
    -- The constants of an enumeration are texts.
    simp only [ht] at hf
    obtain ⟨constant, -, rfl⟩ := List.mem_map.1 hf
    rw [Modeler.constantField, FieldKind.scalar.injEq] at hk
    have hstring : TypeName.simple "java.lang.String" = "String" := by decide
    exact hk.symm.trans hstring.symm
  | object =>
    simp only [ht] at hf
    obtain ⟨member, -, rfl⟩ := List.mem_map.1 hf
    unfold Modeler.memberField at hk ⊢
    cases hp : modeler.conventions.page? member.type with
    | some page => simp [hp] at hk
    | none =>
      simp only [hp] at hk ⊢
      exact Conventions.eq_simple_of_fieldKind (Prod.ext hk rfl)

/-- The models that resolving makes are read back under their class paths, and each of them as it was exactly
if none of its fields is of a scalar class that is called as a structural kind is labelled. -/
theorem readModels_resolveAll (source : Facts.Source) (config : Config) (paths : List String) {r : Registry}
    (hr : r = (Modeler.ofConfig source config).resolveAll paths) (a : Archive) (d : Disk)
    (hk : ∀ path ∈ r.models.keys, path ≠ "" ∧ '/' ∉ path.toList)
    (hempty : ∀ n, d.at? (a.place d.home ++ ["model", n]) = none)
    (hw : Report.faultsOf (writeAll (a.modelWrites r.models) d).1 = []) :
    (∀ path, (a.readModels (writeAll (a.modelWrites r.models) d).2).get? path =
      (r.models.get? path).map Model.reread) ∧
    ∀ path m, r.models.get? path = some m → (m.reread = m ↔
      ∀ f ∈ m.fields, f.kind.isReference = true ∨ TypeName.simple f.classPath ∉ ["Object", "Array", "Enum"]) := by
  refine ⟨readModels_modelWrites r.models hk hempty hw, fun path m hm => ?_⟩
  have hresolved := (Modeler.underway_resolveAll (Modeler.ofConfig source config) paths).resolved
  rw [hr, hresolved.get?_eq_some_iff, Modeler.model?_eq_some_iff] at hm
  obtain ⟨-, t, -, rfl⟩ := hm
  rw [Model.reread_eq_iff]
  refine forall₂_congr fun f hf => ?_
  cases hkind : f.kind with
  | scalar name =>
    obtain rfl := eq_simple_of_mem_fields hf hkind
    simp [FieldKind.isReference, FieldKind.words]
  | object | array | enum => simp [FieldKind.isReference]

/-- A source of nothing but a type with one member. -/
def boxOf (type : String) : Facts.Source :=
  .ofDocument ⟨[], .ofList [("com.x.Box", ⟨"com.x.Box", .object, "", none, [⟨"data", .named type, false, false, false, ""⟩], []⟩)],
    [], none⟩

/-- The registry of that type. -/
def registryOf (type : String) : Registry :=
  (Modeler.ofConfig (boxOf type) (.ofServiceId "svc")).resolveAll ["com.x.Box"]

theorem readModels_resolveAll_box :
    let models := (registryOf "java.lang.Long").models
    models.keys = ["com.x.Box"] ∧
      Report.faultsOf (writeAll (modelWrites ⟨"out"⟩ models) .empty).1 = [] ∧
      (readModels ⟨"out"⟩ (writeAll (modelWrites ⟨"out"⟩ models) .empty).2).get? "com.x.Box" = models.get? "com.x.Box" := by
  intro models
  have hkeys : models.keys = ["com.x.Box"] := by decide +kernel
  have hw : Report.faultsOf (writeAll (modelWrites ⟨"out"⟩ models) .empty).1 = [] := by decide +kernel
  have hk : ∀ path ∈ models.keys, path ≠ "" ∧ '/' ∉ path.toList := by
    rw [hkeys]
    decide
  have hr : registryOf "java.lang.Long" =
      (Modeler.ofConfig (boxOf "java.lang.Long") (.ofServiceId "svc")).resolveAll ["com.x.Box"] := rfl
  obtain ⟨hread, hsame⟩ := readModels_resolveAll (boxOf "java.lang.Long") (.ofServiceId "svc") ["com.x.Box"] hr ⟨"out"⟩
    .empty hk (fun n => by simp [Disk.at?, Disk.lookUp, Disk.empty, Pairs.get?]) hw
  refine ⟨hkeys, hw, ?_⟩
  have hmodel : models.get? "com.x.Box" = some ⟨"Box", .object, "", [⟨"data", .scalar "Long", "java.lang.Long", "", true, none⟩]⟩ := by
    decide +kernel
  rw [hread, hmodel, Option.map_some, (hsame _ _ hmodel).2 (by decide)]

/-- A field of a class without a package that is called `Array` is read back as an array. -/
theorem readModels_fails_array :
    let models := (registryOf "Array").models
    models.keys = ["com.x.Box"] ∧
      Report.faultsOf (writeAll (modelWrites ⟨"out"⟩ models) .empty).1 = [] ∧
      (readModels ⟨"out"⟩ (writeAll (modelWrites ⟨"out"⟩ models) .empty).2).get? "com.x.Box" ≠ models.get? "com.x.Box" := by
  intro models
  have hkeys : models.keys = ["com.x.Box"] := by decide +kernel
  have hw : Report.faultsOf (writeAll (modelWrites ⟨"out"⟩ models) .empty).1 = [] := by decide +kernel
  have hread := readModels_modelWrites (a := ⟨"out"⟩) (d := .empty) models (by rw [hkeys]; decide)
    (fun n => by simp [Disk.at?, Disk.lookUp, Disk.empty, Pairs.get?]) hw "com.x.Box"
  have hmodel : models.get? "com.x.Box" = some ⟨"Box", .object, "", [⟨"data", .scalar "Array", "Array", "", true, none⟩]⟩ := by
    decide +kernel
  refine ⟨hkeys, hw, ?_⟩
  rw [hread, hmodel]
  decide

end Archive

end ApiDocs
