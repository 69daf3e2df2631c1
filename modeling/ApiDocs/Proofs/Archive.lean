import ApiDocs.Archive
import ApiDocs.Proofs.Disk.Read
/-!
# What an archive holds

Where the documents of an archive stand, what is left of it when it is cleared, and what its bundles
depend on: the texts directly in the folders of endpoints and models, and those of the two documents of
errors.
-/
namespace ApiDocs

namespace Archive

open Disk

variable {d d' e : Disk} {home q : Place} {n m path folder : String} {a : Archive}

/-! ## Reading -/

variable {α : Type}

/-- The document under a name in a folder, with its path. -/
def documentAt (read : Node → Reading α) (folder : String) (d : Disk) (n : String) : Option (String × α) :=
  if (Path.splitName n).2 == some "json" then
    (d.value? read (Path.join folder n)).map fun a => (Path.join folder n, a)
  else none

theorem text?_of_value? {read : Node → Reading α} {x : α} (h : d.value? read path = some x) :
    Usable path ∧ Leads d (start d.home path) (Path.pieces path) ∧ (d.text? (placeAt d.home path)).isSome = true := by
  rw [value?_eq_some_iff, readDocument_eq_ok_iff] at h
  obtain ⟨text, ht, -⟩ := h
  obtain ⟨hu, hl, ht⟩ := readText_eq_ok_iff.1 ht
  exact ⟨hu, hl, by rw [ht]; rfl⟩

/-- Where a name in a folder can be reached, the folder is found. -/
theorem find_of_leads (hne : folder ≠ "") (hn : Simple n) (hu : Usable (Path.join folder n))
    (hl : Leads d (start d.home (Path.join folder n)) (Path.pieces (Path.join folder n))) :
    d.find folder = .ok (placeAt d.home folder, .folder) := by
  obtain ⟨lead, hlead, hp⟩ := Path.pieces_join_folder hn.isAbsolute folder
  rw [hp, Path.pieces_of_not_mem hn.no_slash, hn.start_join, leads_append] at hl
  obtain ⟨hl, hlast⟩ := hl
  have hf : d.at? (placeAt d.home folder) = some .folder := by
    rw [placeAt, ← hlead, goal_named]
    exact hlast.head (List.cons_ne_nil n [])
  have hnamed : Leads d (start d.home folder) (Path.names folder) := hlead ▸ hl.named
  refine find_eq_ok_iff.2 ⟨hu.of_prefix (Path.join_begins hn.isAbsolute folder) hne, ?_, (goal_pieces ..).symm, hf⟩
  exact hnamed.of_named (hnamed.start hf) (goal_pieces d.home folder ▸ hf)

/-- Where a document is read in a folder, the folder is found. -/
theorem find_of_value? {read : Node → Reading α} {x : α} (hne : folder ≠ "") (hn : Simple n)
    (h : d.value? read (Path.join folder n) = some x) : d.find folder = .ok (placeAt d.home folder, .folder) := by
  obtain ⟨hu, hl, -⟩ := text?_of_value? h
  exact find_of_leads hne hn hu hl

theorem filterMap_pipeline {β γ δ : Type} (p : β → Bool) (f : β → γ) (q : γ → Bool) (g : γ → Option δ) (l : List β) :
    (((l.filter p).map f).filter q).filterMap g =
      l.filterMap fun x => if p x = true then if q (f x) = true then g (f x) else none else none := by
  induction l with
  | nil => rfl
  | cons x l ih =>
    by_cases hp : p x = true
    · by_cases hq : q (f x) = true <;> simp [hp, hq, ih, List.filterMap_cons]
    · simp [hp, ih]

theorem exists_find_of_value? {read : Node → Reading α} {x : α} (h : d.value? read path = some x) :
    ∃ text, d.find path = .ok (placeAt d.home path, .file text) := by
  obtain ⟨hu, hl, ht⟩ := text?_of_value? h
  obtain ⟨text, ht⟩ := Option.isSome_iff_exists.1 ht
  exact ⟨text, find_eq_ok_iff.2 ⟨hu, hl, (goal_pieces ..).symm, text?_eq_some_iff.1 ht⟩⟩

theorem hasFile_of_value? {read : Node → Reading α} {x : α} (h : d.value? read path = some x) : d.hasFile path = true := by
  obtain ⟨text, hf⟩ := exists_find_of_value? h
  rw [hasFile, hf]
  rfl

theorem exists_value?_of_documentAt {read : Node → Reading α} {y : String × α} (h : documentAt read folder d n = some y) :
    ∃ x, d.value? read (Path.join folder n) = some x := by
  unfold documentAt at h
  split at h
  · obtain ⟨x, hx, -⟩ := Option.map_eq_some_iff.1 h
    exact ⟨x, hx⟩
  · cases h

/-- A listed document counts if it is a file that can be read. -/
theorem documentAt_of_json (read : Node → Reading α) (hj : ((Path.splitName n).2 == some "json") = true) :
    documentAt read folder d n = if d.hasFile (Path.join folder n) = true then
      match d.readDocument read (Path.join folder n) with
      | .ok x => some (Path.join folder n, x)
      | .error _ => none
    else none := by
  rw [documentAt, if_pos hj]
  cases hv : d.value? read (Path.join folder n) with
  | some x =>
    rw [if_pos (hasFile_of_value? hv), value?_eq_some_iff.1 hv]
    rfl
  | none =>
    cases hr : d.readDocument read (Path.join folder n) with
    | ok x =>
      rw [value?_eq_some_iff.2 hr] at hv
      cases hv
    | error fault => simp

theorem exists_documentsIn_error (hf : d.find folder ≠ .ok (placeAt d.home folder, .folder)) :
    ∃ p, d.documentsIn folder = .error p := by
  unfold documentsIn Disk.list
  cases hfind : d.find folder with
  | error p => exact ⟨p, rfl⟩
  | ok found =>
    obtain ⟨place, entry⟩ := found
    obtain ⟨-, -, hplace, -⟩ := find_eq_ok_iff.1 hfind
    cases entry with
    | file text => exact ⟨.notFolder, rfl⟩
    | folder =>
      rw [hplace, goal_pieces] at hfind
      exact absurd hfind hf

/-- The documents in a folder are those under its names. -/
theorem readable_eq (read : Node → Reading α) (hne : folder ≠ "")
    (hs : ∀ n, d.at? (placeAt d.home folder ++ [n]) ≠ none → Simple n) :
    readable read folder d = (d.listing (placeAt d.home folder)).filterMap (documentAt read folder d) := by
  by_cases hf : d.find folder = .ok (placeAt d.home folder, .folder)
  · have hdocs : d.documentsIn folder =
        .ok (((d.listing (placeAt d.home folder)).filter fun n => (Path.splitName n).2 == some "json").map (Path.join folder)) := by
      simp only [documentsIn, Disk.list, hf]
      rfl
    simp only [readable, hdocs]
    rw [filterMap_pipeline]
    refine List.filterMap_congr fun n _ => ?_
    by_cases hj : ((Path.splitName n).2 == some "json") = true
    · exact (if_pos hj).trans (documentAt_of_json read hj).symm
    · rw [documentAt, if_neg hj, if_neg hj]
  · -- The folder cannot be listed, but then no document can be read in it either.
    have hnone : ∀ n ∈ d.listing (placeAt d.home folder), documentAt read folder d n = none := by
      intro n hn
      refine Option.eq_none_iff_forall_ne_some.2 fun y hy => hf ?_
      obtain ⟨x, hx⟩ := exists_value?_of_documentAt hy
      exact find_of_value? hne (hs n (mem_listing.1 hn)) hx
    obtain ⟨p, hp⟩ := exists_documentsIn_error hf
    rw [List.filterMap_eq_nil_iff.2 hnone]
    simp only [readable, hp]

/-- The documents in a folder are those under the names of its files. -/
theorem readable_eq_of_files (read : Node → Reading α) (hne : folder ≠ "")
    (hs : ∀ n, d.at? (placeAt d.home folder ++ [n]) ≠ none → Simple n) :
    readable read folder d = (d.files (placeAt d.home folder)).filterMap (documentAt read folder d) := by
  rw [readable_eq read hne hs, files, List.filterMap_filter]
  refine List.filterMap_congr fun n hn => ?_
  by_cases ht : (d.text? (placeAt d.home folder ++ [n])).isSome = true
  · rw [if_pos ht]
  · rw [if_neg ht]
    refine Option.eq_none_iff_forall_ne_some.2 fun y hy => ht ?_
    obtain ⟨x, hx⟩ := exists_value?_of_documentAt hy
    obtain ⟨-, -, hsome⟩ := text?_of_value? hx
    rwa [placeAt_join (hs n (mem_listing.1 hn))] at hsome

/-- What is read in a folder depends on the texts that stand directly in it. -/
theorem readable_congr (read : Node → Reading α) (hne : folder ≠ "") (had : Anchors d folder) (hae : Anchors e folder)
    (hh : d.home = e.home) (hq : ∀ n, d.text? (placeAt d.home folder ++ [n]) = e.text? (placeAt d.home folder ++ [n]))
    (hd : ∀ n, d.at? (placeAt d.home folder ++ [n]) ≠ none → Simple n)
    (he : ∀ n, e.at? (placeAt d.home folder ++ [n]) ≠ none → Simple n) :
    readable read folder d = readable read folder e := by
  rw [readable_eq_of_files read hne hd, readable_eq_of_files read hne (hh ▸ he), ← hh, files_congr hq]
  refine List.filterMap_congr fun n hn => ?_
  have hsimple := he n (mem_listing.1 (List.mem_filter.1 hn).1)
  unfold documentAt
  rw [value?_congr read (had.found hsimple) (hae.found hsimple) hh (by rw [placeAt_join hsimple]; exact hq n)]

/-! ## Layout -/

theorem simple_api : Simple "api" := ⟨⟨by decide, by decide⟩, by decide⟩

theorem simple_model : Simple "model" := ⟨⟨by decide, by decide⟩, by decide⟩

theorem simple_error : Simple "error" := ⟨⟨by decide, by decide⟩, by decide⟩

theorem simple_errors : Simple "errors.json" := ⟨⟨by decide, by decide⟩, by decide⟩

theorem simple_errorResponse : Simple "error-response.json" := ⟨⟨by decide, by decide⟩, by decide⟩

theorem simple_bundle : Simple "spec-bundle.json" := ⟨⟨by decide, by decide⟩, by decide⟩

/-- The place of an archive. -/
def place (a : Archive) (home : Place) : Place :=
  placeAt home a.root

theorem placeAt_child (h : Simple n) (a : Archive) (home : Place) :
    placeAt home (a.below [n]) = a.place home ++ [n] :=
  placeAt_join h home a.root

theorem placeAt_grandchild (hm : Simple m) (hn : Simple n) (a : Archive) (home : Place) :
    placeAt home (a.below [m, n]) = a.place home ++ [m, n] := by
  have h := placeAt_join hn home (Path.join a.root m)
  rw [placeAt_join hm, List.append_assoc] at h
  exact h

theorem names_grandchild (hm : Simple m) (hn : Simple n) (a : Archive) :
    Path.names (a.below [m, n]) = Path.names a.root ++ [m, n] := by
  have h := hn.names_join (Path.join a.root m)
  rw [hm.names_join, List.append_assoc] at h
  exact h

theorem start_grandchild (hm : Simple m) (hn : Simple n) (a : Archive) (home : Place) :
    start home (a.below [m, n]) = start home a.root :=
  (hn.start_join home (Path.join a.root m)).trans (hm.start_join home a.root)

theorem found_grandchild (h : Anchors d a.root) (hm : Simple m) (hn : Simple n) : Found d (a.below [m, n]) :=
  (h.join hm).found hn

theorem join_ne_empty (hne : n ≠ "") (folder : String) : Path.join folder n ≠ "" := by
  intro he
  have hlen : n.length ≤ (Path.join folder n).length := by
    unfold Path.join
    split
    · exact Nat.le_refl _
    · split <;> simp only [String.length_append] <;> omega
  rw [he] at hlen
  exact hne (by simpa using hlen)

/-- The path of a document of an archive. Names that are absolute paths lead out of it. -/
structure DocumentPath (a : Archive) (path : String) : Prop where
  isDocument : IsDocument path
  start : ∀ home, Disk.start home path = [] ∨ Disk.start home path = Disk.start home a.root

theorem start_join (folder n : String) (home : Place) :
    start home (Path.join folder n) = [] ∨ start home (Path.join folder n) = start home folder := by
  by_cases habs : Path.isAbsolute n = true
  · rw [Path.join_of_isAbsolute habs, start, if_pos habs]
    exact .inl rfl
  · rw [start, start, Path.isAbsolute_join (by simpa using habs)]
    exact .inr rfl

theorem documentPath_child (a : Archive) (s : String) : a.DocumentPath (a.below [s ++ ".json"]) :=
  ⟨(isDocument_json s).join a.root, start_join a.root _⟩

theorem documentPath_grandchild (a : Archive) (m s : String) : a.DocumentPath (a.below [m, s ++ ".json"]) := by
  refine ⟨(isDocument_json s).join _, fun home => ?_⟩
  rcases start_join (Path.join a.root m) (s ++ ".json") home with h | h
  · exact .inl h
  · rcases start_join a.root m home with h' | h'
    · exact .inl (h.trans h')
    · exact .inr (h.trans h')

theorem documentPath_environment (a : Archive) (name : String) : a.DocumentPath (a.environmentPath name) :=
  documentPath_grandchild a "postman" ("env-" ++ plainName name)

/-- No document stands at the place of one of the folders that are cleared. -/
theorem placeAt_ne_of_documentPath (h : a.DocumentPath path) (hm : m = "api" ∨ m = "model") (home : Place) (q : Place) :
    placeAt home path ≠ q ++ [m] := by
  obtain ⟨place, n, hg⟩ := h.isDocument.placeAt home
  rw [hg]
  intro he
  have hlast := congrArg (fun s : String => s.toList.getLast?) (List.singleton_inj.1 (List.append_inj' he rfl).2)
  rcases hm with rfl | rfl <;> simp [List.getLast?_append] at hlast

theorem mem_toList_join {c : Char} (h : c ∈ (Path.join folder n).toList) : c ∈ folder.toList ∨ c = '/' ∨ c ∈ n.toList := by
  unfold Path.join at h
  split at h
  · exact .inr (.inr h)
  · split at h
    · simp only [String.toList_append, List.mem_append] at h
      exact h.imp_right .inr
    · simp only [String.toList_append, List.mem_append] at h
      rcases h with (h | h) | h
      · exact .inl h
      · exact .inr (.inl (by simpa using h))
      · exact .inr (.inr h)

theorem byteLength_join_le (folder n : String) : Text.byteLength (Path.join folder n).toList ≤
    Text.byteLength folder.toList + 1 + Text.byteLength n.toList := by
  have hslash : Text.byteLength "/".toList = 1 := by decide
  unfold Path.join
  split
  · omega
  · split <;> simp only [String.toList_append, Text.byteLength_append] <;> omega

theorem byteLength_join_ge (hn : Path.isAbsolute n = false) (folder : String) :
    Text.byteLength folder.toList + Text.byteLength n.toList ≤ Text.byteLength (Path.join folder n).toList := by
  unfold Path.join
  rw [if_neg (by simp [hn])]
  split <;> simp only [String.toList_append, Text.byteLength_append] <;> omega

/-! ## Clearing -/

/-- The folders that are cleared. -/
def clearedFolders (a : Archive) : List String :=
  [a.endpointsFolder, a.modelsFolder]

/-- Places in some folders. -/
def Under (home : Place) (paths : List String) (q : Place) : Prop :=
  ∃ path ∈ paths, placeAt home path <+: q

/-- The path of an archive leads to one place, whatever becomes of what the archive holds. A folder that the path
passes is one that the place is in, or else it is there already and stays when the archive is cleared. -/
def Fixed (a : Archive) (d : Disk) : Prop :=
  ∀ ms n, ms ++ [n] <+: Path.names a.root → goal (start d.home a.root) ms <+: a.place d.home ∨
    d.at? (goal (start d.home a.root) ms) = some .folder ∧
      ¬ Under d.home a.clearedFolders (goal (start d.home a.root) ms)

/-- A path without steps up always leads to one place. -/
theorem fixed_of_down (hup : ".." ∉ Path.pieces a.root) (d : Disk) : a.Fixed d := by
  rintro ms n ⟨rest, hrest⟩
  rw [List.append_assoc] at hrest
  have hdown : ".." ∉ [n] ++ rest := fun hm =>
    hup (List.mem_filter.1 (show ".." ∈ Path.names a.root from hrest ▸ List.mem_append_right ms hm)).1
  rw [place, placeAt, ← hrest, goal_append, goal_of_down hdown]
  exact .inl (List.prefix_append _ _)

theorem Fixed.anchors (h : a.Fixed d) : Anchors d a.root := by
  intro q entry hne hat hs
  refine leads_of_forall (fun ms n hp => ?_) hs
  rcases h ms n hp with ⟨rest, hrest⟩ | ⟨hf, -⟩
  · rw [place] at hrest
    rw [← hrest, List.append_assoc] at hat
    exact at?_of_append hat (by simp [hne])
  · exact hf

theorem Fixed.of_folders (h : a.Fixed d) (hh : d'.home = d.home) (hf : ∀ q, ¬ Under d.home a.clearedFolders q →
    d.at? q = some .folder → d'.at? q = some .folder) : a.Fixed d' := by
  intro ms n hp
  rw [hh]
  exact (h ms n hp).imp_right fun ⟨hat, hu⟩ => ⟨hf _ hu hat, hu⟩

theorem Fixed.within (h : a.Fixed d) (hw : Within d d') : a.Fixed d' :=
  h.of_folders hw.home.symm fun q _ => hw.folder q

theorem under_clearedFolders_iff : Under home a.clearedFolders q ↔ ∃ m, (m = "api" ∨ m = "model") ∧ a.place home ++ [m] <+: q := by
  have hapi : placeAt home a.endpointsFolder = a.place home ++ ["api"] := placeAt_child simple_api a home
  have hmodel : placeAt home a.modelsFolder = a.place home ++ ["model"] := placeAt_child simple_model a home
  simp [Under, clearedFolders, hapi, hmodel]

theorem exists_of_mem_clearedFolders (h : path ∈ a.clearedFolders) :
    ∃ m, (m = "api" ∨ m = "model") ∧ path = Path.join a.root m ∧ Simple m := by
  simp only [clearedFolders, List.mem_cons, List.not_mem_nil, or_false] at h
  rcases h with rfl | rfl
  · exact ⟨"api", .inl rfl, rfl, simple_api⟩
  · exact ⟨"model", .inr rfl, rfl, simple_model⟩

theorem placeAt_of_mem_clearedFolders (h : path ∈ a.clearedFolders) (home : Place) :
    ∃ m, (m = "api" ∨ m = "model") ∧ placeAt home path = a.place home ++ [m] := by
  obtain ⟨m, hm, rfl, hs⟩ := exists_of_mem_clearedFolders h
  exact ⟨m, hm, placeAt_child hs a home⟩

theorem placeAt_ne_nil (h : path ∈ a.clearedFolders) (home : Place) : placeAt home path ≠ [] := by
  obtain ⟨m, -, hp⟩ := placeAt_of_mem_clearedFolders h home
  simp [hp]

theorem Fixed.found (h : a.Fixed d) (hp : path ∈ a.clearedFolders) : Found d path := by
  obtain ⟨m, -, rfl, hs⟩ := exists_of_mem_clearedFolders hp
  exact h.anchors.found hs

/-- The path of a fixed archive starts at a folder that stays when it is cleared. -/
theorem Fixed.not_under_start (h : a.Fixed d) : ¬ Under d.home a.clearedFolders (start d.home a.root) := by
  have hbelow : ¬ Under d.home a.clearedFolders (start d.home a.root) ∨ start d.home a.root <+: a.place d.home := by
    cases hn : Path.names a.root with
    | nil =>
      rw [place, placeAt, hn]
      exact .inr (List.prefix_refl _)
    | cons n ns =>
      exact ((h [] n (hn ▸ ⟨ns, rfl⟩)).imp_right (·.2)).symm
  rcases hbelow with hu | hp
  · exact hu
  intro hu
  rw [under_clearedFolders_iff] at hu
  obtain ⟨m, -, hm⟩ := hu
  have hlen := (hm.trans hp).length_le
  rw [List.length_append, List.length_singleton] at hlen
  omega

/-- A path that can be looked for, as far as its text tells. -/
structure Clear (path : String) : Prop where
  usable : Usable path
  short : ∀ n ∈ Path.names path, Short n

/-- The second disk is the first without what stands in some folders. -/
structure Cleared (paths : List String) (d d' : Disk) : Prop where
  home : d'.home = d.home
  locked : d'.locked = d.locked
  gone : ∀ q, Under d.home paths q → d'.at? q = none
  kept : ∀ q, ¬ Under d.home paths q → d'.at? q = d.at? q

variable {paths rest : List String}

theorem Cleared.within (h : Cleared paths d d') : Within d' d := by
  have hkept : ∀ q entry, d'.at? q = some entry → d.at? q = some entry := by
    intro q entry hq
    by_cases hu : Under d.home paths q
    · rw [h.gone q hu] at hq
      cases hq
    · rw [← h.kept q hu, hq]
  exact ⟨h.home, h.locked, fun q hq => hkept q _ hq, fun q text hq => ⟨text, hkept q _ hq⟩⟩

theorem Under.of_subset (h : Under home paths q) (hs : paths ⊆ rest) : Under home rest q := by
  obtain ⟨path, hp, hq⟩ := h
  exact ⟨path, hs hp, hq⟩

theorem Fixed.cleared (h : a.Fixed d) (hs : paths ⊆ a.clearedFolders) (hc : Cleared paths d d') : a.Fixed d' :=
  h.of_folders hc.home fun q hu hq => (hc.kept q fun hp => hu (hp.of_subset hs)).trans hq

theorem under_singleton : Under home [path] q ↔ placeAt home path <+: q := by
  simp [Under]

theorem under_cons : Under home (path :: rest) q ↔ placeAt home path <+: q ∨ Under home rest q := by
  simp [Under]

theorem Cleared.cons {d₁ : Disk} (h : Cleared [path] d d₁) (h' : Cleared rest d₁ d') :
    Cleared (path :: rest) d d' := by
  obtain ⟨hhome, hlocked, hgone, hkept⟩ := h'
  rw [h.home] at hhome hgone hkept
  refine ⟨hhome, hlocked.trans h.locked, fun q hq => ?_, fun q hq => ?_⟩
  · by_cases hr : Under d.home rest q
    · exact hgone q hr
    · rw [hkept q hr]
      exact h.gone q (under_singleton.2 ((under_cons.1 hq).resolve_right hr))
  · rw [under_cons, not_or] at hq
    rw [hkept q hq.2]
    exact h.kept q fun hu => hq.1 (under_singleton.1 hu)

theorem home_removeFolder {r : Except Problem Unit} (h : d.removeFolder path = (r, d')) : d'.home = d.home := by
  unfold removeFolder at h
  split at h <;> obtain ⟨-, rfl⟩ := Prod.mk.inj h <;> rfl

/-- Clearing keeps the home of a disk, also if it fails halfway. -/
theorem home_clearFolders {r : Outcome Unit} (h : clearFolders paths d = (r, d')) : d'.home = d.home := by
  induction paths generalizing d with
  | nil =>
    obtain ⟨-, rfl⟩ := Prod.mk.inj h
    rfl
  | cons path rest ih =>
    unfold clearFolders at h
    split at h
    · split at h
      case h_1 hr => exact (ih h).trans (home_removeFolder hr)
      case h_2 hr =>
        obtain ⟨-, rfl⟩ := Prod.mk.inj h
        exact home_removeFolder hr
    · exact ih h

theorem cleared_erase (h : placeAt d.home path ≠ []) : Cleared [path] d (d.erase (placeAt d.home path)) := by
  have hat := at?_erase d h
  refine ⟨rfl, rfl, fun q hq => ?_, fun q hq => ?_⟩
  · rw [hat, if_pos (under_singleton.1 hq)]
  · rw [hat, if_neg (mt under_singleton.2 hq)]

theorem cleared_self (h : d.at? (placeAt d.home path) = none) : Cleared [path] d d := by
  refine ⟨rfl, rfl, fun q hq => ?_, fun _ _ => rfl⟩
  obtain ⟨rest, rfl⟩ := under_singleton.1 hq
  cases hat : d.at? (placeAt d.home path ++ rest) with
  | none => rfl
  | some entry =>
    by_cases hr : rest = []
    · rw [hr, List.append_nil, h] at hat
      cases hat
    · rw [at?_of_append hat hr] at h
      cases h

theorem Clear.hasEntry (h : Clear path) (hf : Found d path) : d.hasEntry path = (d.at? (placeAt d.home path)).isSome := by
  unfold Disk.hasEntry
  cases hat : d.at? (placeAt d.home path) with
  | some entry =>
    rw [(hf.find_eq_ok_iff h.usable h.short).2 ⟨rfl, hat⟩]
    rfl
  | none =>
    cases hfind : d.find path with
    | error p => rfl
    | ok found =>
      obtain ⟨hplace, hat'⟩ := (hf.find_eq_ok_iff h.usable h.short).1 hfind
      rw [hplace, hat] at hat'
      cases hat'

theorem Clear.removeFolder (h : Clear path) (hf : Found d path) (hd : d.removeFolder path = (.ok (), d')) :
    d' = d.erase (placeAt d.home path) := by
  unfold Disk.removeFolder at hd
  split at hd
  · cases hd
  · cases hd
  case h_3 place hfind =>
    obtain ⟨-, rfl⟩ := Prod.mk.inj hd
    rw [((hf.find_eq_ok_iff h.usable h.short).1 hfind).1]

theorem cleared_clearFolders (hc : ∀ path ∈ paths, Clear path) (hs : paths ⊆ a.clearedFolders) (hf : a.Fixed d)
    (h : clearFolders paths d = (.ok (), d')) : Cleared paths d d' := by
  induction paths generalizing d with
  | nil =>
    obtain ⟨-, rfl⟩ := Prod.mk.inj h
    exact ⟨rfl, rfl, fun q ⟨p, hp, _⟩ => (List.not_mem_nil hp).elim, fun _ _ => rfl⟩
  | cons path rest ih =>
    rw [List.forall_mem_cons] at hc
    rw [List.cons_subset] at hs
    have hfound := hf.found hs.1
    unfold clearFolders at h
    split at h
    case isTrue hentry =>
      split at h
      case h_1 d₁ hr =>
        obtain rfl := hc.1.removeFolder hfound hr
        have herase := cleared_erase (placeAt_ne_nil hs.1 d.home)
        exact herase.cons (ih hc.2 hs.2 (hf.cleared (by simpa using hs.1) herase) h)
      · cases h
    case isFalse hentry =>
      rw [hc.1.hasEntry hfound] at hentry
      exact (cleared_self (by simpa using hentry)).cons (ih hc.2 hs.2 hf h)

/-- Folders without files in their places can be cleared. -/
theorem exists_clearFolders (hc : ∀ path ∈ paths, Clear path) (hs : paths ⊆ a.clearedFolders) (hf : a.Fixed d)
    (ht : ∀ path ∈ paths, d.text? (placeAt d.home path) = none) : ∃ d', clearFolders paths d = (.ok (), d') := by
  induction paths generalizing d with
  | nil => exact ⟨d, rfl⟩
  | cons path rest ih =>
    rw [List.forall_mem_cons] at hc ht
    rw [List.cons_subset] at hs
    have hfound := hf.found hs.1
    unfold clearFolders
    rw [hc.1.hasEntry hfound]
    cases hat : d.at? (placeAt d.home path) with
    | none => exact ih hc.2 hs.2 hf ht.2
    | some entry =>
      have hentry : entry = .folder := by
        cases entry with
        | folder => rfl
        | file text =>
          rw [text?_eq_some_iff.2 hat] at ht
          cases ht.1
      subst hentry
      have hfind := (hfound.find_eq_ok_iff hc.1.usable hc.1.short).2 ⟨rfl, hat⟩
      have hr : d.removeFolder path = (.ok (), d.erase (placeAt d.home path)) := by
        simp only [removeFolder, hfind]
      simp only [Option.isSome_some, if_true, hr]
      have herase := cleared_erase (placeAt_ne_nil hs.1 d.home)
      refine ih hc.2 hs.2 (hf.cleared (by simpa using hs.1) herase) fun p hp' => ?_
      rw [herase.home]
      have hsame := ht.2 p hp'
      by_cases hu : Under d.home [path] (placeAt d.home p)
      · rw [text?, herase.gone _ hu]
      · rwa [text?, herase.kept _ hu]

/-- Where the document of errors is, the folders of endpoints and models can be looked for. -/
theorem clear_of_keeps (h : Keeps d a.errorsPath) : ∀ path ∈ a.clearedFolders, Clear path := by
  have hbegins : a.root.toList <+: a.errorsPath.toList :=
    (Path.join_begins simple_error.isAbsolute a.root).trans
      (Path.join_begins simple_errors.isAbsolute (Path.join a.root "error"))
  have hlen : Text.byteLength a.root.toList + 16 ≤ Text.byteLength a.errorsPath.toList := by
    have h₁ := byteLength_join_ge simple_error.isAbsolute a.root
    have h₂ := byteLength_join_ge simple_errors.isAbsolute (Path.join a.root "error")
    rw [show Text.byteLength "error".toList = 5 by decide] at h₁
    rw [show Text.byteLength "errors.json".toList = 11 by decide] at h₂
    exact Nat.le_trans (by omega) h₂
  have hname : ∀ m, m = "api" ∨ m = "model" → '\x00' ∉ m.toList ∧ Text.byteLength m.toList ≤ 5 ∧ m ≠ "" := by
    rintro m (rfl | rfl) <;> decide
  intro path hpath
  obtain ⟨m, hm, rfl, hs⟩ := exists_of_mem_clearedFolders hpath
  obtain ⟨hnul, hm5, hne⟩ := hname m hm
  refine ⟨⟨fun hc => ?_, ?_, join_ne_empty hne a.root⟩, ?_⟩
  · rcases mem_toList_join hc with hc | hc | hc
    · exact h.usable.no_nul (hbegins.subset hc)
    · cases hc
    · exact hnul hc
  · have := byteLength_join_le a.root m
    have := h.usable.short
    omega
  · rw [hs.names_join]
    intro n hn
    rcases List.mem_append.1 hn with hn | hn
    · exact h.leads.short n (by rw [errorsPath, names_grandchild simple_error simple_errors]; exact List.mem_append_left _ hn)
    · rw [List.mem_singleton.1 hn]
      exact hm5.trans (by decide)

/-! ## Bundles -/

/-- Documents stand in the folders of endpoints and models under simple names only. -/
def Tidy (a : Archive) (d : Disk) : Prop :=
  ∀ m n, m = "api" ∨ m = "model" → d.at? (a.place d.home ++ [m, n]) ≠ none → Simple n

section Reading

variable (had : Anchors d a.root) (hae : Anchors e a.root) (hh : d.home = e.home)
include had hae hh

theorem readable_child_congr (read : Node → Reading α) (hs : Simple m) (hm : m = "api" ∨ m = "model") (hd : a.Tidy d)
    (he : a.Tidy e) (hq : ∀ n, d.text? (a.place d.home ++ [m, n]) = e.text? (a.place d.home ++ [m, n])) :
    readable read (a.below [m]) d = readable read (a.below [m]) e := by
  have hplace : ∀ n, placeAt d.home (a.below [m]) ++ [n] = a.place d.home ++ [m, n] := by
    intro n
    rw [placeAt_child hs, List.append_assoc]
    rfl
  have hne : m ≠ "" := by
    rintro rfl
    exact absurd hs.proper.not_idle (by decide)
  refine readable_congr read (join_ne_empty hne a.root) (had.join hs) (hae.join hs) hh ?_ ?_ ?_
  · intro n
    rw [hplace]
    exact hq n
  · intro n hn
    rw [hplace] at hn
    exact hd m n hm hn
  · intro n hn
    rw [hplace, hh] at hn
    exact he m n hm hn

theorem readEndpoints_congr (hd : a.Tidy d) (he : a.Tidy e)
    (hq : ∀ n, d.text? (a.place d.home ++ ["api", n]) = e.text? (a.place d.home ++ ["api", n])) :
    a.readEndpoints d = a.readEndpoints e := by
  rw [readEndpoints, endpointsFolder, readable_child_congr had hae hh _ simple_api (.inl rfl) hd he hq]
  rfl

theorem readModels_congr (hd : a.Tidy d) (he : a.Tidy e)
    (hq : ∀ n, d.text? (a.place d.home ++ ["model", n]) = e.text? (a.place d.home ++ ["model", n])) :
    a.readModels d = a.readModels e := by
  rw [readModels, modelsFolder, readable_child_congr had hae hh _ simple_model (.inr rfl) hd he hq]
  rfl

theorem readErrors_congr
    (hq : d.text? (a.place d.home ++ ["error", "errors.json"]) = e.text? (a.place d.home ++ ["error", "errors.json"])) :
    a.readErrors d = a.readErrors e := by
  have hvalue : ∀ d, a.readErrors d = (d.value? (Reading.list ErrorGroup.ofNode) a.errorsPath).getD [] := by
    intro d
    unfold readErrors value?
    cases d.readDocument (Reading.list ErrorGroup.ofNode) a.errorsPath <;> rfl
  have hd := found_grandchild had simple_error simple_errors
  have he := found_grandchild hae simple_error simple_errors
  rw [hvalue, hvalue, errorsPath, value?_congr _ hd he hh]
  rwa [placeAt_grandchild simple_error simple_errors]

theorem readErrorResponse_congr
    (hq : d.text? (a.place d.home ++ ["error", "error-response.json"]) =
      e.text? (a.place d.home ++ ["error", "error-response.json"])) :
    a.readErrorResponse d = a.readErrorResponse e := by
  have hvalue : ∀ d, a.readErrorResponse d = d.value? Model.ofNode a.errorResponsePath := by
    intro d
    unfold readErrorResponse value?
    cases d.readDocument Model.ofNode a.errorResponsePath <;> rfl
  have hd := found_grandchild had simple_error simple_errorResponse
  have he := found_grandchild hae simple_error simple_errorResponse
  rw [hvalue, hvalue, errorResponsePath, value?_congr _ hd he hh]
  rwa [placeAt_grandchild simple_error simple_errorResponse]

end Reading

end Archive

end ApiDocs
