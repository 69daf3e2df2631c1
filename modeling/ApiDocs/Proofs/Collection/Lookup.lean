import ApiDocs.Collection.Folder
import ApiDocs.Proofs.Archive
import ApiDocs.Proofs.Collection.Restore
import ApiDocs.Proofs.Disk.Frame
/-!
# What is looked up in a folder

A name is looked up in the documents of a folder, and the first that has it counts, in the order of the uids
(`Kind.First`). So what is found is the first of its name, and a name that is not found has no document
(`Kind.find_eq_some_iff`, `Kind.exists_find`). A document that is written is read back, and all others stay as
they were.
-/
namespace ApiDocs.Collection.Folder

open Disk

variable {α β : Type} {root folder name uid uid' m n : String} {d d' : Disk} {a b : α} {entry : RemoteEntry} {v : Json}

/-! ## Uids -/

/-- A uid that a file can be called after. -/
structure Plain (uid : String) : Prop where
  ne_empty : uid ≠ ""
  no_slash : '/' ∉ uid.toList

theorem Plain.simple (h : Plain uid) : Simple (uid ++ ".json") :=
  simple_json h.no_slash

/-- A document in a folder is called after its uid. -/
theorem plain_of_splitName (hn : Simple n) (h : (Path.splitName n).2 = some "json") :
    Plain (Path.splitName n).1 ∧ n = (Path.splitName n).1 ++ ".json" := by
  obtain ⟨hne, he⟩ := Path.eq_of_splitName h
  have hjson : (Path.splitName n).1 ++ "." ++ "json" = (Path.splitName n).1 ++ ".json" := by
    rw [String.append_assoc]
    rfl
  rw [hjson] at he
  refine ⟨⟨hne, fun hslash => hn.no_slash ?_⟩, he⟩
  rw [he, String.toList_append]
  exact List.mem_append_left _ hslash

theorem slash_ne_digitChar {n : Nat} (h : n < 16) : '/' ≠ Nat.digitChar n := by
  revert n
  decide

theorem slash_not_mem_render (bytes : List UInt8) : '/' ∉ (StableId.render bytes).toList := by
  rw [StableId.render, String.toList_ofList]
  intro h
  obtain ⟨⟨b, i⟩, -, h⟩ := List.mem_flatMap.1 h
  have hhigh := slash_ne_digitChar (Nat.div_lt_of_lt_mul b.toNat_lt : b.toNat / 16 < 16)
  have hlow := slash_ne_digitChar (Nat.mod_lt b.toNat (by decide : 0 < 16))
  simp only at h
  split at h <;> simp [hhigh, hlow] at h

/-- A file can be called after an id. -/
theorem plain_stableId (parts : List String) : Plain (stableId parts) := by
  refine ⟨?_, slash_not_mem_render _⟩
  obtain ⟨b, rest, hb⟩ := List.exists_cons_of_ne_nil
    (show Digest.sha1 (StableId.namespaceBytes ++ (String.join parts).toUTF8.toList) ≠ [] by
      simp [Digest.sha1, Digest.Words.toList, Digest.bigEndian])
  rw [stableId, StableId.ofText, hb]
  simp [StableId.mark, StableId.render, List.zipIdx_cons]

/-! ## Workspaces -/

/-- Documents of a workspace stand under simple names. -/
def SimplyNamed (root : String) (d : Disk) : Prop :=
  ∀ m n, m = "collections" ∨ m = "environments" → d.at? (placeAt d.home root ++ [m, n]) ≠ none → Simple n

/-- Whether a folder can hold a workspace: its path leads to its place, and documents stand under simple names. -/
structure Tidy (root : String) (d : Disk) : Prop where
  anchors : Anchors d root
  simple : SimplyNamed root d

theorem tidy_empty (root : String) : Tidy root .empty := by
  refine ⟨fun q entry hq hne => ?_, fun m n _ hne => ?_⟩
  · simp [Disk.at?, Disk.lookUp, Disk.empty, Pairs.get?, placeAt, hq] at hne
  · simp [Disk.at?, Disk.lookUp, Disk.empty, Pairs.get?] at hne

/-- A kind of documents: the folder that they stand in, how they are read and written, and what they are found as. -/
structure Kind (α : Type) where
  folder : String
  read : Node → Reading α
  toJson : α → Json
  entryOf : String → α → RemoteEntry
  nameOf : α → String
  known : folder = "collections" ∨ folder = "environments"
  name_entryOf : ∀ uid a, (entryOf uid a).name = nameOf a

def collectionKind : Kind Collection where
  folder := "collections"
  read := Collection.ofNode
  toJson := Collection.toJson
  entryOf := collectionEntry
  nameOf c := c.info.name
  known := .inl rfl
  name_entryOf _ _ := rfl

def environmentKind : Kind Environment where
  folder := "environments"
  read := Environment.ofNode
  toJson := Environment.toJson
  entryOf := environmentEntry
  nameOf := Environment.name
  known := .inr rfl
  name_entryOf _ _ := rfl

/-- What is listed in a folder: the documents in it with their uids, in order. -/
theorem listed_of_find (hs : ∀ n, d.at? (placeAt d.home folder ++ [n]) ≠ none → Simple n)
    (hf : d.find folder = .ok (placeAt d.home folder, .folder)) :
    ∃ documents, listed folder d = .ok documents ∧ (documents.map Prod.fst).Pairwise (· ≤ ·) ∧
      ∀ x, x ∈ documents ↔ Plain x.1 ∧ x.2 = documentPath folder x.1 ∧
        d.at? (placeAt d.home folder ++ [x.1 ++ ".json"]) ≠ none := by
  have hentry : d.hasEntry folder = true := by rw [hasEntry, hf]
  have hlist : d.documentsIn folder =
      .ok (((d.listing (placeAt d.home folder)).filter fun n => (Path.splitName n).2 == some "json").map (Path.join folder)) := by
    simp only [documentsIn, Disk.list, hf]
    rfl
  refine ⟨_, by rw [listed, if_pos hentry, hlist], ordered_mergeSort Prod.fst _, fun x => ?_⟩
  have huid : ∀ n, Simple n → (Path.fileName? (Path.join folder n)).getD "" = n := by
    intro n hn
    obtain ⟨ps, hp⟩ := hn.pieces_join folder
    rw [Path.fileName?_of_last hp hn.proper.not_idle hn.proper.not_up, Option.getD_some]
  simp only [List.mem_mergeSort, List.map_map, List.mem_map, List.mem_filter, Function.comp_apply, beq_iff_eq, mem_listing]
  constructor
  · rintro ⟨n, ⟨hat, hjson⟩, rfl⟩
    obtain ⟨hplain, hn⟩ := plain_of_splitName (hs n hat) hjson
    simp only [huid n (hs n hat)]
    exact ⟨hplain, by rw [documentPath, ← hn], by rwa [← hn]⟩
  · rintro ⟨hplain, hpath, hat⟩
    refine ⟨x.1 ++ ".json", ⟨hat, by rw [Path.splitName_json hplain.ne_empty]⟩, ?_⟩
    rw [huid _ hplain.simple, Path.splitName_json hplain.ne_empty]
    exact Prod.ext rfl hpath.symm

namespace Kind

variable {k : Kind α} {k' : Kind β}

theorem simple (k : Kind α) : Simple k.folder := by
  rcases k.known with h | h
  all_goals
    rw [h]
    exact ⟨⟨by decide, by decide⟩, by decide⟩

/-- The path of a document of a workspace. -/
def path (k : Kind α) (root uid : String) : String :=
  documentPath (Path.join root k.folder) uid

/-- The document of a workspace under a uid. -/
def document? (k : Kind α) (root : String) (d : Disk) (uid : String) : Option α :=
  d.value? k.read (k.path root uid)

/-- What is found of a name in a workspace. -/
def find (k : Kind α) (root name : String) (d : Disk) : Outcome (Option RemoteEntry) :=
  Folder.find k.read k.entryOf (Path.join root k.folder) name d

/-- Whether a document is the first of its kind that has a name. -/
structure First (k : Kind α) (root name : String) (d : Disk) (uid : String) (a : α) : Prop where
  plain : Plain uid
  document : k.document? root d uid = some a
  name_eq : k.nameOf a = name
  least : ∀ uid' b, Plain uid' → k.document? root d uid' = some b → k.nameOf b = name → uid ≤ uid'

theorem First.unique (h : k.First root name d uid a) (h' : k.First root name d uid' b) : uid = uid' ∧ a = b := by
  obtain rfl : uid = uid' := String.le_antisymm (h.least uid' b h'.plain h'.document h'.name_eq)
    (h'.least uid a h.plain h.document h.name_eq)
  exact ⟨rfl, Option.some.inj (h.document.symm.trans h'.document)⟩

theorem placeAt_path (k : Kind α) (hu : Plain uid) (root : String) (home : Place) :
    placeAt home (k.path root uid) = placeAt home root ++ [k.folder, uid ++ ".json"] := by
  rw [path, documentPath, placeAt_join hu.simple, placeAt_join k.simple, List.append_assoc]
  rfl

/-! ## Finding -/

theorem simple_of_simplyNamed (k : Kind α) (h : SimplyNamed root d) :
    ∀ n, d.at? (placeAt d.home (Path.join root k.folder) ++ [n]) ≠ none → Simple n := by
  intro n hn
  rw [placeAt_join k.simple, List.append_assoc] at hn
  exact h k.folder n k.known hn

theorem folder_ne_empty (k : Kind α) (root : String) : Path.join root k.folder ≠ "" :=
  Archive.join_ne_empty (by rintro he; exact absurd k.simple.proper.not_idle (by rw [he]; decide)) root

/-- Where a document is read, something stands at its place. -/
theorem at?_of_document? (hu : Plain uid) (ha : k.document? root d uid = some a) :
    d.at? (placeAt d.home (Path.join root k.folder) ++ [uid ++ ".json"]) ≠ none := by
  obtain ⟨-, -, htext⟩ := Archive.text?_of_value? ha
  rw [path, documentPath, placeAt_join hu.simple] at htext
  intro hnone
  simp [text?, hnone] at htext

/-- What a listed document is found as. -/
def found? (k : Kind α) (name : String) (d : Disk) (x : String × String) : Option RemoteEntry :=
  match d.readDocument k.read x.2 with
  | .ok a => if (k.entryOf x.1 a).name = name then some (k.entryOf x.1 a) else none
  | .error _ => none

theorem find_eq (k : Kind α) (root name : String) (d : Disk) : k.find root name d =
    (listed (Path.join root k.folder) d).map fun documents => documents.findSome? (k.found? name d) :=
  rfl

theorem found?_eq_some_iff : k.found? name d (uid, k.path root uid) = some entry ↔
    ∃ a, k.document? root d uid = some a ∧ k.nameOf a = name ∧ entry = k.entryOf uid a := by
  simp only [found?, document?, value?_eq_some_iff]
  cases d.readDocument k.read (k.path root uid) with
  | error fault => simp
  | ok a => simp [k.name_entryOf, eq_comm]

/-- What has a name is found. -/
theorem exists_find (h : SimplyNamed root d) (hu : Plain uid) (ha : k.document? root d uid = some a) (hn : k.nameOf a = name) :
    ∃ entry, k.find root name d = .ok (some entry) := by
  have hf := Archive.find_of_value? (k.folder_ne_empty root) hu.simple ha
  obtain ⟨documents, hlisted, -, hmem⟩ := listed_of_find (k.simple_of_simplyNamed h) hf
  have hx : (uid, k.path root uid) ∈ documents := (hmem _).2 ⟨hu, rfl, at?_of_document? hu ha⟩
  have hsome : documents.findSome? (k.found? name d) ≠ none := fun hnone => by
    have := List.findSome?_eq_none_iff.1 hnone _ hx
    rw [found?_eq_some_iff.2 ⟨a, ha, hn, rfl⟩] at this
    cases this
  obtain ⟨entry, he⟩ := Option.ne_none_iff_exists'.1 hsome
  exact ⟨entry, by rw [find_eq, hlisted, Except.map, he]⟩

/-- What is found is the first of its name. -/
theorem exists_first_of_find (hs : SimplyNamed root d) (h : k.find root name d = .ok (some entry)) :
    ∃ uid a, k.First root name d uid a ∧ entry = k.entryOf uid a := by
  rw [find_eq] at h
  by_cases hf : d.find (Path.join root k.folder) = .ok (placeAt d.home (Path.join root k.folder), .folder)
  · obtain ⟨documents, hlisted, hordered, hmem⟩ := listed_of_find (k.simple_of_simplyNamed hs) hf
    rw [hlisted, Except.map, Except.ok.injEq, List.findSome?_eq_some_iff] at h
    obtain ⟨before, ⟨uid, path⟩, after, rfl, hfound, hbefore⟩ := h
    obtain ⟨hplain, hpath, -⟩ := (hmem (uid, path)).1 (by simp)
    obtain rfl : path = k.path root uid := hpath
    obtain ⟨a, ha, hname, rfl⟩ := found?_eq_some_iff.1 hfound
    refine ⟨uid, a, ⟨hplain, ha, hname, fun uid' b hplain' hb hname' => ?_⟩, rfl⟩
    have hx : (uid', k.path root uid') ∈ before ++ (uid, k.path root uid) :: after :=
      (hmem _).2 ⟨hplain', rfl, at?_of_document? hplain' hb⟩
    rcases List.mem_append.1 hx with hx | hx
    · have hnone := hbefore _ hx
      rw [found?_eq_some_iff.2 ⟨b, hb, hname', rfl⟩] at hnone
      cases hnone
    · rcases List.mem_cons.1 hx with hx | hx
      · obtain ⟨rfl, -⟩ := Prod.mk.inj hx
        exact String.le_refl _
      · rw [List.map_append, List.map_cons, List.pairwise_append, List.pairwise_cons] at hordered
        exact hordered.2.1.1 uid' (List.mem_map_of_mem hx)
  · -- A folder that cannot be listed has no documents.
    obtain ⟨p, hp⟩ := Archive.exists_documentsIn_error hf
    rw [listed, hp] at h
    split at h <;> cases h

theorem find_eq_some_iff (hs : SimplyNamed root d) : k.find root name d = .ok (some entry) ↔
    ∃ uid a, k.First root name d uid a ∧ entry = k.entryOf uid a := by
  refine ⟨exists_first_of_find hs, ?_⟩
  rintro ⟨uid, a, h, rfl⟩
  obtain ⟨entry, he⟩ := exists_find hs h.plain h.document h.name_eq
  obtain ⟨uid', b, h', rfl⟩ := exists_first_of_find hs he
  obtain ⟨rfl, rfl⟩ := h.unique h'
  exact he

/-! ## Writing -/

theorem isDocument_path (k : Kind α) (root uid : String) : IsDocument (k.path root uid) :=
  (isDocument_json uid).join _

theorem found_path (k : Kind α) (h : Tidy root d) (hu : Plain uid) : Found d (k.path root uid) :=
  (h.anchors.join k.simple).found hu.simple

theorem names_path (k : Kind α) (hu : Plain uid) (root : String) :
    Path.names (k.path root uid) = Path.names root ++ [k.folder, uid ++ ".json"] := by
  rw [path, documentPath, hu.simple.names_join, k.simple.names_join, List.append_assoc]
  rfl

theorem start_path (k : Kind α) (hu : Plain uid) (root : String) (home : Place) :
    start home (k.path root uid) = start home root := by
  rw [path, documentPath, hu.simple.start_join, k.simple.start_join]

section Written

variable (hu : Plain uid) (hw : d.writeDocument (k.path root uid) v = (.ok (), d'))

include hw in
theorem written : Written (k.path root uid) (v.pretty ++ "\n") d d' :=
  written_of_isDocument (k.isDocument_path root uid) hw

include hu hw in
/-- A workspace stays tidy when a document is written to it. -/
theorem tidy_of_writeDocument (h : Tidy root d) : Tidy root d' := by
  have hwritten := written hw
  refine ⟨fun q entry _ _ _ => ?_, fun m n hm hn => ?_⟩
  · have hl := hwritten.leads
    rw [k.names_path hu, k.start_path hu, ← hwritten.home] at hl
    exact (leads_append.1 hl).1
  · rw [hwritten.home] at hn
    by_cases hold : d.at? (placeAt d.home root ++ [m, n]) = none
    · have hplace : placeAt d.home root ++ [m, n] = (placeAt d.home root ++ [m]) ++ [n] := by simp
      rw [hplace] at hold hn
      exact (frame_writeDocument (k.isDocument_path root uid) hw).simple _ n hold hn
    · exact h.simple m n hm hold

include hw in
/-- What was written is read back. -/
theorem document?_of_writeDocument (hv : v.Within Json.maxDepth) (ha : k.read (.ofJson v) = .ok a) :
    k.document? root d' uid = some a := by
  rw [document?, value?_eq_some_iff, readDocument_eq_ok_iff]
  exact ⟨_, (written hw).readText (k.isDocument_path root uid), by rw [Json.read_document hv, Option.map_some, ha]⟩

include hu hw in
/-- Any other document stays as it was. -/
theorem document?_of_ne (ht : Tidy root d) (hu' : Plain uid') (hne : k'.folder = k.folder → uid' ≠ uid) :
    k'.document? root d' uid' = k'.document? root d uid' := by
  have hwritten := written hw
  refine (value?_congr _ (k'.found_path ht hu') (k'.found_path (tidy_of_writeDocument hu hw ht) hu')
    hwritten.home.symm ?_).symm
  rw [hwritten.text?, if_neg]
  rw [k'.placeAt_path hu', k.placeAt_path hu]
  simpa using hne

end Written

/-- What is first under its name stays so when a document of another name is written to another uid. -/
theorem First.of_writeDocument {b : β} (h : k'.First root name d uid' b) (ht : Tidy root d) (hu : Plain uid)
    (hw : d.writeDocument (k.path root uid) v = (.ok (), d'))
    (hne : k'.folder = k.folder → uid' ≠ uid ∧ ∀ c, k'.document? root d' uid = some c → k'.nameOf c ≠ name) :
    k'.First root name d' uid' b := by
  refine ⟨h.plain, ?_, h.name_eq, fun u c hu' hc hname => ?_⟩
  · rw [document?_of_ne hu hw ht h.plain fun hf => (hne hf).1]
    exact h.document
  · -- The document that was written is the only one that could come before it now.
    by_cases hsame : k'.folder = k.folder ∧ u = uid
    · obtain ⟨hf, rfl⟩ := hsame
      exact absurd hname ((hne hf).2 c hc)
    · rw [document?_of_ne hu hw ht hu' fun hf he => hsame ⟨hf, he⟩] at hc
      exact h.least u c hu' hc hname

/-- A document that is written is the first of its name, if none of that name stood before it. -/
theorem first_of_writeDocument (ht : Tidy root d) (hu : Plain uid)
    (hw : d.writeDocument (k.path root uid) v = (.ok (), d')) (hv : v.Within Json.maxDepth)
    (ha : k.read (.ofJson v) = .ok a) (hname : k.nameOf a = name)
    (hold : ∀ u c, Plain u → k.document? root d u = some c → k.nameOf c = name → uid ≤ u) :
    k.First root name d' uid a := by
  refine ⟨hu, document?_of_writeDocument hw hv ha, hname, fun u c hu' hc hn => ?_⟩
  by_cases he : u = uid
  · obtain rfl := he
    exact String.le_refl _
  · rw [document?_of_ne hu hw ht hu' fun _ => he] at hc
    exact hold u c hu' hc hn

/-- A document that is there is found at its path. -/
theorem hasEntry_of_document? (ha : k.document? root d uid = some a) : d.hasEntry (k.path root uid) = true := by
  obtain ⟨text, hf⟩ := Archive.exists_find_of_value? ha
  rw [hasEntry, hf]

end Kind

end ApiDocs.Collection.Folder
