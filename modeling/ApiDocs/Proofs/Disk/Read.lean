import ApiDocs.Proofs.Disk.Documents
import Mathlib.Data.List.Nodup
/-!
# Reading documents

What is read at a path, and in a folder, depends on nothing but the texts that stand there, as long as the
path leads to its place whenever anything stands at it (`Found`). So do the paths below a folder that is
reached whenever anything stands in it (`Anchors`).
-/
namespace ApiDocs.Disk

variable {d e : Disk} {here place q : Place} {n path folder text : String} {ns ps : List String}

/-! ## One document -/

theorem Leads.short (h : Leads d here ns) : ∀ n ∈ ns, Short n := by
  induction h with
  | done => simp
  | step _ hn _ ih => exact List.forall_mem_cons.2 ⟨hn, ih⟩

/-- Names lead on as long as folders stand on their way. -/
theorem leads_of_forall (hf : ∀ ms n, ms ++ [n] <+: ns → d.at? (goal here ms) = some .folder) (hs : ∀ n ∈ ns, Short n) :
    Leads d here ns := by
  induction ns generalizing here with
  | nil => exact .done
  | cons n ns ih =>
    rw [List.forall_mem_cons] at hs
    refine .step (hf [] n ⟨ns, rfl⟩) hs.1 (ih (fun ms m hp => ?_) hs.2)
    exact hf (n :: ms) m (by simpa using hp)

/-- Whatever stands at the place of a path is found at the path, if its names are not too long. -/
def Found (d : Disk) (path : String) : Prop :=
  ∀ entry, d.at? (placeAt d.home path) = some entry → (∀ n ∈ Path.names path, Short n) →
    Leads d (start d.home path) (Path.pieces path)

/-- A path leads to its place if anything stands below that. -/
def Anchors (d : Disk) (folder : String) : Prop :=
  ∀ q entry, q ≠ [] → d.at? (placeAt d.home folder ++ q) = some entry → (∀ n ∈ Path.names folder, Short n) →
    Leads d (start d.home folder) (Path.names folder)

theorem readText_eq_ok_iff : d.readText path = .ok text ↔ Usable path ∧ Leads d (start d.home path) (Path.pieces path) ∧
    d.text? (placeAt d.home path) = some text := by
  rw [text?_eq_some_iff, ← goal_pieces]
  unfold readText
  constructor
  · intro h
    split at h
    · cases h
    · cases h
    case h_3 place t hfind =>
      obtain ⟨hu, hl, rfl, hat⟩ := find_eq_ok_iff.1 hfind
      obtain rfl := Except.ok.inj h
      exact ⟨hu, hl, hat⟩
  · rintro ⟨hu, hl, hat⟩
    rw [find_eq_ok_iff.2 ⟨hu, hl, rfl, hat⟩]

theorem Keeps.at?_start (hd : IsDocument path) (h : Keeps d path) : d.at? (start d.home path) = some .folder := by
  obtain ⟨ps, n, hp⟩ := hd
  exact h.leads.head (by simp [names_of_last hp (proper_json n).not_idle])

/-- A document that stands at a path can be reached. -/
theorem Keeps.leads_pieces (hd : IsDocument path) (h : Keeps d path) : Leads d (start d.home path) (Path.pieces path) := by
  have hs := h.at?_start hd
  obtain ⟨ps, n, hp⟩ := hd
  exact .of_trimmed (.inr ⟨ps, _, hp, (proper_json n).not_idle⟩) h.leads hs

/-- A document that stands at a path can be written again. -/
theorem Keeps.writeDocument (hd : IsDocument path) (h : Keeps d path) (v : Json) :
    ∃ d', d.writeDocument path v = (.ok (), d') := by
  have hs := h.at?_start hd
  obtain ⟨ps, n, hp⟩ := hd
  have hopen : Open d d := fun q hq hne => absurd hq hne
  exact writeDocument_again hp (proper_json n) (.refl d) hopen h hs v

/-- A document that stands at a path can be read. -/
theorem Keeps.readText (hd : IsDocument path) (h : Keeps d path) (ht : d.text? (placeAt d.home path) = some text) :
    d.readText path = .ok text :=
  readText_eq_ok_iff.2 ⟨h.usable, h.leads_pieces hd, ht⟩

/-- A document that was written can be read. -/
theorem Written.readText {d' : Disk} (hd : IsDocument path) (h : Written path text d d') : d'.readText path = .ok text :=
  h.keeps.readText hd (by rw [h.text?, h.home, if_pos rfl])

theorem readText_mono (he : Found e path) (hh : d.home = e.home)
    (hq : d.text? (placeAt d.home path) = e.text? (placeAt d.home path)) (h : d.readText path = .ok text) :
    e.readText path = .ok text := by
  rw [readText_eq_ok_iff] at h ⊢
  obtain ⟨hu, hl, ht⟩ := h
  rw [hq, hh] at ht
  exact ⟨hu, he _ (text?_eq_some_iff.1 ht) hl.named.short, ht⟩

/-- What is read at a path depends on the text at its place. -/
theorem readText_congr (hd : Found d path) (he : Found e path) (hh : d.home = e.home)
    (hq : d.text? (placeAt d.home path) = e.text? (placeAt d.home path)) :
    d.readText path = .ok text ↔ e.readText path = .ok text :=
  ⟨readText_mono he hh hq, readText_mono hd hh.symm (hh ▸ hq.symm)⟩

theorem readDocument_eq_ok_iff {α : Type} {read : Node → Reading α} {a : α} :
    d.readDocument read path = .ok a ↔ ∃ text, d.readText path = .ok text ∧ (Json.read text).map read = some (.ok a) := by
  unfold readDocument
  constructor
  · intro h
    split at h
    · cases h
    case h_2 text ht =>
      refine ⟨text, ht, ?_⟩
      split at h
      case h_1 b hb => rw [hb, Except.ok.inj h]
      · cases h
      · cases h
  · rintro ⟨text, ht, ha⟩
    simp only [ht, ha]

/-- The value of the document at a path, if there is one. -/
def value? {α : Type} (read : Node → Reading α) (path : String) (d : Disk) : Option α :=
  match d.readDocument read path with
  | .ok a => some a
  | .error _ => none

theorem value?_eq_some_iff {α : Type} {read : Node → Reading α} {a : α} :
    d.value? read path = some a ↔ d.readDocument read path = .ok a := by
  unfold value?
  split
  case h_1 b hb => simp [hb]
  case h_2 hb => simp [hb]

theorem value?_congr {α : Type} (read : Node → Reading α) (hd : Found d path) (he : Found e path) (hh : d.home = e.home)
    (hq : d.text? (placeAt d.home path) = e.text? (placeAt d.home path)) : d.value? read path = e.value? read path := by
  refine Option.ext fun a => ?_
  rw [value?_eq_some_iff, value?_eq_some_iff, readDocument_eq_ok_iff, readDocument_eq_ok_iff]
  simp only [readText_congr hd he hh hq]

/-! ## The names in a folder -/

/-- The names in a folder in order. -/
def listing (d : Disk) (place : Place) : List String :=
  (d.namesIn place).mergeSort fun a b => !(b < a)

theorem namesIn_eq (d : Disk) (place : Place) :
    d.namesIn place = (Pairs.keys d.entries).filterMap fun q => if q.dropLast = place then q.getLast? else none := by
  rw [namesIn, Pairs.keys, List.filterMap_map]
  rfl

theorem getLast?_eq_some_iff_of_dropLast : (if q.dropLast = place then q.getLast? else none) = some n ↔ q = place ++ [n] := by
  constructor
  · intro h
    split at h
    case isTrue hp =>
      obtain ⟨ms, rfl⟩ := List.getLast?_eq_some_iff.1 h
      rw [List.dropLast_concat] at hp
      rw [hp]
    · cases h
  · rintro rfl
    simp

theorem nodup_namesIn (d : Disk) (place : Place) : (d.namesIn place).Nodup := by
  rw [namesIn_eq]
  refine d.distinct.filterMap fun q q' n hq hq' => ?_
  rw [Option.mem_def, getLast?_eq_some_iff_of_dropLast] at hq hq'
  rw [hq, hq']

theorem mem_namesIn : n ∈ d.namesIn place ↔ d.at? (place ++ [n]) ≠ none := by
  rw [namesIn_eq, List.mem_filterMap]
  simp only [getLast?_eq_some_iff_of_dropLast, exists_eq_right, at?, lookUp, List.append_eq_nil_iff, List.cons_ne_nil,
    and_false, if_false, ne_eq, Pairs.get?_eq_none_iff, not_not]

theorem mem_listing : n ∈ d.listing place ↔ d.at? (place ++ [n]) ≠ none := by
  rw [listing, List.mem_mergeSort, mem_namesIn]

/-- What is sorted by its names has them in order. -/
theorem ordered_mergeSort {β : Type} (name : β → String) (bs : List β) :
    ((bs.mergeSort fun a b => !(name b < name a)).map name).Pairwise (· ≤ ·) := by
  have hsorted : (bs.mergeSort fun a b => !(name b < name a)).Pairwise fun a b => (!(decide (name b < name a))) = true := by
    refine List.pairwise_mergeSort ?_ ?_ _
    · intro a b c hab hbc
      simp only [Bool.not_eq_true', decide_eq_false_iff_not, String.not_lt] at hab hbc ⊢
      exact String.le_trans hab hbc
    · intro a b
      simp only [Bool.or_eq_true, Bool.not_eq_true', decide_eq_false_iff_not, String.not_lt]
      exact String.le_total _ _
  refine List.pairwise_map.2 (hsorted.imp fun h => ?_)
  simpa only [Bool.not_eq_true', decide_eq_false_iff_not, String.not_lt] using h

theorem ordered_listing (d : Disk) (place : Place) : (d.listing place).Pairwise (· ≤ ·) := by
  have h := ordered_mergeSort id (d.namesIn place)
  rwa [List.map_id] at h

theorem nodup_listing (d : Disk) (place : Place) : (d.listing place).Nodup :=
  (List.mergeSort_perm _ _).nodup_iff.2 (nodup_namesIn d place)

/-- Names in order, each of them once, are determined by which they are. -/
theorem eq_of_ordered {ns ms : List String} (hs : ns.Pairwise (· ≤ ·)) (hs' : ms.Pairwise (· ≤ ·)) (hn : ns.Nodup)
    (hn' : ms.Nodup) (h : ∀ n, n ∈ ns ↔ n ∈ ms) : ns = ms :=
  ((List.perm_ext_iff_of_nodup hn hn').2 h).eq_of_pairwise (fun _ _ _ _ hab hba => String.le_antisymm hab hba) hs hs'

/-- The names of the files in a folder, in order. -/
def files (d : Disk) (place : Place) : List String :=
  (d.listing place).filter fun n => (d.text? (place ++ [n])).isSome

theorem mem_files : n ∈ d.files place ↔ (d.text? (place ++ [n])).isSome = true := by
  rw [files, List.mem_filter, mem_listing, and_iff_right_iff_imp]
  intro hn
  obtain ⟨text, ht⟩ := Option.isSome_iff_exists.1 hn
  simp [text?_eq_some_iff.1 ht]

theorem files_eq_iff {ns : List String} (hs : ns.Pairwise (· ≤ ·)) (hn : ns.Nodup) :
    d.files place = ns ↔ ∀ n, (d.text? (place ++ [n])).isSome = true ↔ n ∈ ns := by
  simp only [← mem_files]
  constructor
  · rintro rfl n
    exact Iff.rfl
  · exact eq_of_ordered ((ordered_listing d place).filter _) hs ((nodup_listing d place).filter _) hn

theorem files_congr (h : ∀ n, d.text? (place ++ [n]) = e.text? (place ++ [n])) : d.files place = e.files place := by
  refine (files_eq_iff ((ordered_listing e place).filter _) ((nodup_listing e place).filter _)).2 fun n => ?_
  rw [h n]
  exact mem_files.symm

/-! ## Paths below folders -/

/-- A name that can be joined to a path as it is. -/
structure Simple (n : String) : Prop where
  proper : Proper n
  no_slash : '/' ∉ n.toList

variable {entry : Entry}

theorem simple_json (h : '/' ∉ n.toList) : Simple (n ++ ".json") :=
  ⟨proper_json n, by simp [h]⟩

theorem Simple.isAbsolute (h : Simple n) : Path.isAbsolute n = false := by
  rw [← Bool.not_eq_true, Path.isAbsolute_iff]
  exact fun hh => h.no_slash (List.mem_of_mem_head? hh)

theorem Simple.names (h : Simple n) : Path.names n = [n] := by
  rw [Path.names, Path.pieces_of_not_mem h.no_slash, Path.named_cons_of_not_idle h.proper.not_idle]
  rfl

theorem Simple.names_join (h : Simple n) (folder : String) : Path.names (Path.join folder n) = Path.names folder ++ [n] := by
  rw [Path.names_join h.isAbsolute, h.names]

theorem Simple.start_join (h : Simple n) (home : Place) (folder : String) :
    start home (Path.join folder n) = start home folder := by
  rw [start, start, Path.isAbsolute_join h.isAbsolute]

theorem placeAt_join (h : Simple n) (home : Place) (folder : String) :
    placeAt home (Path.join folder n) = placeAt home folder ++ [n] := by
  rw [placeAt, h.names_join, h.start_join, goal_append]
  exact h.proper.walk _

theorem Simple.pieces_join (h : Simple n) (folder : String) :
    ∃ ps, Path.pieces (Path.join folder n) = ps ++ [n] := by
  obtain ⟨lead, -, hp⟩ := Path.pieces_join_folder h.isAbsolute folder
  exact ⟨lead, by rw [hp, Path.pieces_of_not_mem h.no_slash]⟩

theorem Anchors.leads_join (h : Anchors d folder) (hs : Simple n) (hat : d.at? (placeAt d.home folder ++ n :: q) = some entry)
    (hshort : ∀ m ∈ Path.names (Path.join folder n), Short m) :
    Leads d (start d.home (Path.join folder n)) (Path.names (Path.join folder n)) := by
  rw [hs.names_join, List.forall_mem_append] at hshort
  rw [hs.names_join, hs.start_join, leads_append]
  exact ⟨h _ _ (by simp) hat hshort.1, .step (at?_of_append hat (by simp)) (hshort.2 n (by simp)) .done⟩

theorem Anchors.join (h : Anchors d folder) (hs : Simple n) : Anchors d (Path.join folder n) := by
  intro q entry hq hat
  rw [placeAt_join hs, List.append_assoc] at hat
  exact h.leads_join hs hat

theorem Anchors.found (h : Anchors d folder) (hs : Simple n) : Found d (Path.join folder n) := by
  intro entry hat hshort
  rw [placeAt_join hs] at hat
  have hl := h.leads_join hs hat hshort
  obtain ⟨ps, hp⟩ := hs.pieces_join folder
  exact .of_trimmed (.inr ⟨ps, n, hp, hs.proper.not_idle⟩) hl (hl.head (by simp [hs.names_join]))

/-- Such a path leads to whatever stands at its place, if its text and its names are not too long. -/
theorem Found.find_eq_ok_iff (h : Found d path) (hu : Usable path) (hs : ∀ n ∈ Path.names path, Short n) :
    d.find path = .ok (place, entry) ↔ place = placeAt d.home path ∧ d.at? place = some entry := by
  rw [Disk.find_eq_ok_iff, goal_pieces]
  constructor
  · rintro ⟨-, -, hp, hat⟩
    exact ⟨hp, hat⟩
  · rintro ⟨rfl, hat⟩
    exact ⟨hu, h _ hat hs, rfl, hat⟩

/-! ## The names that writes bring -/

/-- The folders on the way to a place have simple names. -/
theorem OnWay.simple (h : OnWay here (Path.names path).dropLast (place ++ [n])) : Simple n := by
  obtain ⟨ms, m, hpre, hproper, hg⟩ := h
  obtain ⟨-, rfl⟩ := List.append_singleton_inj.1 hg
  have hmem : n ∈ Path.names path := (List.dropLast_sublist _).subset (hpre.subset (by simp))
  exact ⟨hproper, Path.not_mem_of_mem_pieces (List.mem_filter.1 hmem).1⟩

theorem IsDocument.simple {home : Place} (h : IsDocument path) (hp : place ++ [n] = Disk.placeAt home path) : Simple n := by
  obtain ⟨ps, m, hpieces⟩ := h
  have hmem : m ++ ".json" ∈ Path.pieces path := by simp [hpieces]
  obtain ⟨-, rfl⟩ := List.append_singleton_inj.1 (hp.trans (placeAt_of_last hpieces (proper_json m) home))
  exact ⟨proper_json m, Path.not_mem_of_mem_pieces hmem⟩

/-- What documents bring to a disk stands under simple names. -/
theorem WritesAll.simple_of_new {docs : List (String × Json)} (hd : ∀ p ∈ docs, IsDocument p.1) (h : WritesAll docs d e)
    (hnone : d.at? (place ++ [n]) = none) (hne : e.at? (place ++ [n]) ≠ none) : Simple n := by
  obtain ⟨p, hp, hg | hway⟩ := h.new hd hnone hne
  · exact (hd p hp).simple hg
  · exact hway.simple

end ApiDocs.Disk
