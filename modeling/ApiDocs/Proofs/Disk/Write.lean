import ApiDocs.Disk.Document
import ApiDocs.Proofs.Disk.Follow
/-!
# Writing documents

What a write leaves on a disk (`Written`): the document at its place, new folders on the way to it, and
everything else as it was. A write that a disk took is taken again by every disk that has part of what
stands there then (`Within`), where nothing that is missing is locked (`Open`).
-/
namespace ApiDocs.Disk

/-- The places below which names make folders on their way. -/
def OnWay (here : Place) (ns : List String) (q : Place) : Prop :=
  ∃ ms n, ms ++ [n] <+: ns ∧ Proper n ∧ q = goal here ms ++ [n]

/-- The second disk is the first with new folders, which stand at places with `way`. -/
structure Grown (way : Place → Prop) (d d' : Disk) : Prop where
  home : d'.home = d.home
  locked : d'.locked = d.locked
  at? : ∀ q, d'.at? q = d.at? q ∨ d.at? q = none ∧ d'.at? q = some .folder ∧ d.locked q = false ∧ way q

/-- A path leads to a folder. -/
structure Reaches (d : Disk) (path : String) : Prop where
  leads : Leads d (start d.home path) (Path.names path)
  folder : d.at? (placeAt d.home path) = some .folder

/-- What comes of one folder: it is made or is there already, or it is refused and the disk stays as it is. -/
inductive Tried (path : String) (d : Disk) : Except Problem Unit → Disk → Prop where
  | made {d' : Disk} (h : d.makeFolder path = (.ok (), d')) : Tried path d (.ok ()) d'
  | there (h : d.hasFolder path = true) : Tried path d (.ok ()) d
  | refused (p : Problem) : Tried path d (.error p) d

/-- What stands on the first disk stands on the second, where files may have other texts. -/
structure Within (S T : Disk) : Prop where
  home : S.home = T.home
  locked : S.locked = T.locked
  folder : ∀ q, S.at? q = some .folder → T.at? q = some .folder
  file : ∀ q text, S.at? q = some (.file text) → ∃ text', T.at? q = some (.file text')

/-- Nothing that the first disk lacks and the second has is locked. -/
def Open (S T : Disk) : Prop :=
  ∀ q, S.at? q = none → T.at? q ≠ none → T.locked q = false

variable {d d' d₁ S S' T : Disk} {here home place q : Place} {n path above : String} {ns ms ps : List String} {e : Entry}
  {way way' : Place → Prop} {r : Except Problem Unit}

/-! ## Disks that grow -/

theorem Grown.refl (way : Place → Prop) (d : Disk) : Grown way d d :=
  ⟨rfl, rfl, fun _ => .inl rfl⟩

theorem Grown.mono (h : Grown way d d') (hw : ∀ q, way q → way' q) : Grown way' d d' :=
  ⟨h.home, h.locked, fun q => (h.at? q).imp_right fun ⟨h₁, h₂, h₃, h₄⟩ => ⟨h₁, h₂, h₃, hw q h₄⟩⟩

theorem Grown.folder (h : Grown way d d') (hq : d.at? q = some .folder) : d'.at? q = some .folder := by
  rcases h.at? q with he | ⟨-, he, -⟩
  · rw [he, hq]
  · exact he

theorem Grown.trans (h : Grown way d d₁) (h' : Grown way d₁ d') : Grown way d d' := by
  refine ⟨h'.home.trans h.home, h'.locked.trans h.locked, fun q => ?_⟩
  rcases h'.at? q with he' | ⟨hnone, hnew, hl, hw⟩
  · rcases h.at? q with he | ⟨hnone, hnew, hl, hw⟩
    · exact .inl (he'.trans he)
    · exact .inr ⟨hnone, he'.trans hnew, hl, hw⟩
  · rcases h.at? q with he | ⟨-, hnew', -⟩
    · exact .inr ⟨he.symm.trans hnone, hnew, h.locked ▸ hl, hw⟩
    · rw [hnew'] at hnone
      cases hnone

theorem Grown.leads (h : Grown way d d') (hl : Leads d here ns) : Leads d' here ns :=
  hl.mono fun _ => h.folder

/-! ## One folder -/

theorem isAbsolute_of_pieces (h : (Path.pieces path).head? = some "") (hne : path ≠ "") : Path.isAbsolute path = true := by
  have hjoin := Path.join_pieces path
  cases hp : Path.pieces path with
  | nil => exact absurd hp (Path.pieces_ne_nil path)
  | cons p rest =>
    rw [hp] at h hjoin
    obtain rfl := Option.some.inj h
    by_cases hr : rest = []
    · rw [hr] at hjoin
      exact absurd hjoin.symm hne
    · rw [Path.join_cons "/" "" hr] at hjoin
      rw [Path.isAbsolute_iff, ← hjoin]
      simp

theorem withoutSlashes_prefix (path : String) : (withoutSlashes path).1 <+: Path.pieces path := by
  rw [← List.reverse_suffix]
  simp only [withoutSlashes, List.reverse_reverse]
  exact List.dropWhile_suffix _

theorem named_withoutSlashes (path : String) : Path.named (withoutSlashes path).1 = Path.names path := by
  have hsplit : (Path.pieces path) = (withoutSlashes path).1 ++ ((Path.pieces path).reverse.takeWhile String.isEmpty).reverse := by
    simp only [withoutSlashes]
    rw [← List.reverse_append, List.takeWhile_append_dropWhile, List.reverse_reverse]
  have htail : Path.named ((Path.pieces path).reverse.takeWhile String.isEmpty).reverse = [] := by
    refine Path.named_eq_nil_iff.2 fun n hn => ?_
    have : n.isEmpty = true := List.mem_takeWhile_imp (List.mem_reverse.1 hn)
    simp [Path.isIdle, this]
  rw [Path.names, hsplit, Path.named_append, htail, List.append_nil]

/-- A path that leads anywhere starts from a folder. -/
theorem at?_start (hu : Usable path) (h : Leads d (start d.home path) (withoutSlashes path).1) :
    d.at? (start d.home path) = some .folder := by
  cases hw : (withoutSlashes path).1 with
  | cons p rest =>
    rw [hw] at h
    cases h with
    | step hh => exact hh
  | nil =>
    have hall : ∀ p ∈ Path.pieces path, p.isEmpty = true := by
      simpa [withoutSlashes, List.dropWhile_eq_nil_iff] using hw
    cases hp : Path.pieces path with
    | nil => exact absurd hp (Path.pieces_ne_nil path)
    | cons p rest =>
      have hempty : p = "" := by simpa using hall p (hp ▸ List.mem_cons_self)
      have habs := isAbsolute_of_pieces (by rw [hp, hempty]; rfl) hu.ne_empty
      rw [start, if_pos habs]
      exact at?_nil d

/-- Where names lead to nothing, they end with the name of something that could stand there. -/
theorem Leads.exists_last (h : Leads d here ps) (hh : d.at? here = some .folder) (hg : d.at? (goal here ps) = none) :
    ∃ ms n, Path.named ps = ms ++ [n] ∧ Proper n ∧ goal here ps = goal here ms ++ [n] ∧ d.at? (goal here ms) = some .folder := by
  have hnamed := h.named
  rw [← goal_named] at hg ⊢
  rcases List.eq_nil_or_concat (Path.named ps) with hnil | ⟨ms, n, hms⟩
  · rw [hnil, goal, List.foldl_nil, hh] at hg
    cases hg
  · rw [List.concat_eq_append] at hms
    rw [hms, leads_append] at hnamed
    rw [hms, goal_append] at hg ⊢
    obtain ⟨-, hlast⟩ := hnamed
    cases hlast with
    | step hfolder =>
      have hidle : Path.isIdle false n = false := by
        have : n ∈ Path.named ps := by simp [hms]
        simpa using (List.mem_filter.1 this).2
      have hproper : Proper n := by
        refine ⟨hidle, ?_⟩
        rintro rfl
        have hup : goal (goal here ms) [".."] = (goal here ms).dropLast := rfl
        rw [hup] at hg
        by_cases hroot : goal here ms = []
        · rw [hroot, List.dropLast_nil, at?_nil] at hg
          cases hg
        · rw [at?_dropLast hfolder hroot] at hg
          cases hg
      exact ⟨ms, n, rfl, hproper, hproper.walk _, hfolder⟩

theorem fits_of_new (hf : d.at? place = some .folder) (hnew : d.at? (place ++ [n]) ≠ some .folder ∨ e = .folder) :
    d.Fits (place ++ [n]) e := by
  refine ⟨by simp, by rwa [List.dropLast_concat], fun h => ?_⟩
  exact hnew.resolve_left fun hne => hne h

/-- The folder of a path that leads nowhere yet can be made. -/
theorem grown_put_folder (hl : Leads d (start d.home path) ps) (hnamed : Path.named ps = Path.names path)
    (hh : d.at? (start d.home path) = some .folder) (hg : d.at? (goal (start d.home path) ps) = none)
    (hlock : d.locked (goal (start d.home path) ps) = false) :
    Grown (OnWay (start d.home path) (Path.names path)) d (d.put (goal (start d.home path) ps) .folder) ∧
      Reaches (d.put (goal (start d.home path) ps) .folder) path := by
  obtain ⟨ms, n, hms, hproper, hgoal, hfolder⟩ := hl.exists_last hh hg
  rw [hgoal] at hg hlock ⊢
  have hfits : d.Fits (goal (start d.home path) ms ++ [n]) .folder := fits_of_new hfolder (.inr rfl)
  have hat := at?_put hfits
  have hgrown : Grown (OnWay (start d.home path) (Path.names path)) d (d.put (goal (start d.home path) ms ++ [n]) .folder) := by
    refine ⟨put_home .., put_locked .., fun q => ?_⟩
    rw [hat]
    by_cases hq : goal (start d.home path) ms ++ [n] = q
    · subst hq
      exact .inr ⟨hg, if_pos rfl, hlock, ms, n, ⟨[], by rw [List.append_nil, ← hms, hnamed]⟩, hproper, rfl⟩
    · exact .inl (if_neg hq)
  refine ⟨hgrown, ?_, ?_⟩
  · rw [put_home, ← hnamed]
    exact hgrown.leads hl.named
  · rw [put_home, placeAt, ← hnamed, goal_named, hgoal, hat, if_pos rfl]

theorem makeFolder_ok (h : d.makeFolder path = (.ok (), d')) :
    Grown (OnWay (start d.home path) (Path.names path)) d d' ∧ Reaches d' path := by
  unfold makeFolder at h
  split at h
  · cases h
  case h_2 place hplace =>
    obtain ⟨hu, hl, rfl⟩ := placeOf_ok hplace
    split at h
    · cases h
    case isFalse hg =>
      split at h
      · cases h
      case isFalse hlock =>
        obtain ⟨-, rfl⟩ := Prod.mk.inj h
        exact grown_put_folder hl (named_withoutSlashes path) (at?_start hu hl) (by simpa using hg) (by simpa using hlock)

theorem makeFolder_error {p : Problem} (h : d.makeFolder path = (.error p, d')) : d' = d := by
  unfold makeFolder at h
  split at h
  · exact (Prod.mk.inj h).2.symm
  · split at h
    · exact (Prod.mk.inj h).2.symm
    · split at h
      · exact (Prod.mk.inj h).2.symm
      · cases h

theorem reaches_of_hasFolder (h : d.hasFolder path = true) : Reaches d path := by
  unfold hasFolder at h
  split at h
  case h_1 place e he =>
    obtain ⟨-, hl, rfl, hat⟩ := find_eq_ok_iff.1 he
    obtain rfl : e = .folder := by
      cases e with
      | folder => rfl
      | file text => cases h
    exact ⟨hl.named, goal_pieces d.home path ▸ hat⟩
  · cases h

/-! ## Folders on the way -/

/-- The places at which some paths can have folders made. -/
def OnWays (home : Place) (paths : List String) (q : Place) : Prop :=
  ∃ path ∈ paths, path ≠ "" ∧ OnWay (start home path) (Path.names path) q

theorem OnWays.of_head (hne : path ≠ "") (h : OnWay (start home path) (Path.names path) q) {rest : List String} :
    OnWays home (path :: rest) q :=
  ⟨path, List.mem_cons_self, hne, h⟩

theorem OnWays.of_tail {rest : List String} (h : OnWays home rest q) : OnWays home (path :: rest) q := by
  obtain ⟨p, hp, hq⟩ := h
  exact ⟨p, List.mem_cons_of_mem _ hp, hq⟩

theorem Tried.of_error {p : Problem} (h : (if d.hasFolder path then (.ok (), d) else (.error p, d)) = (r, d')) :
    Tried path d r d' := by
  split at h
  case isTrue hf =>
    obtain ⟨rfl, rfl⟩ := Prod.mk.inj h
    exact .there hf
  case isFalse =>
    obtain ⟨rfl, rfl⟩ := Prod.mk.inj h
    exact .refused p

theorem Tried.grown (h : Tried path d r d') : Grown (OnWay (start d.home path) (Path.names path)) d d' := by
  cases h with
  | made h => exact (makeFolder_ok h).1
  | there | refused => exact .refl _ d

theorem Tried.reaches (h : Tried path d (.ok ()) d') : Reaches d' path := by
  cases h with
  | made h => exact (makeFolder_ok h).2
  | there h => exact reaches_of_hasFolder h

theorem makeFoldersFrom_empty (rest : List String) (d : Disk) : makeFoldersFrom ("" :: rest) d = (.ok (), d) := by
  unfold makeFoldersFrom
  rw [if_pos rfl]

/-- The folder is tried at once, or after those above it, unless one of these is refused. -/
theorem tried_of_makeFoldersFrom {rest : List String} (hne : path ≠ "") (h : makeFoldersFrom (path :: rest) d = (r, d')) :
    Tried path d r d' ∨ (∃ p, r = .error p ∧ makeFoldersFrom rest d = (r, d')) ∨
      ∃ d₁, makeFoldersFrom rest d = (.ok (), d₁) ∧ Tried path d₁ r d' := by
  unfold makeFoldersFrom at h
  rw [if_neg hne] at h
  split at h
  case h_1 hm =>
    obtain ⟨rfl, rfl⟩ := Prod.mk.inj h
    exact .inl (.made hm)
  -- Folders above are missing: they are made, and the folder is tried again.
  case h_2 hm =>
    obtain rfl := makeFolder_error hm
    split at h
    case h_1 p d₁ ha =>
      obtain ⟨rfl, rfl⟩ := Prod.mk.inj h
      exact .inr (.inl ⟨p, rfl, ha⟩)
    case h_2 d₁ ha =>
      refine .inr (.inr ⟨d₁, ha, ?_⟩)
      split at h
      case h_1 hm' =>
        obtain ⟨rfl, rfl⟩ := Prod.mk.inj h
        exact .made hm'
      case h_2 hm' =>
        obtain rfl := makeFolder_error hm'
        exact .of_error h
  case h_3 hm =>
    obtain rfl := makeFolder_error hm
    exact .inl (.of_error h)

theorem grown_makeFoldersFrom {paths : List String} (h : makeFoldersFrom paths d = (r, d')) :
    Grown (OnWays d.home paths) d d' := by
  induction paths generalizing d r d' with
  | nil =>
    obtain ⟨-, rfl⟩ := Prod.mk.inj h
    exact .refl _ d
  | cons path rest ih =>
    by_cases hne : path = ""
    · rw [hne, makeFoldersFrom_empty] at h
      obtain ⟨-, rfl⟩ := Prod.mk.inj h
      exact .refl _ d
    · rcases tried_of_makeFoldersFrom hne h with ht | ⟨_, -, ha⟩ | ⟨d₁, ha, ht⟩
      · exact ht.grown.mono fun q hq => .of_head hne hq
      · exact (ih ha).mono fun q hq => hq.of_tail
      · have hgrown : Grown (OnWays d.home (path :: rest)) d d₁ := (ih ha).mono fun q hq => hq.of_tail
        exact hgrown.trans (ht.grown.mono fun q hq => .of_head hne (hgrown.home ▸ hq))

theorem reaches_of_makeFoldersFrom {rest : List String} (hne : path ≠ "")
    (h : makeFoldersFrom (path :: rest) d = (.ok (), d')) : Reaches d' path := by
  rcases tried_of_makeFoldersFrom hne h with ht | ⟨_, hr, -⟩ | ⟨_, -, ht⟩
  · exact ht.reaches
  · cases hr
  · exact ht.reaches

theorem mem_ancestors {fuel : Nat} {p : String} (h : p ∈ Path.ancestors.go fuel path) :
    p.toList <+: path.toList ∧ Path.names p <+: Path.names path := by
  induction fuel generalizing path with
  | zero =>
    rw [List.mem_singleton.1 h]
    exact ⟨List.prefix_refl _, List.prefix_refl _⟩
  | succ fuel ih =>
    unfold Path.ancestors.go at h
    split at h
    case h_1 above ha =>
      have habove := Path.above_of_parent? ha
      rcases List.mem_cons.1 h with rfl | h
      · exact ⟨List.prefix_refl _, List.prefix_refl _⟩
      · obtain ⟨h₁, h₂⟩ := ih h
        rw [habove.names] at h₂
        exact ⟨h₁.trans habove.begins, h₂.trans (List.dropLast_prefix _)⟩
    · rw [List.mem_singleton.1 h]
      exact ⟨List.prefix_refl _, List.prefix_refl _⟩

theorem start_eq_of_begins (h : above.toList <+: path.toList) (hne : above ≠ "") (home : Place) :
    start home above = start home path := by
  rw [start, start, Path.isAbsolute_eq_of_begins h hne]

theorem grown_ancestors {fuel : Nat} (h : makeFoldersFrom (Path.ancestors.go fuel path) d = (r, d')) :
    Grown (OnWay (start d.home path) (Path.names path)) d d' := by
  refine (grown_makeFoldersFrom h).mono fun q hq => ?_
  obtain ⟨p, hp, hne, ms, n, hms, hn, rfl⟩ := hq
  obtain ⟨htext, hnames⟩ := mem_ancestors hp
  exact ⟨ms, n, hms.trans hnames, hn, by rw [start_eq_of_begins htext hne]⟩

theorem ancestors_eq (fuel : Nat) (path : String) : ∃ rest, Path.ancestors.go fuel path = path :: rest := by
  cases fuel with
  | zero => exact ⟨[], rfl⟩
  | succ fuel =>
    unfold Path.ancestors.go
    split
    · exact ⟨_, rfl⟩
    · exact ⟨[], rfl⟩

theorem reaches_of_ancestors {fuel : Nat} (hne : path ≠ "")
    (h : makeFoldersFrom (Path.ancestors.go fuel path) d = (.ok (), d')) : Reaches d' path := by
  obtain ⟨rest, hrest⟩ := ancestors_eq fuel path
  rw [hrest] at h
  exact reaches_of_makeFoldersFrom hne h

/-! ## Making folders again -/

theorem Within.trans_grown (h : Within S T) (hg : Grown way S S') (hw : ∀ q, way q → T.at? q = some .folder) :
    Within S' T := by
  refine ⟨hg.home.trans h.home, hg.locked.trans h.locked, fun q hq => ?_, fun q text hq => ?_⟩
  · rcases hg.at? q with he | ⟨-, -, -, hway⟩
    · exact h.folder q (he.symm.trans hq)
    · exact hw q hway
  · rcases hg.at? q with he | ⟨-, hnew, -⟩
    · exact h.file q text (he.symm.trans hq)
    · rw [hnew] at hq
      cases hq

theorem Grown.open (h : Open S T) (hg : Grown way S S') : Open S' T := by
  intro q hq
  rcases hg.at? q with he | ⟨-, hnew, -⟩
  · exact h q (he.symm.trans hq)
  · rw [hnew] at hq
    cases hq

theorem Leads.of_within (hl : Leads T here ns) (h : Within S T) : Leads S here ns ∨ S.follow here ns = .error .missing := by
  induction hl with
  | done => exact .inl .done
  | @step here n ns hh hn _ ih =>
    cases hs : S.at? here with
    | none => exact .inr (by rw [Disk.follow, hs])
    | some e =>
      cases e with
      | folder => exact ih.imp (.step hs hn) (follow_cons hs hn ns).trans
      | file text =>
        obtain ⟨text', ht⟩ := h.file here text hs
        rw [hh] at ht
        cases ht

/-- All folders on the way to a folder. -/
theorem Reaches.folder_of_prefix (h : Reaches T path) (hp : ms <+: Path.names path) :
    T.at? (goal (start T.home path) ms) = some .folder := by
  obtain ⟨rest, hrest⟩ := hp
  have hl := h.leads
  have hf := h.folder
  rw [← hrest, leads_append] at hl
  rw [placeAt, ← hrest, goal_append] at hf
  exact hl.2.start hf

theorem Reaches.of_onWay (h : Reaches T path) (hq : OnWay (start T.home path) (Path.names path) q) :
    T.at? q = some .folder := by
  obtain ⟨ms, n, hp, hn, rfl⟩ := hq
  have := h.folder_of_prefix hp
  rwa [goal_append, goal, List.foldl_cons, List.foldl_nil, hn.walk] at this

/-- Where a path leads to a folder on the larger disk, the folder can be made or is there. -/
theorem makeFolder_again (h : Within S T) (ho : Open S T) (hr : Reaches T path) (hu : Usable path)
    (hl : Leads S (start S.home path) (Path.pieces path)) :
    (∃ S', S.makeFolder path = (.ok (), S')) ∨ S.makeFolder path = (.error .exists, S) ∧ S.hasFolder path = true := by
  obtain ⟨rest, hrest⟩ := withoutSlashes_prefix path
  have hstripped : Leads S (start S.home path) (withoutSlashes path).1 := by
    rw [← hrest] at hl
    exact (leads_append.1 hl).1
  have hgoal : goal (start S.home path) (withoutSlashes path).1 = placeAt S.home path := by
    rw [← goal_named, named_withoutSlashes]
    rfl
  have hT : T.at? (placeAt S.home path) = some .folder := h.home ▸ hr.folder
  unfold makeFolder
  simp only [placeOf_eq hu, hstripped.follow, hgoal]
  cases hS : S.at? (placeAt S.home path) with
  | none =>
    have hlock : S.locked (placeAt S.home path) = false := by
      rw [h.locked]
      exact ho _ hS (by simp [hT])
    exact .inl ⟨S.put (placeAt S.home path) .folder, by simp [hlock]⟩
  | some e =>
    have he : e = .folder := by
      cases e with
      | folder => rfl
      | file text =>
        obtain ⟨text', ht⟩ := h.file _ text hS
        rw [hT] at ht
        cases ht
    subst he
    rw [← goal_pieces] at hS
    have hfind := find_eq_ok_iff.2 ⟨hu, hl, rfl, hS⟩
    exact .inr ⟨by simp, by simp [hasFolder, hfind, Entry.isFolder]⟩

theorem makeFoldersFrom_of_leads (h : Within S T) (ho : Open S T) (hr : Reaches T path) (hu : Usable path)
    (hl : Leads S (start S.home path) (Path.pieces path)) (rest : List String) :
    ∃ S', makeFoldersFrom (path :: rest) S = (.ok (), S') := by
  unfold makeFoldersFrom
  rw [if_neg hu.ne_empty]
  rcases makeFolder_again h ho hr hu hl with ⟨S', hm⟩ | ⟨hm, hf⟩
  · exact ⟨S', by rw [hm]⟩
  · exact ⟨S, by simp [hm, hf]⟩

/-- The same after the folders above were made. -/
theorem makeFoldersFrom_of_missing (h : Within S T) (ho : Open S T) (hr : Reaches T path) (hu : Usable path)
    (hl : Leads S (start S.home path) (Path.pieces path)) {rest : List String}
    (hm : d.makeFolder path = (.error .missing, d)) (ha : makeFoldersFrom rest d = (.ok (), S)) :
    ∃ S', makeFoldersFrom (path :: rest) d = (.ok (), S') := by
  unfold makeFoldersFrom
  rw [if_neg hu.ne_empty, hm]
  simp only [ha]
  rcases makeFolder_again h ho hr hu hl with ⟨S', hm'⟩ | ⟨hm', hf⟩
  · exact ⟨S', by rw [hm']⟩
  · exact ⟨S, by simp [hm', hf]⟩

theorem withoutSlashes_of_last (h : Path.pieces path = ps ++ [n]) (hn : Path.isIdle false n = false) :
    withoutSlashes path = (ps ++ [n], false) := by
  have hne : n ≠ "" := by
    rintro rfl
    cases hn
  simp [withoutSlashes, h, hne]

theorem Reaches.of_above (h : Reaches T path) (ha : Path.Above path above) (hne : above ≠ "") : Reaches T above := by
  have hstart := start_eq_of_begins ha.begins hne T.home
  have hp : Path.names above <+: Path.names path := ha.names ▸ List.dropLast_prefix _
  refine ⟨?_, ?_⟩
  · obtain ⟨rest, hrest⟩ := hp
    have hl := h.leads
    rw [← hrest, leads_append] at hl
    rw [hstart]
    exact hl.1
  · rw [placeAt, hstart]
    exact h.folder_of_prefix hp

theorem leads_pieces_of_names (hnil : Path.names path = []) (hs : S.at? here = some .folder) :
    Leads S here (Path.pieces path) := by
  refine .of_trimmed (.inl hnil) ?_ hs
  rw [← Path.names, hnil]
  exact .done

theorem names_of_last (hp : Path.pieces path = ps ++ [n]) (hn : Path.isIdle false n = false) :
    Path.names path = Path.named ps ++ [n] := by
  rw [Path.names, hp, Path.named_append, Path.named_cons_of_not_idle hn]
  rfl

/-- A path that ends with a name has a folder, whose names are those before. -/
theorem exists_parent (hp : Path.pieces path = ps ++ [n]) (hn : Path.isIdle false n = false) :
    ∃ above, Path.parent? path = some above ∧ Path.Above path above ∧ Path.names above = Path.named ps := by
  have hnames := names_of_last hp hn
  cases ha : Path.parent? path with
  | none =>
    have := Path.names_eq_nil_of_parent? ha
    rw [hnames] at this
    simp at this
  | some above =>
    have habove := Path.above_of_parent? ha
    exact ⟨above, rfl, habove, by rw [habove.names, hnames, List.dropLast_concat]⟩

/-- After the folders above a path were made, the path leads to its place. The empty path stands for where the
path starts. -/
theorem makeFoldersFrom_above (fuel : Nat) (hp : Path.pieces path = ps ++ [n]) (hnames : Path.names above = Path.named ps)
    (hn : Short n) (ha : Path.Above path above) (h : Within S T) (hs : S.at? (start S.home path) = some .folder)
    (hr : above ≠ "" → Reaches T above ∧ ∃ S', makeFoldersFrom (Path.ancestors.go fuel above) S = (.ok (), S')) :
    ∃ S', makeFoldersFrom (Path.ancestors.go fuel above) S = (.ok (), S') ∧
      Grown (fun q => T.at? q = some .folder) S S' ∧ Leads S' (start S'.home path) (Path.pieces path) := by
  obtain ⟨S', hS', hgrown, hl, hf⟩ : ∃ S', makeFoldersFrom (Path.ancestors.go fuel above) S = (.ok (), S') ∧
      Grown (fun q => T.at? q = some .folder) S S' ∧ Leads S' (start S.home path) (Path.names above) ∧
        S'.at? (goal (start S.home path) (Path.names above)) = some .folder := by
    by_cases hempty : above = ""
    · subst hempty
      obtain ⟨rest, hrest⟩ := ancestors_eq fuel ""
      exact ⟨S, by rw [hrest, makeFoldersFrom_empty], .refl _ S, .done, hs⟩
    · obtain ⟨hr, S', hS'⟩ := hr hempty
      have hreach := reaches_of_ancestors hempty hS'
      have hgrown := (grown_ancestors hS').mono fun q hq => hr.of_onWay (h.home ▸ hq)
      rw [← start_eq_of_begins ha.begins hempty, ← hgrown.home]
      exact ⟨S', hS', hgrown, hreach.leads, hreach.folder⟩
  rw [hnames] at hl hf
  rw [goal_named] at hf
  refine ⟨S', hS', hgrown, ?_⟩
  rw [hgrown.home, hp]
  exact leads_append.2 ⟨hl.of_named (hgrown.folder hs) hf, .step hf hn .done⟩

/-- Where the folders above a path can be made, its own folder can be made after them. -/
theorem makeFoldersFrom_step {fuel : Nat} (h : Within S T) (ho : Open S T) (hr : Reaches T path) (hu : Usable path)
    (hp : Path.pieces path = ps ++ [n]) (hn : Path.isIdle false n = false) (hs : S.at? (start S.home path) = some .folder)
    (ih : ∀ above, Path.Above path above → Path.names above = Path.named ps → above ≠ "" →
      ∃ S', makeFoldersFrom (Path.ancestors.go fuel above) S = (.ok (), S')) :
    ∃ S', makeFoldersFrom (Path.ancestors.go (fuel + 1) path) S = (.ok (), S') := by
  have hT : Leads T (start S.home path) (Path.pieces path) := by
    rw [h.home]
    exact .of_trimmed (.inr ⟨ps, n, hp, hn⟩) hr.leads (h.home ▸ h.folder _ hs)
  rcases hT.of_within h with hl | hmissing
  · -- All folders on the way are there already.
    obtain ⟨rest, hrest⟩ := ancestors_eq (fuel + 1) path
    rw [hrest]
    exact makeFoldersFrom_of_leads h ho hr hu hl rest
  · have hm : S.makeFolder path = (.error .missing, S) := by
      rw [makeFolder, withoutSlashes_of_last hp hn, ← hp, placeOf_eq hu, hmissing]
    obtain ⟨above, hparent, habove, hnames⟩ := exists_parent hp hn
    have hshort : Short n := by
      rw [hp, leads_append] at hT
      cases hT.2 with
      | step _ hshort => exact hshort
    obtain ⟨S₁, hS₁, hgrown, hl⟩ := makeFoldersFrom_above fuel hp hnames hshort habove h hs fun hempty =>
      ⟨hr.of_above habove hempty, ih above habove hnames hempty⟩
    unfold Path.ancestors.go
    rw [hparent]
    exact makeFoldersFrom_of_missing (h.trans_grown hgrown fun _ hq => hq) (hgrown.open ho) hr hu hl hm hS₁

theorem makeFoldersFrom_again {fuel : Nat} (h : Within S T) (ho : Open S T) (hr : Reaches T path)
    (hu : path ≠ "" → Usable path) (ht : Path.Trimmed (Path.pieces path)) (hs : S.at? (start S.home path) = some .folder)
    (hf : (Path.names path).length ≤ fuel) :
    ∃ S', makeFoldersFrom (Path.ancestors.go fuel path) S = (.ok (), S') := by
  -- Each step up takes one name off the path, and there is nothing to make for a path without names.
  induction fuel generalizing path with
  | zero =>
    obtain ⟨rest, hrest⟩ := ancestors_eq 0 path
    have hnil : Path.names path = [] := List.length_eq_zero_iff.1 (by omega)
    rw [hrest]
    by_cases hne : path = ""
    · exact ⟨S, by rw [hne, makeFoldersFrom_empty]⟩
    · exact makeFoldersFrom_of_leads h ho hr (hu hne) (leads_pieces_of_names hnil hs) rest
  | succ fuel ih =>
    obtain ⟨rest, hrest⟩ := ancestors_eq (fuel + 1) path
    by_cases hne : path = ""
    · exact ⟨S, by rw [hrest, hne, makeFoldersFrom_empty]⟩
    have husable := hu hne
    rcases ht with hnil | ⟨qs, n, hqs, hn⟩
    · rw [hrest]
      exact makeFoldersFrom_of_leads h ho hr husable (leads_pieces_of_names hnil hs) rest
    · refine makeFoldersFrom_step h ho hr husable hqs hn hs fun above habove hnames hempty => ?_
      refine ih (hr.of_above habove hempty) (husable.of_prefix habove.begins) habove.trimmed
        (start_eq_of_begins habove.begins hempty S.home ▸ hs) ?_
      rw [names_of_last hqs hn, List.length_append, List.length_singleton] at hf
      rw [hnames]
      omega

/-! ## Documents -/

/-- What the write of a file leaves on a disk. -/
structure Written (path text : String) (d d' : Disk) : Prop where
  usable : Usable path
  home : d'.home = d.home
  locked : d'.locked = d.locked
  leads : Leads d' (start d.home path) (Path.names path)
  file : d'.at? (placeAt d.home path) = some (.file text)
  not_folder : d.at? (placeAt d.home path) ≠ some .folder
  unlocked : d.locked (placeAt d.home path) = false
  others : ∀ q, q ≠ placeAt d.home path → d'.at? q = d.at? q ∨
    d.at? q = none ∧ d'.at? q = some .folder ∧ d.locked q = false ∧
      OnWay (start d.home path) (Path.names path).dropLast q

variable {text : String} {v : Json}

theorem placeAt_of_last (hp : Path.pieces path = ps ++ [n]) (hn : Proper n) (home : Place) :
    placeAt home path = goal (start home path) ps ++ [n] := by
  rw [placeAt, names_of_last hp hn.not_idle, goal_append, goal_named]
  exact hn.walk _

theorem written_writeText (hp : Path.pieces path = ps ++ [n]) (hn : Proper n)
    (h : d.writeText path text = (.ok (), d')) : Written path text d d' := by
  have hgoal := placeAt_of_last hp hn d.home
  unfold writeText at h
  simp only [withoutSlashes_of_last hp hn.not_idle, ← hp] at h
  split at h
  · cases h
  case h_2 place hplace =>
    obtain ⟨hu, hl, rfl⟩ := placeOf_ok hplace
    rw [goal_pieces] at h
    split at h
    · cases h
    case isFalse hnot =>
      split at h
      · cases h
      case isFalse hlock =>
        obtain ⟨-, rfl⟩ := Prod.mk.inj h
        have hnot' : d.at? (placeAt d.home path) ≠ some .folder := by simpa using hnot
        have hfolder : d.at? (goal (start d.home path) ps) = some .folder := by
          rw [hp, leads_append] at hl
          cases hl.2 with
          | step hf => exact hf
        have hat := at?_put (hgoal ▸ fits_of_new (e := .file text) hfolder (.inl (hgoal ▸ hnot')))
        refine ⟨hu, put_home .., put_locked .., ?_, by rw [hat, if_pos rfl], hnot', by simpa using hlock, fun q hq => ?_⟩
        · refine hl.named.mono fun q hq => ?_
          rw [hat, if_neg]
          · exact hq
          · rintro rfl
            exact hnot' hq
        · exact .inl (by rw [hat, if_neg (Ne.symm hq)])

theorem Written.of_grown (h : Written path text d₁ d') (hg : Grown (OnWay (start d.home path) (Path.names path).dropLast) d d₁) :
    Written path text d d' := by
  have hhome := hg.home
  obtain ⟨hu, hh, hlk, hl, hf, hnf, hul, ho⟩ := h
  rw [hhome] at hh hl hf hnf hul ho
  refine ⟨hu, hh, hlk.trans hg.locked, hl, hf, fun hd => hnf (hg.folder hd), hg.locked ▸ hul, fun q hq => ?_⟩
  rcases ho q hq with he | ⟨hnone, hnew, hlock, hway⟩
  · rcases hg.at? q with he' | ⟨hnone, hnew, hrest⟩
    · exact .inl (he.trans he')
    · exact .inr ⟨hnone, he.trans hnew, hrest⟩
  · rcases hg.at? q with he' | ⟨hnone', hnew', -⟩
    · exact .inr ⟨he'.symm.trans hnone, hnew, hg.locked ▸ hlock, hway⟩
    · rw [hnew'] at hnone
      cases hnone

theorem writeText_error {p : Problem} (h : d.writeText path text = (.error p, d')) : d' = d := by
  unfold writeText at h
  simp only at h
  split at h
  · exact (Prod.mk.inj h).2.symm
  · split at h
    · exact (Prod.mk.inj h).2.symm
    · split at h
      · exact (Prod.mk.inj h).2.symm
      · cases h

/-- Making the folders above a path makes folders on the way to its place only. -/
theorem grown_makeFolders (ha : Path.Above path above) (h : makeFolders above d = (r, d')) :
    Grown (OnWay (start d.home path) (Path.names path).dropLast) d d' := by
  refine (grown_ancestors h).mono fun q hq => ?_
  by_cases hempty : above = ""
  · subst hempty
    obtain ⟨ms, m, hpre, -⟩ := hq
    simp [Path.names, Path.pieces, Path.named, Path.isIdle, Text.splitAt] at hpre
  · rw [start_eq_of_begins ha.begins hempty] at hq
    rwa [← ha.names]

theorem written_writeDocument (hp : Path.pieces path = ps ++ [n]) (hn : Proper n)
    (h : d.writeDocument path v = (.ok (), d')) : Written path (v.pretty ++ "\n") d d' := by
  obtain ⟨above, hparent, habove, -⟩ := exists_parent hp hn.not_idle
  unfold writeDocument at h
  simp only [hparent] at h
  split at h
  · cases h
  case h_2 d₁ hm =>
    split at h
    · cases h
    case h_2 hw =>
      obtain ⟨-, rfl⟩ := Prod.mk.inj h
      exact (written_writeText hp hn hw).of_grown (grown_makeFolders habove hm)

theorem Leads.folder_of_prefix (h : Leads d here ns) (hp : ms <+: ns) (hne : ms ≠ ns) :
    d.at? (goal here ms) = some .folder := by
  obtain ⟨rest, rfl⟩ := hp
  cases rest with
  | nil => exact absurd (List.append_nil ms).symm hne
  | cons n rest =>
    cases (leads_append.1 h).2 with
    | step hf => exact hf

/-- A document stands at a path, and could be written there. -/
structure Keeps (d : Disk) (path : String) : Prop where
  usable : Usable path
  leads : Leads d (start d.home path) (Path.names path)
  file : ∃ text, d.at? (placeAt d.home path) = some (.file text)
  unlocked : d.locked (placeAt d.home path) = false

theorem Keeps.of_onWay (h : Keeps d path) (hq : OnWay (start d.home path) (Path.names path).dropLast q) :
    d.at? q = some .folder := by
  obtain ⟨ms, n, hp, hn, rfl⟩ := hq
  have hlen := hp.length_le
  rw [List.length_append, List.length_singleton, List.length_dropLast] at hlen
  have hne : ms ++ [n] ≠ Path.names path := by
    intro he
    have := congrArg List.length he
    rw [List.length_append, List.length_singleton] at this
    omega
  have := h.leads.folder_of_prefix (hp.trans (List.dropLast_prefix _)) hne
  rwa [goal_append, goal, List.foldl_cons, List.foldl_nil, hn.walk] at this

theorem Written.keeps (h : Written path text d d') : Keeps d' path := by
  refine ⟨h.usable, ?_, ⟨text, ?_⟩, ?_⟩
  · rw [h.home]
    exact h.leads
  · rw [h.home]
    exact h.file
  · rw [h.home, h.locked]
    exact h.unlocked

theorem Keeps.mono (h : Keeps S path) (hST : Within S T) : Keeps T path := by
  obtain ⟨text, ht⟩ := h.file
  refine ⟨h.usable, ?_, ?_, ?_⟩
  · rw [← hST.home]
    exact h.leads.mono hST.folder
  · rw [← hST.home]
    exact hST.file _ text ht
  · rw [← hST.home, ← hST.locked]
    exact h.unlocked

theorem Within.refl (d : Disk) : Within d d :=
  ⟨rfl, rfl, fun _ h => h, fun _ text h => ⟨text, h⟩⟩

theorem Within.trans (h : Within S S') (h' : Within S' T) : Within S T := by
  refine ⟨h.home.trans h'.home, h.locked.trans h'.locked, fun q hq => h'.folder q (h.folder q hq), fun q text hq => ?_⟩
  obtain ⟨text', ht⟩ := h.file q text hq
  exact h'.file q text' ht

theorem Written.within (h : Written path text d d') : Within d d' := by
  refine ⟨h.home.symm, h.locked.symm, fun q hq => ?_, fun q t hq => ?_⟩
  · have hne : q ≠ placeAt d.home path := by
      rintro rfl
      exact h.not_folder hq
    rcases h.others q hne with he | ⟨-, hnew, -⟩
    · rw [he, hq]
    · exact hnew
  · by_cases hg : q = placeAt d.home path
    · exact ⟨text, hg ▸ h.file⟩
    · rcases h.others q hg with he | ⟨hnone, -⟩
      · exact ⟨t, he.trans hq⟩
      · rw [hnone] at hq
        cases hq

/-- A write on the smaller disk keeps it within the larger one, if that has the document, too. -/
theorem Within.of_written (h : Within S T) (hw : Written path text S S') (hk : Keeps T path) : Within S' T := by
  obtain ⟨text', ht⟩ := hk.file
  rw [← h.home] at ht
  refine ⟨hw.home.trans h.home, hw.locked.trans h.locked, fun q hq => ?_, fun q t hq => ?_⟩
  · have hne : q ≠ placeAt S.home path := by
      rintro rfl
      rw [hw.file] at hq
      cases hq
    rcases hw.others q hne with he | ⟨-, -, -, hway⟩
    · exact h.folder q (he.symm.trans hq)
    · exact hk.of_onWay (h.home ▸ hway)
  · by_cases hg : q = placeAt S.home path
    · exact ⟨text', hg ▸ ht⟩
    · rcases hw.others q hg with he | ⟨-, hnew, -⟩
      · exact h.file q t (he.symm.trans hq)
      · rw [hnew] at hq
        cases hq

theorem Open.of_written (h : Open S T) (hw : Written path text S S') : Open S' T := by
  intro q hq
  by_cases hg : q = placeAt S.home path
  · rw [hg, hw.file] at hq
    cases hq
  · rcases hw.others q hg with he | ⟨-, hnew, -⟩
    · exact h q (he.symm.trans hq)
    · rw [hnew] at hq
      cases hq

/-- What one disk has a document for can be written on another that has part of what it has. -/
theorem writeDocument_again (hp : Path.pieces path = ps ++ [n]) (hn : Proper n) (h : Within S T) (ho : Open S T)
    (hk : Keeps T path) (hs : S.at? (start S.home path) = some .folder) (v : Json) :
    ∃ S', S.writeDocument path v = (.ok (), S') := by
  obtain ⟨above, hparent, habove, hnames⟩ := exists_parent hp hn.not_idle
  obtain ⟨hlT, hlast⟩ := leads_append.1 (names_of_last hp hn.not_idle ▸ hk.leads)
  obtain ⟨hf, hshort⟩ : T.at? (goal (start T.home path) (Path.named ps)) = some .folder ∧ Short n := by
    cases hlast with
    | step hf hshort => exact ⟨hf, hshort⟩
  obtain ⟨S₁, hS₁, hgrown, hlead⟩ := makeFoldersFrom_above above.length hp hnames hshort habove h hs fun hempty => by
    have hstart := start_eq_of_begins habove.begins hempty
    have hr : Reaches T above := by
      refine ⟨?_, ?_⟩
      · rwa [hstart, hnames]
      · rwa [placeAt, hstart, hnames]
    exact ⟨hr, makeFoldersFrom_again h ho hr (hk.usable.of_prefix habove.begins) habove.trimmed
      (hstart S.home ▸ hs) (Path.length_names_le above)⟩
  have hgoal : goal (start S₁.home path) (Path.pieces path) = placeAt T.home path := by
    rw [goal_pieces, hgrown.home, h.home]
  have hW := h.trans_grown hgrown fun _ hq => hq
  have hnot : S₁.at? (placeAt T.home path) ≠ some .folder := by
    obtain ⟨text, ht⟩ := hk.file
    intro hfold
    rw [hW.folder _ hfold] at ht
    cases ht
  have hunlocked : S₁.locked (placeAt T.home path) = false := by
    rw [hW.locked]
    exact hk.unlocked
  obtain ⟨S', hS'⟩ : ∃ S', S₁.writeText path (v.pretty ++ "\n") = (.ok (), S') := by
    unfold writeText
    simp only [withoutSlashes_of_last hp hn.not_idle, ← hp, placeOf_eq hk.usable, hlead.follow, hgoal]
    exact ⟨S₁.put (placeAt T.home path) (.file (v.pretty ++ "\n")), by simp [hnot, hunlocked]⟩
  have hfolders : makeFolders above S = (.ok (), S₁) := hS₁
  exact ⟨S', by simp only [writeDocument, hparent, hfolders, hS']⟩

end ApiDocs.Disk
