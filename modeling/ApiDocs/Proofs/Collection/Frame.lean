import ApiDocs.Proofs.Collection.Stored
/-!
# What a publication leaves alone

A publication to a folder changes the documents of the names that it publishes, those under the uids that are
configured, and those that it creates (`Target`); every other file keeps its text (`publish_frame`). What it creates
goes under the uid that its name determines. Nothing is asked about that uid before, so a document that already stands
there, and was given another name or cannot be read, is written over (`renamed_overwritten`).
-/
namespace ApiDocs.Collection.Folder

open Disk

variable {α : Type} {k : Kind α} {ctx : Context} {ds : List Definition} {root folder name uid : String} {d d' d₁ : Disk}
  {a : α} {v : Json} {q : Place} {e : Environment} {attempt : Attempt} {asked asked' : List Exchange} {way : Place → Prop}

/-! ## Documents and their names -/

namespace Kind

/-- The file at a place is read as a document. -/
def Holds (k : Kind α) (d : Disk) (q : Place) (a : α) : Prop :=
  ∃ text, d.text? q = some text ∧ (Json.read text).map k.read = some (.ok a)

/-- A file stands among the documents of its kind, and has a name. -/
def Named (k : Kind α) (root name : String) (d : Disk) (q : Place) : Prop :=
  ∃ uid a, Plain uid ∧ q = placeAt d.home (k.path root uid) ∧ k.Holds d q a ∧ k.nameOf a = name

theorem holds_of_document? (h : k.document? root d uid = some a) : k.Holds d (placeAt d.home (k.path root uid)) a := by
  rw [document?, value?_eq_some_iff, readDocument_eq_ok_iff] at h
  obtain ⟨text, ht, ha⟩ := h
  exact ⟨text, (readText_eq_ok_iff.1 ht).2.2, ha⟩

/-- What is read back from its text stands where the text does, and nothing else. -/
theorem ReadBack.holds_iff {b : α} (h : k.ReadBack a) (ht : d.text? q = some ((k.toJson a).pretty ++ "\n")) :
    k.Holds d q b ↔ a = b := by
  simp [Holds, ht, Json.read_document h.within, h.read]

theorem First.named (h : k.First root name d uid a) : k.Named root name d (placeAt d.home (k.path root uid)) :=
  ⟨uid, a, h.plain, rfl, holds_of_document? h.document, h.name_eq⟩

/-- What has a name after a change had it before, or has been changed. -/
theorem Named.of_frame (h : k.Named root name d₁ q) (hf : Frame way d d₁) : k.Named root name d q ∨ way q := by
  obtain ⟨uid, a, hplain, hq, ⟨text, ht, ha⟩, hname⟩ := h
  rw [hf.home] at hq
  rcases hf.text? q with hsame | hway
  · exact .inl ⟨uid, a, hplain, hq, ⟨text, hsame ▸ ht, ha⟩, hname⟩
  · exact .inr hway

end Kind

theorem SimplyNamed.of_frame (h : SimplyNamed root d) (hf : Frame way d d') : SimplyNamed root d' := by
  intro m n hm hne
  rw [hf.home] at hne
  by_cases hold : d.at? (placeAt d.home root ++ [m, n]) = none
  · have hplace : placeAt d.home root ++ [m, n] = (placeAt d.home root ++ [m]) ++ [n] := by simp
    rw [hplace] at hold hne
    exact hf.simple _ n hold hne
  · exact h m n hm hold

/-! ## One document -/

theorem frame_replace {r : Outcome Unit} (h : replace folder uid v d = (r, d')) :
    Frame (· = placeAt d.home (documentPath folder uid)) d d' := by
  unfold replace at h
  simp only at h
  split at h
  · exact frame_writeDocument ((isDocument_json uid).join folder) h
  · obtain ⟨-, rfl⟩ := Prod.mk.inj h
    exact .refl _ d

theorem frame_create {r : Outcome String} (h : create folder uid v d = (r, d')) :
    Frame (· = placeAt d.home (documentPath folder uid)) d d' := by
  have hd : IsDocument (documentPath folder uid) := (isDocument_json uid).join folder
  unfold create at h
  split at h
  case h_1 hw =>
    obtain ⟨-, rfl⟩ := Prod.mk.inj h
    exact frame_writeDocument hd hw
  case h_2 hw =>
    obtain ⟨-, rfl⟩ := Prod.mk.inj h
    exact frame_writeDocument hd hw

/-- The files that the publication of a collection can change: those of its name, and, where there is none, the one
under the uid that its name determines. -/
inductive CollectionTarget (ctx : Context) (root name : String) (d : Disk) (asked : List Exchange) : Place → Prop
  | named {q : Place} : collectionKind.Named root name d q → CollectionTarget ctx root name d asked q
  | created : .findCollection name (.ok none) ∈ asked →
    CollectionTarget ctx root name d asked
      (placeAt d.home (collectionKind.path root (stableId ["collection", ctx.service.displayName])))

/-- The files that the publication of an environment can change: those of its name, the one under its configured uid,
and, where there is neither, the one under the uid that its name determines. -/
inductive EnvironmentTarget (root : String) (e : Environment) (d : Disk) (asked : List Exchange) : Place → Prop
  | named {q : Place} : environmentKind.Named root e.name d q → EnvironmentTarget root e d asked q
  | configured {uid : String} : e.id = some uid →
    EnvironmentTarget root e d asked (placeAt d.home (environmentKind.path root uid))
  | created : e.id = none → .findEnvironment e.name (.ok none) ∈ asked →
    EnvironmentTarget root e d asked (placeAt d.home (environmentKind.path root (stableId ["environment", e.name])))

theorem frame_of_collectionCourse (hs : SimplyNamed root d) (h : CollectionCourse ctx name ds attempt)
    (hr : (workspace root).Run d attempt.exchanges d') : Frame (CollectionTarget ctx root name d attempt.exchanges) d d' := by
  cases h with
  | lost fault =>
    obtain ⟨t, hf, rfl⟩ := hr
    obtain ⟨-, rfl⟩ := answers_findCollection.1 hf
    exact .refl _ d
  | created answer =>
    obtain ⟨t, hf, t', hw, rfl⟩ := hr
    obtain ⟨-, rfl⟩ := answers_findCollection.1 hf
    have hw := answers_createCollection.1 hw
    unfold createCollection at hw
    exact (frame_create hw).of_place (.created List.mem_cons_self)
  | replaced entry fetched answer =>
    obtain ⟨t, hf, t', hfetch, t'', hw, rfl⟩ := hr
    obtain ⟨hfind, rfl⟩ := answers_findCollection.1 hf
    obtain ⟨-, rfl⟩ := answers_fetchCollection.1 hfetch
    obtain ⟨uid, c, hfirst, rfl⟩ := Kind.exists_first_of_find hs hfind
    exact (frame_replace (answers_replaceCollection.1 hw)).of_place (.named hfirst.named)

theorem frame_of_environmentCourse (hs : SimplyNamed root d) (h : EnvironmentCourse e attempt)
    (hr : (workspace root).Run d attempt.exchanges d') : Frame (EnvironmentTarget root e d attempt.exchanges) d d' := by
  cases h with
  | lost fault hid =>
    obtain ⟨t, hf, rfl⟩ := hr
    obtain ⟨-, rfl⟩ := answers_findEnvironment.1 hf
    exact .refl _ d
  | found entry answer =>
    obtain ⟨t, hf, t', hw, rfl⟩ := hr
    obtain ⟨hfind, rfl⟩ := answers_findEnvironment.1 hf
    obtain ⟨uid, b, hfirst, rfl⟩ := Kind.exists_first_of_find hs hfind
    exact (frame_replace (answers_replaceEnvironment.1 hw)).of_place (.named hfirst.named)
  | configured missing uid answer hm hid =>
    obtain ⟨t, hf, t', hw, rfl⟩ := hr
    obtain ⟨-, rfl⟩ := answers_findEnvironment.1 hf
    exact (frame_replace (answers_replaceEnvironment.1 hw)).of_place (.configured hid)
  | created answer hid =>
    obtain ⟨t, hf, t', hw, rfl⟩ := hr
    obtain ⟨-, rfl⟩ := answers_findEnvironment.1 hf
    have hw := answers_createEnvironment.1 hw
    unfold createEnvironment at hw
    exact (frame_create hw).of_place (.created hid List.mem_cons_self)

/-! ## All documents -/

/-- The files that a publication can change, seen from the disk before it. -/
def Target (ctx : Context) (root name : String) (d : Disk) (asked : List Exchange) (q : Place) : Prop :=
  CollectionTarget ctx root name d asked q ∨ ∃ e ∈ environments ctx.service, EnvironmentTarget root e d asked q

theorem CollectionTarget.mono (h : CollectionTarget ctx root name d asked q) (hsub : asked ⊆ asked') :
    CollectionTarget ctx root name d asked' q := by
  cases h with
  | named hn => exact .named hn
  | created hm => exact .created (hsub hm)

/-- What an environment can change later, it could change before, or it has been changed in between. -/
theorem EnvironmentTarget.of_frame (h : EnvironmentTarget root e d₁ asked q) (hf : Frame way d d₁)
    (hsub : asked ⊆ asked') : EnvironmentTarget root e d asked' q ∨ way q := by
  cases h with
  | named hn => exact (hn.of_frame hf).imp_left .named
  | configured hid =>
    rw [hf.home]
    exact .inl (.configured hid)
  | created hid hm =>
    rw [hf.home]
    exact .inl (.created hid (hsub hm))

theorem frame_of_environmentCourses {attempts : List (Environment × Attempt)} (hs : SimplyNamed root d)
    (hf : Frame (Target ctx root name d asked) d d₁) (h : ∀ r ∈ attempts, EnvironmentCourse r.1 r.2)
    (he : ∀ r ∈ attempts, r.1 ∈ environments ctx.service) (hsub : ∀ r ∈ attempts, r.2.exchanges ⊆ asked)
    (hr : (workspace root).Run d₁ (attempts.flatMap fun r => r.2.exchanges) d') :
    Frame (Target ctx root name d asked) d d' := by
  -- By induction along the attempts: each one only changes what could be changed from the start.
  induction attempts generalizing d₁ with
  | nil => exact (show d₁ = d' from hr) ▸ hf
  | cons r attempts ih =>
    rw [List.forall_mem_cons] at h he hsub
    obtain ⟨d₂, hfirst, hrest⟩ := Workspace.exists_of_run_append hr
    have hstep := frame_of_environmentCourse (hs.of_frame hf) h.1 hfirst
    refine ih (hf.trans (hstep.mono fun q hq => ?_)) h.2 he.2 hsub.2 hrest
    rcases hq.of_frame hf hsub.1 with htarget | htarget
    · exact .inr ⟨r.1, he.1, htarget⟩
    · exact htarget

/-- Whatever stands in a folder, and however a publication to it goes, every file keeps its text but the documents of
the names that are published, those under configured uids, and, for a name that was looked up and not found, the one
under the uid that the name determines. -/
theorem publish_frame (ctx : Context) (name : String) (ds : List Definition) (hs : SimplyNamed root d) :
    ∃ (report : PublishReport) (d' : Disk) (asked : List Exchange),
      publish ctx (workspace root) name ds d = (report, d') ∧
      publish ctx (workspace root).tracing name ds (d, []) = (report, d', asked) ∧
      ∀ q, d'.text? q = d.text? q ∨ Target ctx root name d asked q := by
  obtain ⟨⟨a, attempts⟩, d', hc, hr⟩ := exists_course ctx (workspace root) name ds d
  obtain ⟨d₁, hfirst, hrest⟩ := Workspace.exists_of_run_append hr
  have hcollection : Frame (Target ctx root name d (Course.exchanges ⟨a, attempts⟩)) d d₁ :=
    (frame_of_collectionCourse hs hc.collection hfirst).mono fun q hq =>
      .inl (hq.mono fun x hx => List.mem_append_left _ hx)
  have hall := frame_of_environmentCourses hs hcollection hc.each
    (fun r hm => hc.environments ▸ List.mem_map_of_mem hm)
    (fun r hm x hx => List.mem_append_right _ (List.mem_flatMap.2 ⟨r, hm, hx⟩)) hrest
  exact ⟨_, d', _, hc.publish_eq hr, hc.publish_eq (hr.tracing []), hall.text?⟩

/-! ## A document under the uid of another name -/

/-- A name that no document has is not found, as long as there are documents to look through. -/
theorem Kind.find_eq_none (hs : SimplyNamed root d) (hu : Plain uid) (hk : Keeps d (k.path root uid))
    (hnone : ∀ q, ¬ k.Named root name d q) : k.find root name d = .ok none := by
  have hf := Archive.find_of_leads (k.folder_ne_empty root) hu.simple hk.usable (hk.leads_pieces (k.isDocument_path root uid))
  obtain ⟨documents, hlisted, -, hmem⟩ := listed_of_find (k.simple_of_simplyNamed hs) hf
  rw [find_eq, hlisted, Except.map, Except.ok.injEq, List.findSome?_eq_none_iff]
  intro x hx
  obtain ⟨hplain, hpath, -⟩ := (hmem x).1 hx
  obtain ⟨u, p⟩ := x
  obtain rfl : p = k.path root u := hpath
  refine Option.eq_none_iff_forall_ne_some.2 fun entry he => ?_
  obtain ⟨a, ha, hname, -⟩ := found?_eq_some_iff.1 he
  exact hnone _ ⟨u, a, hplain, rfl, holds_of_document? ha, hname⟩

/-- A collection as it is created under a uid. -/
def newCollection (ctx : Context) (ds : List Definition) (uid : String) : Collection :=
  { render ctx ds none with info := { (render ctx ds none).info with id := some uid } }

/-- Where no collection has the name, a new one is written over whatever stands under the uid of the name. -/
theorem publishCollection_over (ds : List Definition) (hs : SimplyNamed root d)
    (huid : stableId ["collection", ctx.service.displayName] = uid)
    (hk : Keeps d (collectionKind.path root uid)) (hnone : ∀ q, ¬ collectionKind.Named root name d q) :
    ∃ d', publishCollection ctx (workspace root) name ds d = (.ok ⟨name, uid, .created⟩, d') ∧
      Written (collectionKind.path root uid) ((newCollection ctx ds uid).toJson.pretty ++ "\n") d d' := by
  have hd := collectionKind.isDocument_path root uid
  obtain ⟨d', hw⟩ := hk.writeDocument hd (newCollection ctx ds uid).toJson
  have hplain : Plain uid := huid ▸ plain_stableId _
  have hfind : (workspace root).findCollection name d = (.ok none, d) :=
    answers_findCollection.2 ⟨Kind.find_eq_none hs hplain hk hnone, rfl⟩
  have hcreate : (workspace root).createCollection (render ctx ds none) d = (.ok uid, d') := by
    have he : createCollection root (render ctx ds none) d =
        create (collectionsFolder root) uid (newCollection ctx ds uid).toJson d :=
      createCollection_eq (c := render ctx ds none) root rfl huid d
    exact answers_createCollection.2 (he.trans (create_of_writeDocument hw))
  exact ⟨d', by simp [publishCollection, hfind, fetchPrevious, hcreate], written_of_isDocument hd hw⟩

theorem publish_of_publishCollection {σ : Type} {w : Workspace σ} {s s' : σ} {p : Published}
    (he : environments ctx.service = []) (h : publishCollection ctx w name ds s = (.ok p, s')) :
    publish ctx w name ds s = (⟨some p, [], []⟩, s') := by
  simp [publish, h, he, publishEnvironments, PublishReport.empty]

/-- A collection that its users gave a name of their own. -/
def drafts : Collection :=
  ⟨⟨none, "drafts", "", schemaUrl, none⟩, [], none⟩

/-- A disk with nothing but that collection in a workspace. -/
def drafting (uid : String) : Disk :=
  (Disk.empty.writeDocument (collectionKind.path "out" uid) drafts.toJson).2

theorem simplyNamed_drafting (uid : String) : SimplyNamed "out" (drafting uid) :=
  SimplyNamed.of_frame (tidy_empty "out").simple (frame_writeDocument (collectionKind.isDocument_path "out" uid) Prod.mk.eta.symm)

theorem readBack_drafts : collectionKind.ReadBack drafts := by
  have hrestorable : drafts.Restorable := by
    intro i hi
    cases hi
  exact ⟨⟨canonical_toJson hrestorable, by decide +kernel⟩, ofNode_toJson hrestorable⟩

/-- Where its text stands, there is no collection of another name. -/
theorem not_named_drafts (ht : d.text? q = some (drafts.toJson.pretty ++ "\n")) (hne : name ≠ "drafts") :
    ¬ collectionKind.Named root name d q := by
  rintro ⟨uid, c, -, -, hholds, rfl⟩
  obtain rfl := (readBack_drafts.holds_iff ht).1 hholds
  exact hne rfl

/-- The uid that the name of the service determines. -/
def shopUid : String :=
  "dd8dce5b-e8d8-5f77-8dbe-30ebfa271aae"

theorem stableId_shop : stableId ["collection", ordering.service.displayName] = shopUid := by
  decide +kernel

theorem plain_shop : Plain shopUid :=
  ⟨by decide, by decide⟩

theorem written_drafting {uid : String}
    (h : (Disk.empty.writeDocument (collectionKind.path "out" uid) drafts.toJson).1 = .ok ()) :
    Written (collectionKind.path "out" uid) (drafts.toJson.pretty ++ "\n") .empty (drafting uid) :=
  written_of_isDocument (collectionKind.isDocument_path "out" uid) (Prod.ext h rfl)

/-- A collection of another name under a uid of its own stays as it is. -/
theorem drafts_kept : ∃ report d',
    publish ordering (workspace "out") "shop" [pinging] (drafting "drafts") = (report, d') ∧
    d'.text? ["out", "collections", "drafts.json"] = some (drafts.toJson.pretty ++ "\n") := by
  have hwritten : Written (collectionKind.path "out" "drafts") (drafts.toJson.pretty ++ "\n") .empty (drafting "drafts") :=
    written_drafting (by decide +kernel)
  have hplace : placeAt Disk.empty.home (collectionKind.path "out" "drafts") = ["out", "collections", "drafts.json"] := by
    decide +kernel
  have htext := hwritten.text?_place
  rw [hplace] at htext
  obtain ⟨report, d', asked, hp, -, hframe⟩ :=
    publish_frame ordering "shop" [pinging] (simplyNamed_drafting "drafts")
  refine ⟨report, d', hp, ?_⟩
  rcases hframe ["out", "collections", "drafts.json"] with hsame | hcollection | ⟨e, he, -⟩
  · exact hsame.trans htext
  · generalize hq : ["out", "collections", "drafts.json"] = q at hcollection htext
    cases hcollection with
    | named hn => exact absurd hn (not_named_drafts htext (by decide))
    | created =>
      rw [stableId_shop, collectionKind.placeAt_path plain_shop, hwritten.home] at hq
      exact absurd hq (by decide +kernel)
  · cases he

/-- A collection that was renamed is written over when its old name is published again. -/
theorem renamed_overwritten : ¬ ∀ (ctx : Context) (root name : String) (ds : List Definition) (d : Disk),
    SimplyNamed root d →
      ∃ report d', publish ctx (workspace root) name ds d = (report, d') ∧
        ∀ q text, d.text? q = some text → d'.text? q = some text ∨ collectionKind.Named root name d q ∨
          ∃ e ∈ environments ctx.service, environmentKind.Named root e.name d q ∨
            ∃ uid, e.id = some uid ∧ q = placeAt d.home (environmentKind.path root uid) := by
  intro hall
  have hwritten : Written (collectionKind.path "out" shopUid) (drafts.toJson.pretty ++ "\n") .empty (drafting shopUid) :=
    written_drafting (by decide +kernel)
  have hnone : ∀ q, ¬ collectionKind.Named "out" "shop" (drafting shopUid) q := by
    intro q hn
    have htext := hwritten.text? q
    split at htext
    · exact not_named_drafts htext (by decide) hn
    · obtain ⟨uid, c, -, -, ⟨text, ht, -⟩, -⟩ := hn
      rw [htext, text?_empty] at ht
      cases ht
  obtain ⟨report, d', hp, hkept⟩ := hall ordering "out" "shop" [pinging] _ (simplyNamed_drafting shopUid)
  obtain ⟨d₁, hover, hnew⟩ :=
    publishCollection_over [pinging] (simplyNamed_drafting shopUid) stableId_shop hwritten.keeps hnone
  obtain ⟨-, rfl⟩ := Prod.mk.inj (hp.symm.trans (publish_of_publishCollection rfl hover))
  have htext := hwritten.text?_place
  rw [← hwritten.home] at htext
  rcases hkept _ _ htext with hsame | hn | ⟨e, he, -⟩
  · -- The new collection is read where the old one would have to be.
    have hfixed : Fixed ordering [pinging] (newCollection ordering [pinging] shopUid) :=
      fixed_created (by decide) (by decide) (by decide +kernel) shopUid
    have hboth := (readBack_drafts.holds_iff hsame).1 ((hfixed.readBack.holds_iff hnew.text?_place).2 rfl)
    exact absurd (congrArg (fun c => c.info.name) hboth) (by decide)
  · exact hnone _ hn
  · cases he

end ApiDocs.Collection.Folder
