import ApiDocs.Proofs.Collection.Stored
/-!
# Publishing to a folder again

A publication without failures leaves a folder in which every document is the first of its name (`Settled`). So the
next one finds all of them and replaces them where they are (`Settled.publish`). The collection is written as it
was. So is an environment, unless it was created: it was created with its uid for an id, and is replaced without one.

This is so where the path of the folder leads to its place (`Tidy`), a file can be called after every uid that is
configured (`Plain`), environments of different names are published under different uids (`Apart`), and the
collection is not too deep to be read back. Otherwise more files can change.
-/
namespace ApiDocs.Collection

/-- The same document, replaced. -/
def Published.asReplaced (p : Published) : Published :=
  { p with action := .replaced }

/-- A report of the same documents, all of them replaced. -/
def PublishReport.asReplaced (r : PublishReport) : PublishReport :=
  { r with collection := r.collection.map .asReplaced, environments := r.environments.map .asReplaced }

namespace Folder

open Disk

variable {ctx : Context} {ds : List Definition} {root uid : String} {d d' d₁ : Disk} {e : Environment} {c : Collection}
  {rs : List (Environment × Published)} {ps : List Published}

theorem Apart.asReplaced (h : Apart ps) : Apart (ps.map Published.asReplaced) := by
  unfold Apart
  simp only [List.forall_mem_map]
  exact h

/-- An environment that stands in a folder is found and replaced. -/
theorem publishEnvironment_of_stands (ht : Tidy root d) {b : Environment}
    (h : environmentKind.Stands root e.name d uid b) :
    ∃ d', publishEnvironment (workspace root) e d = (.ok ⟨e.name, uid, .replaced⟩, d') ∧
      PublishesEnvironment root e ⟨e.name, uid, .replaced⟩ d d' := by
  obtain ⟨d', hp⟩ := h.publishes rfl (readBack_environment e)
  have hfind : (workspace root).Answers d (.findEnvironment e.name (.ok (some (environmentKind.entryOf uid b)))) d :=
    answers_findEnvironment.2 ⟨h.first.find ht, rfl⟩
  have hreplace : (workspace root).Answers d (.replaceEnvironment uid e (.ok ())) d' :=
    answers_replaceEnvironment.2 ((replace_eq_of_document? h.first.document _).trans hp.write)
  exact ⟨d', (EnvironmentCourse.found _ (.ok ())).publishEnvironment_eq ⟨d, hfind, d', hreplace, rfl⟩, rfl, nofun, hp⟩

theorem publishEnvironments_of_standing (ht : Tidy root d) (hs : Standing root ps d) (ha : Apart ps)
    (hrs : ∀ r ∈ rs, r.2.name = r.1.name ∧ r.2 ∈ ps) (report : PublishReport) :
    ∃ d', publishEnvironments (workspace root) report d (rs.map Prod.fst) =
        ({ report with environments := report.environments ++ rs.map fun r => r.2.asReplaced }, d') ∧
      PublishesAll root (rs.map fun r => (r.1, r.2.asReplaced)) d d' := by
  induction rs generalizing d report with
  | nil => exact ⟨d, by simp [publishEnvironments], .nil⟩
  | cons r rs ih =>
    obtain ⟨e, p⟩ := r
    rw [List.forall_mem_cons] at hrs
    obtain ⟨⟨hname, hp⟩, hrs⟩ := hrs
    obtain ⟨b, hb⟩ := hs p hp
    obtain ⟨d₁, hpublish, hpublishes⟩ := publishEnvironment_of_stands ht (hname ▸ hb)
    rw [← hname] at hpublish hpublishes
    have hs₁ := hs.of_publishes ht hpublishes fun q hq => ha q hq p hp
    obtain ⟨d', hrest, hall⟩ := ih (hpublishes.publishes.tidy ht) (List.forall_mem_append.1 hs₁).1 hrs
      { report with environments := report.environments ++ [p.asReplaced] }
    refine ⟨d', ?_, .cons hpublishes hall⟩
    simpa [publishEnvironments, hpublish, Published.asReplaced] using hrest

/-- A folder as a publication leaves it: all documents are the first of their names and can be written again, and
the collection is rendered over as it is. -/
structure Settled (ctx : Context) (ds : List Definition) (root uid : String) (c : Collection)
    (rs : List (Environment × Published)) (d : Disk) : Prop where
  tidy : Tidy root d
  fixed : Fixed ctx ds c
  collection : collectionKind.Stands root ctx.service.displayName d uid c
  environments : rs.map Prod.fst = Collection.environments ctx.service
  names : ∀ r ∈ rs, r.2.name = r.1.name
  apart : Apart (rs.map Prod.snd)
  standing : Standing root (rs.map Prod.snd) d

/-- A collection and the environments of a service that were published leave a folder settled. -/
theorem settled_of_publishesAll (ht : Tidy root d) (hfixed : Fixed ctx ds c) (hp : collectionKind.Publishes root uid c d d₁)
    (hall : PublishesAll root rs d₁ d') (he : rs.map Prod.fst = environments ctx.service) (ha : Apart (rs.map Prod.snd)) :
    Settled ctx ds root uid c rs d' := by
  have ht₁ := hp.tidy ht
  have hstands := hall.stands ht₁ (hp.stands ht)
  have hnone : Standing root [] d₁ := nofun
  refine ⟨hall.tidy ht₁, hfixed, ?_, he, fun r hr => (hall.mem r hr).1, ha, hall.standing ht₁ hnone ha⟩
  rw [← hfixed.name_eq]
  exact hstands

namespace Settled

theorem publishCollection (h : Settled ctx ds root uid c rs d) :
    ∃ d', Collection.publishCollection ctx (workspace root) ctx.service.displayName ds d =
        (.ok ⟨ctx.service.displayName, uid, .replaced⟩, d') ∧ collectionKind.Publishes root uid c d d' := by
  obtain ⟨d', hp⟩ := h.collection.publishes h.fixed.name_eq h.fixed.readBack
  have hfirst := h.collection.first
  have hrender : withRemoteId (render ctx ds (Except.ok c : Outcome Collection).toOption)
      (collectionKind.entryOf uid c) = c :=
    (withRemoteId_render ctx ds c uid).trans h.fixed.render_eq
  have hfind : (workspace root).Answers d
      (.findCollection ctx.service.displayName (.ok (some (collectionKind.entryOf uid c)))) d :=
    answers_findCollection.2 ⟨hfirst.find h.tidy, rfl⟩
  have hfetch : (workspace root).Answers d (.fetchCollection uid (.ok c)) d :=
    answers_fetchCollection.2 ⟨fetch_of_document? hfirst.document, rfl⟩
  have hreplace : (workspace root).Answers d (.replaceCollection uid c (.ok ())) d' :=
    answers_replaceCollection.2 ((replace_eq_of_document? hfirst.document _).trans hp.write)
  rw [← hrender] at hreplace
  exact ⟨d', (CollectionCourse.replaced _ (.ok c) (.ok ())).publishCollection_eq
    ⟨d, hfind, d, hfetch, d', hreplace, rfl⟩, hp⟩

/-- A publication to a settled folder replaces every document where it is, and leaves the folder settled. -/
theorem publish (h : Settled ctx ds root uid c rs d) :
    ∃ d', Collection.publish ctx (workspace root) ctx.service.displayName ds d =
        (⟨some ⟨ctx.service.displayName, uid, .replaced⟩, rs.map fun r => r.2.asReplaced, []⟩, d') ∧
      WritesAll ((collectionKind.path root uid, c.toJson) ::
        rs.map fun r => (environmentKind.path root r.2.uid, r.1.toJson)) d d' ∧
      Settled ctx ds root uid c (rs.map fun r => (r.1, r.2.asReplaced)) d' := by
  obtain ⟨d₁, hcollection, hp⟩ := h.publishCollection
  have ht₁ := hp.tidy h.tidy
  have hnames : ∀ r ∈ rs, r.2.name = r.1.name ∧ r.2 ∈ rs.map Prod.snd :=
    fun r hr => ⟨h.names r hr, List.mem_map_of_mem hr⟩
  obtain ⟨d', henvironments, hall⟩ := publishEnvironments_of_standing ht₁ (h.standing.of_collection h.tidy hp) h.apart
    hnames { PublishReport.empty with collection := some ⟨ctx.service.displayName, uid, .replaced⟩ }
  rw [h.environments] at henvironments
  have hwrites := hall.writesAll
  rw [List.map_map] at hwrites
  have hapart : Apart ((rs.map fun r => (r.1, r.2.asReplaced)).map Prod.snd) := by
    simpa [Function.comp_def] using h.apart.asReplaced
  refine ⟨d', ?_, .cons hp.write hwrites, settled_of_publishesAll h.tidy h.fixed hp hall ?_ hapart⟩
  · rw [Collection.publish, hcollection]
    exact henvironments
  · rw [← h.environments, List.map_map]
    rfl

end Settled

/-- Where the same documents are written twice, with environments that may differ, only those can change. -/
theorem text?_of_writesAll {f g : Environment × Published → Environment} {d₂ : Disk}
    (h : WritesAll ((collectionKind.path root uid, c.toJson) ::
      rs.map fun r => (environmentKind.path root r.2.uid, (f r).toJson)) d d₁)
    (h' : WritesAll ((collectionKind.path root uid, c.toJson) ::
      rs.map fun r => (environmentKind.path root r.2.uid, (g r).toJson)) d₁ d₂) (q : Place) :
    d₂.text? q = d₁.text? q ∨ ∃ r ∈ rs, q = placeAt d.home (environmentKind.path root r.2.uid) ∧
      d₁.text? q = some ((f r).toJson.pretty ++ "\n") ∧ d₂.text? q = some ((g r).toJson.pretty ++ "\n") := by
  let rows : List (String × Json × Json) := (collectionKind.path root uid, c.toJson, c.toJson) ::
    rs.map fun r => (environmentKind.path root r.2.uid, (f r).toJson, (g r).toJson)
  have hd : ∀ r ∈ rows, IsDocument r.1 := List.forall_mem_cons.2
    ⟨collectionKind.isDocument_path root uid,
      List.forall_mem_map.2 fun r _ => environmentKind.isDocument_path root r.2.uid⟩
  have h : WritesAll (rows.map fun r => (r.1, r.2.1)) d d₁ := by simpa [rows, Function.comp_def] using h
  have h' : WritesAll (rows.map fun r => (r.1, r.2.2)) d₁ d₂ := by simpa [rows, Function.comp_def] using h'
  have hd₁ : ∀ p ∈ rows.map fun r => (r.1, r.2.1), IsDocument p.1 := List.forall_mem_map.2 hd
  have hhome : d.home = d₁.home := (h.within hd₁).home
  rcases WritesAll.text?_rows hd h h' hhome q with ⟨row, hrow, hq, ht, ht'⟩ | ⟨-, ht'⟩
  · rcases List.mem_cons.1 hrow with rfl | hrow
    · exact .inl (ht'.trans ht.symm)
    · obtain ⟨r, hr, rfl⟩ := List.mem_map.1 hrow
      exact .inr ⟨r, hr, hq, ht, ht'⟩
  · exact .inl ht'

section Again

variable (hids : (ds.map (·.id)).Nodup) (hquery : ∀ x ∈ ds, ((urlOf ctx x).query.map QueryEntry.key).Nodup)
  (ht : Tidy root d)
  (hheight : (render ctx ds (previousIn root ctx.service.displayName d)).toJson.height ≤ Json.maxDepth)
  (hplain : ∀ e ∈ environments ctx.service, ∀ uid ∈ e.id, Plain uid)
include hids hquery ht hheight hplain

/-- A publication without failures leaves a folder settled, if it puts no two environments under one uid. -/
theorem settled_of_publish {report : PublishReport}
    (h : publish ctx (workspace root) ctx.service.displayName ds d = (report, d')) (hs : report.isSuccess = true)
    (ha : Apart report.environments) :
    ∃ (p : Published) (c : Collection) (rs : List (Environment × Published)),
      report = ⟨some p, rs.map Prod.snd, []⟩ ∧ p.name = ctx.service.displayName ∧
        (∀ r ∈ rs, r.2.action = .created → r.1.id = none) ∧
        WritesAll ((collectionKind.path root p.uid, c.toJson) ::
          rs.map fun r => (environmentKind.path root r.2.uid, (stored r.1 r.2).toJson)) d d' ∧
        Settled ctx ds root p.uid c rs d' := by
  obtain ⟨⟨a, attempts⟩, d'', hc, hr⟩ := exists_course ctx (workspace root) ctx.service.displayName ds d
  obtain ⟨rfl, rfl⟩ := Prod.mk.inj ((hc.publish_eq hr).symm.trans h)
  obtain ⟨⟨p, hp⟩, hok⟩ := (Course.isSuccess_report_iff _).1 hs
  obtain ⟨d₁, hfirst, hrest⟩ := Workspace.exists_of_run_append hr
  obtain ⟨c, hname, hfixed, hpublishes⟩ :=
    exists_publishes_of_course hids hquery ht hheight hc.collection hfirst hp
  have ht₁ := hpublishes.tidy ht
  have hplain : ∀ r ∈ attempts, ∀ uid ∈ r.1.id, Plain uid :=
    fun r hr => hplain r.1 (hc.environments ▸ List.mem_map_of_mem hr)
  obtain ⟨rs, hes, hps, hall⟩ := exists_publishesAll ht₁ hplain hc.each hrest hok
  have hreport : Course.report ctx.service.displayName ⟨a, attempts⟩ = ⟨some p, rs.map Prod.snd, []⟩ := by
    have hnone : (Course.report ctx.service.displayName ⟨a, attempts⟩).failures = [] := List.isEmpty_iff.1 hs
    simp only [Course.report] at hnone ⊢
    rw [hnone, hps, hp]
    rfl
  rw [hreport] at ha ⊢
  exact ⟨p, c, rs, rfl, hname, fun r hr => (hall.mem r hr).2, .cons hpublishes.write hall.writesAll,
    settled_of_publishesAll ht hfixed hpublishes hall (hes.trans hc.environments) ha⟩

end Again

/-- An environment that was not published yet. -/
def development : Deployment := ⟨"dev", none, []⟩

def staged : Context :=
  { ordering with service := { ordering.service with deployments := [development] } }

/-- The uid under which its environment is created. -/
def stagedUid : String :=
  stableId ["environment", "dev"]

/-- What a publication of it to an empty disk leaves. -/
def stagedDisk : Disk :=
  (publish staged (workspace "out") staged.service.displayName [pinging] .empty).2

/-- What such a publication reports. -/
def stagedReport : PublishReport :=
  ⟨some ⟨"shop", stableId ["collection", "shop"], .created⟩, [⟨"dev", stagedUid, .created⟩], []⟩

theorem publish_staged : publish staged (workspace "out") staged.service.displayName [pinging] .empty =
    (stagedReport, stagedDisk) :=
  Prod.ext (by decide +kernel) rfl

theorem height_staged :
    (render staged [pinging] (previousIn "out" staged.service.displayName .empty)).toJson.height ≤ Json.maxDepth := by
  have hnone : previousIn "out" staged.service.displayName .empty = none :=
    Option.isNone_iff_eq_none.1 (by decide +kernel)
  rw [hnone]
  decide +kernel

theorem plain_staged : ∀ e ∈ environments staged.service, ∀ uid ∈ e.id, Plain uid := by
  intro e he uid hu
  obtain rfl := List.mem_singleton.1 he
  cases hu

theorem apart_staged : Apart stagedReport.environments := by
  intro p hp q hq _
  rw [List.mem_singleton.1 hp, List.mem_singleton.1 hq]

end Folder

end ApiDocs.Collection
