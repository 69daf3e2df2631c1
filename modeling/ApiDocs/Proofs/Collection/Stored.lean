import ApiDocs.Proofs.Collection.Lookup
import ApiDocs.Proofs.Collection.Protocol
/-!
# What a publication leaves in a folder

A document is written over the first of its name, or under another uid if there is none (`Kind.Publishes`). So it is
the first of its name then, and stays so while documents of other names are written under other uids
(`PublishesAll.standing`). A collection that was published is rendered over as it is (`Fixed`).
-/
namespace ApiDocs.Collection.Folder

open Disk

variable {α β : Type} {k : Kind α} {ctx : Context} {ds : List Definition} {root name uid uid' : String}
  {d d' d₁ : Disk} {a : α} {b : β} {v : Json}

/-! ## One document -/

/-- A value is read back from what it is written as. -/
structure Kind.ReadBack (k : Kind α) (a : α) : Prop where
  within : (k.toJson a).Within Json.maxDepth
  read : k.read (.ofJson (k.toJson a)) = .ok a

/-- A document is written over the first of its name, or under another uid if there is none. -/
structure Kind.Publishes (k : Kind α) (root uid : String) (a : α) (d d' : Disk) : Prop where
  plain : Plain uid
  readBack : k.ReadBack a
  replaces : ∀ u b, k.First root (k.nameOf a) d u b → u = uid
  write : d.writeDocument (k.path root uid) (k.toJson a) = (.ok (), d')

/-- A document is the first of its name and can be written again. -/
structure Kind.Stands (k : Kind α) (root name : String) (d : Disk) (uid : String) (a : α) : Prop where
  first : k.First root name d uid a
  keeps : Keeps d (k.path root uid)

namespace Kind

theorem Publishes.tidy (h : k.Publishes root uid a d d') (ht : Tidy root d) : Tidy root d' :=
  tidy_of_writeDocument h.plain h.write ht

/-- What is published is the first of its name. -/
theorem Publishes.stands (h : k.Publishes root uid a d d') (ht : Tidy root d) :
    k.Stands root (k.nameOf a) d' uid a := by
  refine ⟨?_, (written h.write).keeps⟩
  refine first_of_writeDocument ht h.plain h.write h.readBack.within h.readBack.read rfl fun u c hu hc hn => ?_
  obtain ⟨entry, he⟩ := exists_find ht.simple hu hc hn
  obtain ⟨u', c', hfirst, -⟩ := exists_first_of_find ht.simple he
  rw [← h.replaces u' c' hfirst]
  exact hfirst.least u c hu hc hn

/-- What stands in another folder, or under another name and uid, stays. -/
theorem Stands.of_publishes {k' : Kind β} (h : k'.Stands root name d uid' b) (ht : Tidy root d)
    (hp : k.Publishes root uid a d d')
    (hne : k'.folder = k.folder → uid' ≠ uid ∧ ∀ c, k'.document? root d' uid = some c → k'.nameOf c ≠ name) :
    k'.Stands root name d' uid' b :=
  ⟨h.first.of_writeDocument ht hp.plain hp.write hne, h.keeps.mono (written hp.write).within⟩

/-- What stands in a folder can be published again under its uid, also if it has changed. -/
theorem Stands.publishes {a' : α} (h : k.Stands root name d uid a') (hname : k.nameOf a = name) (ha : k.ReadBack a) :
    ∃ d', k.Publishes root uid a d d' := by
  obtain ⟨d', hd'⟩ := h.keeps.writeDocument (k.isDocument_path root uid) (k.toJson a)
  exact ⟨d', h.first.plain, ha, fun u b hb => (hb.unique (hname ▸ h.first)).1, hd'⟩

theorem First.find (h : k.First root name d uid a) (ht : Tidy root d) : k.find root name d = .ok (some (k.entryOf uid a)) :=
  (find_eq_some_iff ht.simple).2 ⟨uid, a, h, rfl⟩

end Kind

theorem replace_eq_of_document? (h : k.document? root d uid = some a) (v : Json) :
    replace (Path.join root k.folder) uid v d = d.writeDocument (k.path root uid) v :=
  if_pos (Kind.hasEntry_of_document? h)

theorem writeDocument_of_replace {folder : String} (h : replace folder uid v d = (.ok (), d')) :
    d.writeDocument (documentPath folder uid) v = (.ok (), d') := by
  unfold replace at h
  simp only at h
  split at h
  · exact h
  · cases h

theorem writeDocument_of_create {folder : String} (h : create folder uid v d = (.ok uid', d')) :
    uid' = uid ∧ d.writeDocument (documentPath folder uid) v = (.ok (), d') := by
  unfold create at h
  split at h
  case h_1 hw =>
    obtain ⟨hu, rfl⟩ := Prod.mk.inj h
    exact ⟨(Except.ok.inj hu).symm, hw⟩
  · cases h

theorem create_of_writeDocument {folder : String} (h : d.writeDocument (documentPath folder uid) v = (.ok (), d')) :
    create folder uid v d = (.ok uid, d') := by
  unfold create
  rw [h]

theorem exists_of_map_ok {γ δ : Type} {f : γ → δ} {answer : Outcome γ} {y : δ} (h : answer.map f = .ok y) :
    ∃ x, answer = .ok x ∧ f x = y := by
  cases answer with
  | error fault => cases h
  | ok x => exact ⟨x, rfl, Except.ok.inj h⟩

/-! ## Answers -/

section Answers

variable {e : Environment} {c : Collection}

theorem answers_findEnvironment {answer : Outcome (Option RemoteEntry)} :
    (workspace root).Answers d (.findEnvironment name answer) d' ↔ environmentKind.find root name d = answer ∧ d = d' :=
  Prod.mk_inj

theorem answers_findCollection {answer : Outcome (Option RemoteEntry)} :
    (workspace root).Answers d (.findCollection name answer) d' ↔ collectionKind.find root name d = answer ∧ d = d' :=
  Prod.mk_inj

theorem answers_fetchCollection {answer : Outcome Collection} :
    (workspace root).Answers d (.fetchCollection uid answer) d' ↔ fetch root uid d = answer ∧ d = d' :=
  Prod.mk_inj

theorem answers_replaceEnvironment {answer : Outcome Unit} :
    (workspace root).Answers d (.replaceEnvironment uid e answer) d' ↔
      replace (environmentsFolder root) uid e.toJson d = (answer, d') := by
  simp only [Workspace.Answers, workspace]

theorem answers_replaceCollection {answer : Outcome Unit} :
    (workspace root).Answers d (.replaceCollection uid c answer) d' ↔
      replace (collectionsFolder root) uid c.toJson d = (answer, d') := by
  simp only [Workspace.Answers, workspace]

theorem answers_createEnvironment {answer : Outcome String} :
    (workspace root).Answers d (.createEnvironment e answer) d' ↔ createEnvironment root e d = (answer, d') := by
  simp only [Workspace.Answers, workspace]

theorem answers_createCollection {answer : Outcome String} :
    (workspace root).Answers d (.createCollection c answer) d' ↔ createCollection root c d = (answer, d') := by
  simp only [Workspace.Answers, workspace]

end Answers

/-! ## One environment -/

/-- What an environment is written as: one that is created gets its uid for an id. -/
def stored (e : Environment) (p : Published) : Environment :=
  match p.action with
  | .created => { e with id := some p.uid }
  | .replaced => e

theorem name_stored (e : Environment) (p : Published) : (stored e p).name = e.name := by
  unfold stored
  split <;> rfl

variable {e : Environment} {p : Published} {attempt : Attempt}

theorem readBack_environment (e : Environment) : environmentKind.ReadBack e :=
  ⟨e.within_toJson.mono (by decide), e.ofNode_toJson⟩

theorem publishes_stored (hu : Plain p.uid) (hover : ∀ u b, environmentKind.First root e.name d u b → u = p.uid)
    (hw : d.writeDocument (environmentKind.path root p.uid) (stored e p).toJson = (.ok (), d')) :
    environmentKind.Publishes root p.uid (stored e p) d d' := by
  refine ⟨hu, readBack_environment (stored e p), fun u b hb => hover u b ?_, hw⟩
  exact name_stored e p ▸ hb

/-- How an environment is published: as it is, or, if it was not there and has no id, with its uid for an id. -/
structure PublishesEnvironment (root : String) (e : Environment) (p : Published) (d d' : Disk) : Prop where
  name_eq : p.name = e.name
  created : p.action = .created → e.id = none
  publishes : environmentKind.Publishes root p.uid (stored e p) d d'

/-- A new environment gets an id that a file can be called after. -/
theorem exists_createEnvironment (root : String) (hid : e.id = none) : ∃ uid, Plain uid ∧
    ∀ d, createEnvironment root e d = create (environmentsFolder root) uid { e with id := some uid }.toJson d := by
  refine ⟨_, plain_stableId ["environment", e.name], fun d => ?_⟩
  rw [createEnvironment, hid]
  rfl

theorem publishesEnvironment_of_course (ht : Tidy root d) (hplain : ∀ uid ∈ e.id, Plain uid)
    (h : EnvironmentCourse e attempt) (hr : (workspace root).Run d attempt.exchanges d') (hok : attempt.outcome = .ok p) :
    PublishesEnvironment root e p d d' := by
  cases h with
  | lost fault hid => cases hok
  | found entry answer =>
    obtain ⟨t, hf, t', hw, rfl⟩ := hr
    obtain ⟨hfind, rfl⟩ := answers_findEnvironment.1 hf
    obtain ⟨⟨⟩, rfl, rfl⟩ := exists_of_map_ok hok
    have hw := answers_replaceEnvironment.1 hw
    obtain ⟨uid, b, hfirst, rfl⟩ := Kind.exists_first_of_find ht.simple hfind
    exact ⟨rfl, nofun, publishes_stored hfirst.plain (fun u c hc => (hc.unique hfirst).1) (writeDocument_of_replace hw)⟩
  | configured missing uid answer hm hid =>
    obtain ⟨t, hf, t', hw, rfl⟩ := hr
    obtain ⟨hfind, rfl⟩ := answers_findEnvironment.1 hf
    obtain ⟨⟨⟩, rfl, rfl⟩ := exists_of_map_ok hok
    have hw := answers_replaceEnvironment.1 hw
    refine ⟨rfl, nofun, publishes_stored (hplain uid hid) (fun u c hc => ?_) (writeDocument_of_replace hw)⟩
    -- What is not found is not there: a first of its name would have been found.
    exact absurd (hfind.symm.trans (hc.find ht)) (hm _)
  | created answer hid =>
    obtain ⟨t, hf, t', hw, rfl⟩ := hr
    obtain ⟨hfind, rfl⟩ := answers_findEnvironment.1 hf
    have hw := answers_createEnvironment.1 hw
    obtain ⟨uid', rfl, rfl⟩ := exists_of_map_ok hok
    obtain ⟨uid, hplain, hcreate⟩ := exists_createEnvironment root hid
    -- The uid is a digest, which is not to be evaluated: only that it is plain counts.
    obtain ⟨rfl, hw⟩ := writeDocument_of_create ((hcreate d).symm.trans hw)
    refine ⟨rfl, fun _ => hid, publishes_stored hplain (fun u c hc => ?_) hw⟩
    cases hfind.symm.trans (hc.find ht)

/-! ## The collection -/

/-- The collection that a publication renders over. -/
def previousIn (root name : String) (d : Disk) : Option Collection :=
  match collectionKind.find root name d with
  | .ok (some entry) => (fetch root entry.uid d).toOption
  | _ => none

/-- A collection that is read back, and rendered over as it is. -/
structure Fixed (ctx : Context) (ds : List Definition) (c : Collection) : Prop where
  restorable : c.Restorable
  height : c.toJson.height ≤ Json.maxDepth
  render_eq : render ctx ds (some c) = c

variable {c : Collection}

theorem Fixed.name_eq (h : Fixed ctx ds c) : c.info.name = ctx.service.displayName := by
  rw [← h.render_eq]
  rfl

theorem Fixed.readBack (h : Fixed ctx ds c) : collectionKind.ReadBack c :=
  ⟨⟨canonical_toJson h.restorable, h.height⟩, ofNode_toJson h.restorable⟩

theorem Fixed.publishes (h : Fixed ctx ds c) (hu : Plain uid)
    (hover : ∀ u b, collectionKind.First root ctx.service.displayName d u b → u = uid)
    (hw : d.writeDocument (collectionKind.path root uid) c.toJson = (.ok (), d')) :
    collectionKind.Publishes root uid c d d' := by
  refine ⟨hu, h.readBack, fun u b hb => hover u b ?_, hw⟩
  rw [← h.name_eq]
  exact hb

theorem restorable_of_document? (h : collectionKind.document? root d uid = some c) : c.Restorable := by
  obtain ⟨text, -, h⟩ := readDocument_eq_ok_iff.1 (value?_eq_some_iff.1 h)
  obtain ⟨n, hn, hc⟩ := Option.map_eq_some_iff.1 h
  exact restorable_of_read (Json.spelled_of_read hn) hc

theorem fetch_of_document? (h : collectionKind.document? root d uid = some c) : fetch root uid d = .ok c := by
  have hentry : d.hasEntry (collectionKind.path root uid) = true := Kind.hasEntry_of_document? h
  exact (if_pos hentry).trans (value?_eq_some_iff.1 h)

theorem previousIn_of_first (ht : Tidy root d) (h : collectionKind.First root name d uid c) :
    previousIn root name d = some c := by
  rw [previousIn, h.find ht]
  exact congrArg Except.toOption (fetch_of_document? h.document)

/-- What is rendered over a collection has its id already. -/
theorem withRemoteId_render (ctx : Context) (ds : List Definition) (c : Collection) (uid : String) :
    withRemoteId (render ctx ds (some c)) (collectionKind.entryOf uid c) = render ctx ds (some c) := by
  obtain ⟨⟨id, name, description, schema, version⟩, items, auth⟩ := c
  cases id <;> rfl

theorem createCollection_eq (root : String) (hid : c.info.id = none) (huid : stableId ["collection", c.info.name] = uid)
    (d : Disk) : createCollection root c d =
      create (collectionsFolder root) uid { c with info := { c.info with id := some uid } }.toJson d := by
  subst huid
  rw [createCollection, hid]
  rfl

/-- A new collection gets an id that a file can be called after. -/
theorem exists_createCollection (root : String) (hid : c.info.id = none) : ∃ uid, Plain uid ∧
    ∀ d, createCollection root c d =
      create (collectionsFolder root) uid { c with info := { c.info with id := some uid } }.toJson d :=
  ⟨_, plain_stableId _, createCollection_eq root hid rfl⟩

section Rendered

variable (hids : (ds.map (·.id)).Nodup) (hquery : ∀ x ∈ ds, ((urlOf ctx x).query.map QueryEntry.key).Nodup)
include hids hquery

theorem fixed_render {previous : Option Collection} (hp : ∀ c ∈ previous, c.Restorable)
    (hheight : (render ctx ds previous).toJson.height ≤ Json.maxDepth) : Fixed ctx ds (render ctx ds previous) :=
  ⟨restorable_render hp, hheight, render_render ctx ds previous hids hquery⟩

/-- A new collection may be given an id. -/
theorem fixed_created (hheight : (render ctx ds none).toJson.height ≤ Json.maxDepth) (id : String) :
    Fixed ctx ds { render ctx ds none with info := { (render ctx ds none).info with id := some id } } := by
  have h := fixed_render hids hquery (by simp) hheight
  refine ⟨h.restorable, height_toJson_of_info (render ctx ds none) _ hheight, ?_⟩
  calc render ctx ds (some { render ctx ds none with info := { (render ctx ds none).info with id := some id } })
      = { render ctx ds (some (render ctx ds none)) with
          info := { (render ctx ds (some (render ctx ds none))).info with id := some id } } := rfl
    _ = { render ctx ds none with info := { (render ctx ds none).info with id := some id } } := by rw [h.render_eq]

/-- How a collection is published: as something that is rendered over itself as it is. -/
theorem exists_publishes_of_course (ht : Tidy root d)
    (hheight : (render ctx ds (previousIn root ctx.service.displayName d)).toJson.height ≤ Json.maxDepth)
    (h : CollectionCourse ctx ctx.service.displayName ds attempt) (hr : (workspace root).Run d attempt.exchanges d')
    (hok : attempt.outcome = .ok p) :
    ∃ c, p.name = ctx.service.displayName ∧ Fixed ctx ds c ∧ collectionKind.Publishes root p.uid c d d' := by
  cases h with
  | lost fault => cases hok
  | created answer =>
    obtain ⟨t, hf, t', hw, rfl⟩ := hr
    obtain ⟨hfind, rfl⟩ := answers_findCollection.1 hf
    have hw := answers_createCollection.1 hw
    obtain ⟨uid', rfl, rfl⟩ := exists_of_map_ok hok
    rw [previousIn, hfind] at hheight
    obtain ⟨uid, hplain, hcreate⟩ := exists_createCollection root (c := render ctx ds none) rfl
    obtain ⟨rfl, hw⟩ := writeDocument_of_create ((hcreate d).symm.trans hw)
    have hfixed := fixed_created hids hquery hheight uid'
    refine ⟨_, rfl, hfixed, hfixed.publishes hplain (fun u c hc => ?_) hw⟩
    cases hfind.symm.trans (hc.find ht)
  | replaced entry fetched answer =>
    obtain ⟨t, hf, t', hfetch, t'', hw, rfl⟩ := hr
    obtain ⟨hfind, rfl⟩ := answers_findCollection.1 hf
    obtain ⟨rfl, rfl⟩ := answers_fetchCollection.1 hfetch
    obtain ⟨⟨⟩, rfl, rfl⟩ := exists_of_map_ok hok
    obtain ⟨uid, c, hfirst, rfl⟩ := Kind.exists_first_of_find ht.simple hfind
    have hfetched : fetch root (collectionKind.entryOf uid c).uid d = .ok c := fetch_of_document? hfirst.document
    have hw := answers_replaceCollection.1 hw
    rw [hfetched, Except.toOption, withRemoteId_render] at hw
    have hw := writeDocument_of_replace hw
    rw [previousIn_of_first ht hfirst] at hheight
    have hfixed := fixed_render hids hquery (by simpa using restorable_of_document? hfirst.document) hheight
    exact ⟨_, rfl, hfixed, hfixed.publishes hfirst.plain (fun u c hc => (hc.unique hfirst).1) hw⟩

end Rendered

/-! ## Environments one after the other -/

/-- Publishes environments in a row, each of which goes well. -/
inductive PublishesAll (root : String) : List (Environment × Published) → Disk → Disk → Prop
  | nil {d : Disk} : PublishesAll root [] d d
  | cons {e : Environment} {p : Published} {rest : List (Environment × Published)} {d d₁ d' : Disk} :
      PublishesEnvironment root e p d d₁ → PublishesAll root rest d₁ d' → PublishesAll root ((e, p) :: rest) d d'

variable {rs : List (Environment × Published)} {ps : List Published}

namespace PublishesAll

theorem mem (h : PublishesAll root rs d d') :
    ∀ r ∈ rs, r.2.name = r.1.name ∧ (r.2.action = .created → r.1.id = none) := by
  induction h with
  | nil => simp
  | cons hp _ ih => exact List.forall_mem_cons.2 ⟨⟨hp.name_eq, hp.created⟩, ih⟩

theorem tidy (h : PublishesAll root rs d d') (ht : Tidy root d) : Tidy root d' := by
  induction h with
  | nil => exact ht
  | cons hp _ ih => exact ih (hp.publishes.tidy ht)

theorem writesAll (h : PublishesAll root rs d d') :
    WritesAll (rs.map fun r => (environmentKind.path root r.2.uid, (stored r.1 r.2).toJson)) d d' := by
  induction h with
  | nil => exact .nil
  | cons hp _ ih => exact .cons hp.publishes.write ih

/-- A collection stays where it is. -/
theorem stands {c : Collection} (h : PublishesAll root rs d d') (ht : Tidy root d)
    (hc : collectionKind.Stands root name d uid c) : collectionKind.Stands root name d' uid c := by
  induction h with
  | nil => exact hc
  | cons hp _ ih =>
    refine ih (hp.publishes.tidy ht) (hc.of_publishes ht hp.publishes fun hf => ?_)
    exact absurd hf (by decide)

end PublishesAll

/-- Each of some environments that were published is the first of its name and can be written again. -/
def Standing (root : String) (ps : List Published) (d : Disk) : Prop :=
  ∀ p ∈ ps, ∃ b, environmentKind.Stands root p.name d p.uid b

/-- Environments of different names were published under different uids. -/
def Apart (ps : List Published) : Prop :=
  ∀ p ∈ ps, ∀ q ∈ ps, p.uid = q.uid → p.name = q.name

theorem Standing.of_publishes {p' : Published} (h : Standing root ps d) (ht : Tidy root d)
    (hp : PublishesEnvironment root e p' d d') (hown : ∀ p ∈ ps, p.uid = p'.uid → p.name = p'.name) :
    Standing root (ps ++ [p']) d' := by
  have hstands := hp.publishes.stands ht
  have hname : environmentKind.nameOf (stored e p') = p'.name := (name_stored e p').trans hp.name_eq.symm
  rw [hname] at hstands
  refine List.forall_mem_append.2 ⟨fun p hm => ?_, by simpa using ⟨_, hstands⟩⟩
  obtain ⟨b, hb⟩ := h p hm
  by_cases hn : p.name = p'.name
  · -- What is published under the name goes over the first that has it.
    have huid : p.uid = p'.uid := hp.publishes.replaces p.uid b (by rw [hname, ← hn]; exact hb.first)
    rw [hn, huid]
    exact ⟨_, hstands⟩
  · refine ⟨b, hb.of_publishes ht hp.publishes fun _ => ⟨fun hu => hn (hown p hm hu), fun c hc he => hn ?_⟩⟩
    rw [hstands.first.document] at hc
    cases hc
    exact he.symm.trans hname

/-- Environments stay where they are when a collection is published. -/
theorem Standing.of_collection {c : Collection} (h : Standing root ps d) (ht : Tidy root d)
    (hp : collectionKind.Publishes root uid c d d') : Standing root ps d' := by
  intro p hm
  obtain ⟨b, hb⟩ := h p hm
  exact ⟨b, hb.of_publishes ht hp fun hf => absurd hf (by decide)⟩

theorem PublishesAll.standing (h : PublishesAll root rs d d') (ht : Tidy root d) (hs : Standing root ps d)
    (ha : Apart (ps ++ rs.map Prod.snd)) : Standing root (ps ++ rs.map Prod.snd) d' := by
  -- By induction with those that were published before, which the next one joins.
  induction h generalizing ps with
  | nil => simpa using hs
  | @cons e p rest d d₁ d' hp _ ih =>
    have hs₁ : Standing root (ps ++ [p]) d₁ :=
      hs.of_publishes ht hp fun q hq => ha q (by simp [hq]) p (by simp)
    simpa using ih (hp.publishes.tidy ht) hs₁ (by simpa using ha)

/-- The environments that are published without a failure, with what the report says of them. -/
theorem exists_publishesAll {attempts : List (Environment × Attempt)} (ht : Tidy root d)
    (hplain : ∀ r ∈ attempts, ∀ uid ∈ r.1.id, Plain uid) (h : ∀ r ∈ attempts, EnvironmentCourse r.1 r.2)
    (hr : (workspace root).Run d (attempts.flatMap fun r => r.2.exchanges) d')
    (hok : ∀ r ∈ attempts, ∃ p, r.2.outcome = .ok p) :
    ∃ rs : List (Environment × Published), rs.map Prod.fst = attempts.map Prod.fst ∧
      (attempts.filterMap fun r => r.2.outcome.toOption) = rs.map Prod.snd ∧ PublishesAll root rs d d' := by
  induction attempts generalizing d with
  | nil => exact ⟨[], rfl, rfl, (show d = d' from hr) ▸ .nil⟩
  | cons r attempts ih =>
    rw [List.forall_mem_cons] at hplain h hok
    obtain ⟨d₁, hfirst, hrest⟩ := Workspace.exists_of_run_append hr
    obtain ⟨p, hp⟩ := hok.1
    have hpublishes := publishesEnvironment_of_course ht hplain.1 h.1 hfirst hp
    obtain ⟨rs, hes, hps, hall⟩ := ih (hpublishes.publishes.tidy ht) hplain.2 h.2 hrest hok.2
    have hsome : r.2.outcome.toOption = some p := congrArg Except.toOption hp
    exact ⟨(r.1, p) :: rs, by simp [hes], by simp [hsome, hps], .cons hpublishes hall⟩

end ApiDocs.Collection.Folder
