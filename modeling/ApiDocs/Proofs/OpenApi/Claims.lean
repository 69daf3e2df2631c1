import ApiDocs.OpenApi.Components
import ApiDocs.Proofs.Keyed
import Mathlib.Data.List.Nodup
/-!
# Claiming names

Claiming some owners either adds those that are new, each under a name of its own, or tells of two
different owners of one name. `Claimed` is what every claim keeps, for any set of owners that may be
claimed; closing goes on until the owners are closed under the fields of their models.
-/
namespace ApiDocs.OpenApi

/-- The class path of a model. -/
def Owner.path? : Owner → Option String
  | .model path => some path
  | .page _ _ => none

@[simp] theorem Owner.path?_eq_some_iff {o : Owner} {path : String} : o.path? = some path ↔ o = .model path := by
  cases o <;> simp [path?]

/-- Whether a fault tells of two different owners of one name, both among some. -/
def Collision (R : Owner → Prop) (fault : Fault) : Prop :=
  ∃ p o, R p ∧ R o ∧ p ≠ o ∧ p.name = o.name ∧ fault = .schemaNameCollision o.name p.text o.text

namespace Claims

/-! ## One claim -/

theorem claim_ok {cs cs' : Claims} {o : Owner} (h : cs.claim o = .ok cs') :
    o ∈ cs.owners ∧ cs' = cs ∨
      o.name ∉ cs.owners.map Owner.name ∧ cs' = ⟨cs.owners ++ [o], o.path?.toList ++ cs.pending⟩ := by
  unfold claim at h
  split at h
  case h_1 p hp =>
    split at h
    case isTrue he =>
      cases h
      exact .inl ⟨he ▸ List.mem_of_find?_eq_some hp, rfl⟩
    case isFalse => cases h
  case h_2 hp =>
    refine .inr ⟨fun hm => ?_, ?_⟩
    · obtain ⟨p, hp', he⟩ := List.mem_map.1 hm
      simpa [he] using List.find?_eq_none.1 hp p hp'
    · cases h
      cases o <;> rfl

theorem claim_error {cs : Claims} {o : Owner} {fault : Fault} (h : cs.claim o = .error fault) :
    ∃ p ∈ cs.owners, p ≠ o ∧ p.name = o.name ∧ fault = .schemaNameCollision o.name p.text o.text := by
  unfold claim at h
  split at h
  case h_1 p hp =>
    split at h
    case isTrue => cases h
    case isFalse he =>
      cases h
      exact ⟨p, List.mem_of_find?_eq_some hp, he, by simpa using List.find?_some hp, rfl⟩
  case h_2 => cases h

/-! ## Some claims -/

theorem claimAll_append (cs : Claims) (os os' : List Owner) :
    cs.claimAll (os ++ os') = (cs.claimAll os).bind fun cs => cs.claimAll os' := by
  induction os generalizing cs with
  | nil => rfl
  | cons o rest ih =>
    simp only [List.cons_append, claimAll]
    cases cs.claim o with
    | ok cs => exact ih cs
    | error fault => rfl

/-- Successful claims add the owners that are new, in their order, and look into the last one first. -/
theorem claimAll_ok {cs cs' : Claims} {os : List Owner} (h : cs.claimAll os = .ok cs') :
    ∃ new, new.Sublist os ∧ cs'.owners = cs.owners ++ new ∧
      cs'.pending = (new.filterMap Owner.path?).reverse ++ cs.pending ∧ (∀ o ∈ os, o ∈ cs'.owners) ∧
      ((cs.owners.map Owner.name).Nodup → (cs'.owners.map Owner.name).Nodup) := by
  induction os generalizing cs with
  | nil =>
    cases h
    exact ⟨[], .slnil, by simp, rfl, by simp, id⟩
  | cons o rest ih =>
    unfold claimAll at h
    cases hc : cs.claim o with
    | error fault => simp [hc] at h
    | ok cs₁ =>
      rw [hc] at h
      obtain ⟨new, hs, ho, hp, hall, hn⟩ := ih h
      rcases claim_ok hc with ⟨hm, rfl⟩ | ⟨hname, rfl⟩
      · refine ⟨new, hs.cons _, ho, hp, fun q hq => ?_, hn⟩
        rcases List.mem_cons.1 hq with rfl | hq
        · exact ho ▸ List.mem_append_left _ hm
        · exact hall q hq
      · refine ⟨o :: new, hs.cons_cons _, by simp [ho], ?_, fun q hq => ?_, fun hd => hn ?_⟩
        · cases o <;> simp [hp, Owner.path?, List.filterMap_cons]
        · rcases List.mem_cons.1 hq with rfl | hq
          · simp [ho]
          · exact hall q hq
        · rw [List.map_append, List.nodup_append]
          refine ⟨hd, by simp, fun a ha b hb e => ?_⟩
          simp only [List.map_cons, List.map_nil, List.mem_singleton] at hb
          exact hname (hb ▸ e ▸ ha)

theorem claimAll_error {cs : Claims} {os : List Owner} {fault : Fault} (h : cs.claimAll os = .error fault) :
    Collision (fun o => o ∈ cs.owners ∨ o ∈ os) fault := by
  induction os generalizing cs with
  | nil => cases h
  | cons o rest ih =>
    unfold claimAll at h
    cases hc : cs.claim o with
    | error fault' =>
      rw [hc] at h
      cases h
      obtain ⟨p, hp, hne, hname, hf⟩ := claim_error hc
      exact ⟨p, o, .inl hp, .inr List.mem_cons_self, hne, hname, hf⟩
    | ok cs₁ =>
      rw [hc] at h
      obtain ⟨p, q, hp, hq, hne, hname, hf⟩ := ih h
      -- A clash with an owner that was just claimed is one among the owners to be claimed.
      have hback : ∀ a, a ∈ cs₁.owners ∨ a ∈ rest → a ∈ cs.owners ∨ a ∈ o :: rest := by
        rintro a (ha | ha)
        · rcases claim_ok hc with ⟨-, rfl⟩ | ⟨-, rfl⟩
          · exact .inl ha
          · rcases List.mem_append.1 ha with ha | ha
            · exact .inl ha
            · exact .inr (List.mem_singleton.1 ha ▸ List.mem_cons_self)
        · exact .inr (List.mem_cons_of_mem _ ha)
      exact ⟨p, q, hback p hp, hback q hq, hne, hname, hf⟩

/-- What holds of claims when some models have been looked into: all names are different, the owners
are among those that may be claimed, and every other model is pending. -/
structure Claimed (R : Owner → Prop) (settled : List String) (cs : Claims) : Prop where
  named : (cs.owners.map Owner.name).Nodup
  allowed : ∀ o ∈ cs.owners, R o
  accounted : (settled ++ cs.pending).Perm (cs.owners.filterMap Owner.path?)

variable {R : Owner → Prop} {settled : List String} {cs cs' : Claims} {os : List Owner}

theorem claimed_empty : Claimed R [] empty :=
  ⟨List.nodup_nil, by simp [empty], .refl _⟩

theorem Claimed.claimAll (h : Claimed R settled cs) (hos : ∀ o ∈ os, R o) (hc : cs.claimAll os = .ok cs') :
    Claimed R settled cs' := by
  obtain ⟨new, hs, ho, hp, -, hn⟩ := claimAll_ok hc
  refine ⟨hn h.named, fun o hm => ?_, ?_⟩
  · rw [ho] at hm
    exact (List.mem_append.1 hm).elim (h.allowed o) fun hm => hos o (hs.subset hm)
  · rw [ho, hp, List.filterMap_append]
    refine .trans ?_ (h.accounted.append_right _)
    rw [List.append_assoc]
    exact .append_left _ ((List.perm_append_comm).trans (.append_left _ (List.reverse_perm _)))

theorem Claimed.collision (h : Claimed R settled cs) (hos : ∀ o ∈ os, R o) {fault : Fault}
    (hc : cs.claimAll os = .error fault) : Collision R fault := by
  obtain ⟨p, o, hp, ho, hrest⟩ := claimAll_error hc
  exact ⟨p, o, hp.elim (h.allowed p) (hos p), ho.elim (h.allowed o) (hos o), hrest⟩

/-- Taking a pending model out settles it. -/
theorem Claimed.pop {path : String} {owners : List Owner} {pending : List String}
    (h : Claimed R settled ⟨owners, path :: pending⟩) : Claimed R (path :: settled) ⟨owners, pending⟩ :=
  ⟨h.named, h.allowed, List.perm_middle.symm.trans h.accounted⟩

theorem Claimed.nodup_paths (h : Claimed R settled cs) : (settled ++ cs.pending).Nodup := by
  refine h.accounted.nodup_iff.2 (List.Nodup.filterMap ?_ (List.Nodup.of_map _ h.named))
  intro o o' path ho ho'
  rw [Option.mem_def, Owner.path?_eq_some_iff] at ho ho'
  rw [ho, ho']

/-! ## Closing -/

section
variable (c : Conventions) (models : Models)

theorem length_fieldOwners_le (f : Field) : ((fieldOwners c f).filterMap Owner.path?).length ≤ 1 := by
  have hcontent : ∀ path, ((contentOwners c path).filterMap Owner.path?).length ≤ 1 := by
    intro path
    unfold contentOwners
    repeat' split
    all_goals simp [Owner.path?]
  unfold fieldOwners
  split
  · simp
  · exact hcontent _
  · simpa [pageOwners, List.filterMap_cons, Owner.path?] using hcontent _
  · exact hcontent _

/-- No more models come up in a model than it has fields. -/
theorem length_modelOwners_le (m : Model) : ((modelOwners c m).filterMap Owner.path?).length ≤ m.fields.length := by
  unfold modelOwners
  split
  · simp
  · induction m.fields with
    | nil => simp
    | cons f rest ih =>
      have hf := length_fieldOwners_le c f
      simp only [List.flatMap_cons, List.filterMap_append, List.length_append, List.length_cons]
      omega

/-- What is still to be done at most: the pending models, and those that come up in the fields of
models that have not been looked into. -/
def load (settled : List String) (cs : Claims) : Nat :=
  cs.pending.length + models.weight (fun m => m.fields.length) settled

/-- Claims whose models have been looked into, some of them completely. -/
structure Closing (R : Owner → Prop) (settled : List String) (cs : Claims) : Prop extends Claimed R settled cs where
  closed : ∀ path ∈ settled, ∀ o ∈ reached c models path, o ∈ cs.owners

variable {c models}

/-- Looking into a pending model settles it, and leaves less to be done. -/
theorem Closing.look {path : String} {owners : List Owner} {pending : List String}
    (h : Closing c models R settled ⟨owners, path :: pending⟩) (hR : ∀ o ∈ reached c models path, R o)
    (hc : (⟨owners, pending⟩ : Claims).claimAll (reached c models path) = .ok cs') :
    Closing c models R (path :: settled) cs' ∧ (∀ o ∈ owners, o ∈ cs'.owners) ∧
      load models (path :: settled) cs' < load models settled ⟨owners, path :: pending⟩ := by
  obtain ⟨new, hs, ho, hp, hall, -⟩ := claimAll_ok hc
  have hgrow : ∀ o ∈ owners, o ∈ cs'.owners := fun o hm => ho ▸ List.mem_append_left _ hm
  refine ⟨⟨h.pop.claimAll hR hc, ?_⟩, hgrow, ?_⟩
  · intro q hq o hm
    rcases List.mem_cons.1 hq with rfl | hq
    · exact hall o hm
    · exact hgrow o (h.closed q hq o hm)
  · have hfresh : path ∉ settled := fun hm =>
      (List.nodup_append.1 h.nodup_paths).2.2 path hm path List.mem_cons_self rfl
    -- The models that come up are among those of the fields, whose count is no longer ahead of us.
    have hnew := (hs.filterMap Owner.path?).length_le
    simp only [load, hp, List.length_append, List.length_reverse, List.length_cons]
    cases hm : models.get? path with
    | none =>
      have hw := Keyed.weight_cons_le (fun m : Model => m.fields.length) models hfresh
      simp only [reached, hm, List.filterMap_nil, List.length_nil] at hnew
      omega
    | some m =>
      have hw := Keyed.weight_cons (fun m : Model => m.fields.length) models hm hfresh
      have hlen := length_modelOwners_le c m
      simp only [reached, hm] at hnew
      omega

/-- With a step for all that is still to be done, closing leaves nothing pending, or tells of two
owners of one name. -/
theorem Closing.closeWithin (hR : ∀ path, R (.model path) → ∀ o ∈ reached c models path, R o) :
    ∀ (steps : Nat) (settled : List String) (cs : Claims), Closing c models R settled cs →
      load models settled cs ≤ steps →
      (∀ cs', closeWithin c models steps cs = .ok cs' → ∃ settled', Closing c models R settled' cs' ∧
        cs'.pending = [] ∧ ∀ o ∈ cs.owners, o ∈ cs'.owners) ∧
      ∀ fault, closeWithin c models steps cs = .error fault → Collision R fault := by
  intro steps
  induction steps with
  | zero =>
    intro settled cs h hl
    refine ⟨fun cs' hc => ?_, fun fault hc => by cases hc⟩
    cases hc
    exact ⟨settled, h, List.length_eq_zero_iff.1 (by unfold load at hl; omega), fun o ho => ho⟩
  | succ steps ih =>
    intro settled cs h hl
    obtain ⟨owners, pending⟩ := cs
    cases pending with
    | nil =>
      refine ⟨fun cs' hc => ?_, fun fault hc => by cases hc⟩
      cases hc
      exact ⟨settled, h, rfl, fun o ho => ho⟩
    | cons path pending =>
      have hmem : Owner.model path ∈ owners := by
        have hp := h.accounted.subset (List.mem_append_right _ List.mem_cons_self)
        simpa using hp
      have hreach := hR path (h.allowed _ hmem)
      simp only [Claims.closeWithin]
      cases hc : (⟨owners, pending⟩ : Claims).claimAll (reached c models path) with
      | error fault =>
        refine ⟨fun cs' he => (by cases he), fun fault' he => ?_⟩
        cases he
        exact h.pop.collision hreach hc
      | ok cs₁ =>
        obtain ⟨hnext, hgrow, hlt⟩ := h.look hreach hc
        obtain ⟨hok, herr⟩ := ih _ _ hnext (by omega)
        refine ⟨fun cs' he => ?_, herr⟩
        obtain ⟨settled', hclosed, hdone, hmore⟩ := hok cs' he
        exact ⟨settled', hclosed, hdone, fun o ho => hmore o (hgrow o ho)⟩

theorem load_le (cs : Claims) :
    load models [] cs ≤ cs.pending.length + models.total (fun m => m.fields.length) + 1 := by
  have := Keyed.weight_le (fun m : Model => m.fields.length) models []
  unfold load
  omega

/-- Closed claims hold all that their models refer to. -/
theorem Claimed.close_ok (h : Claimed R [] cs) (hR : ∀ path, R (.model path) → ∀ o ∈ reached c models path, R o)
    (hc : close c models cs = .ok cs') :
    (cs'.owners.map Owner.name).Nodup ∧ (∀ o ∈ cs'.owners, R o) ∧ (∀ o ∈ cs.owners, o ∈ cs'.owners) ∧
      ∀ path, Owner.model path ∈ cs'.owners → ∀ o ∈ reached c models path, o ∈ cs'.owners := by
  obtain ⟨settled, hclosed, hdone, hgrow⟩ :=
    (Closing.closeWithin hR _ [] cs ⟨h, by simp⟩ (load_le cs)).1 cs' hc
  refine ⟨hclosed.named, hclosed.allowed, hgrow, fun path hm => hclosed.closed path ?_⟩
  have hp := hclosed.accounted.symm.subset (List.mem_filterMap.2 ⟨_, hm, rfl⟩)
  simpa [hdone] using hp

theorem Claimed.close_error (h : Claimed R [] cs)
    (hR : ∀ path, R (.model path) → ∀ o ∈ reached c models path, R o) {fault : Fault}
    (hc : close c models cs = .error fault) : Collision R fault :=
  (Closing.closeWithin hR _ [] cs ⟨h, by simp⟩ (load_le cs)).2 fault hc

end

end Claims

end ApiDocs.OpenApi
