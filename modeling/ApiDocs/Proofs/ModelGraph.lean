import ApiDocs.ModelGraph
import ApiDocs.Proofs.Inheritance
import Mathlib.Logic.Relation
/-!
# What resolving makes

Resolving some class paths marks exactly those that the roots need, and makes the model of each that
the source knows, whatever circles the fields run in and in whatever order the roots come. `Underway`
is what every turn of the loop keeps; `Resolved` is what is left of it when nothing is pending.
-/
namespace ApiDocs.Modeler

variable (m : Modeler)

/-- The model of a class path, if the source knows its type. -/
def model? (path : String) : Option Model :=
  match m.source.typeFacts path with
  | .ok t => some (m.modelOf t)
  | .error _ => none

/-- The class paths that are needed for some roots: the wanted roots, and the wanted class paths of
fields that refer to a type, in the model of a needed path. -/
inductive Needed (roots : List String) : String → Prop
  | root {path} : path ∈ roots → m.isWanted path = true → Needed roots path
  | field {path model f} : Needed roots path → m.model? path = some model → f ∈ model.fields →
      f.kind.isReference = true → m.isWanted f.classPath = true → Needed roots f.classPath

/-- One turn of the loop on the pending class paths: the last one discovered fails or gets its model,
which may lead to new ones. -/
inductive Turn : Registry × List String → Registry × List String → Prop
  | failed {r path pending fault} : m.source.typeFacts path = .error fault →
      Turn (r, path :: pending) (r.fail path fault.message, pending)
  | made {r path pending t r' pending'} : m.source.typeFacts path = .ok t →
      r.discover pending (m.references (m.modelOf t)) = (r', pending') →
      Turn (r, path :: pending) (r'.insert path (m.modelOf t), pending')

/-- Any number of turns. -/
def Turns : Registry × List String → Registry × List String → Prop :=
  Relation.ReflTransGen m.Turn

variable {m}

theorem model?_of_ok {path : String} {t : Facts.TypeFacts} (h : m.source.typeFacts path = .ok t) :
    m.model? path = some (m.modelOf t) := by
  simp [model?, h]

theorem model?_eq_some_iff {path : String} {model : Model} :
    m.model? path = some model ↔ ∃ t, m.source.typeFacts path = .ok t ∧ model = m.modelOf t := by
  unfold model?
  cases m.source.typeFacts path with
  | ok t => simp [eq_comm]
  | error fault => simp

theorem mem_references {model : Model} {path : String} :
    path ∈ m.references model ↔
      ∃ f ∈ model.fields, f.kind.isReference = true ∧ m.isWanted f.classPath = true ∧ f.classPath = path := by
  simp only [references, List.mem_map, List.mem_filter, Bool.and_eq_true]
  exact ⟨fun ⟨f, ⟨hf, hr, hw⟩, he⟩ => ⟨f, hf, hr, hw, he⟩, fun ⟨f, hf, hr, hw, he⟩ => ⟨f, ⟨hf, hr, hw⟩, he⟩⟩

theorem Needed.reference {roots : List String} {path q : String} {model : Model} (h : m.Needed roots path)
    (hm : m.model? path = some model) (hq : q ∈ m.references model) : m.Needed roots q := by
  obtain ⟨f, hf, hr, hw, rfl⟩ := mem_references.1 hq
  exact .field h hm hf hr hw

theorem Needed.mono {roots roots' : List String} (hs : ∀ p ∈ roots, p ∈ roots') {path : String}
    (h : m.Needed roots path) : m.Needed roots' path := by
  induction h with
  | root hp hw => exact .root (hs _ hp) hw
  | field _ hm hf hr hw ih => exact .field ih hm hf hr hw

end Modeler

/-! ## Discovering -/

namespace Registry

/-- The class paths that are done with: those with a model, then those that failed. -/
def settled (r : Registry) : List String :=
  r.models.keys ++ r.failures.map (·.1)

theorem visit_of_not_mem {r : Registry} {path : String} (h : path ∉ r.visited) :
    r.visit path = { r with visited := r.visited ++ [path] } := by
  simp [visit, isVisited, h]

theorem nodup_visited_concat {r : Registry} {path : String} (hn : r.visited.Nodup) (h : path ∉ r.visited) :
    (r.visited ++ [path]).Nodup := by
  refine List.nodup_append.2 ⟨hn, by simp, fun q hq q' hq' e => ?_⟩
  rw [List.mem_singleton.1 hq'] at e
  exact h (e ▸ hq)

/-- Discovering marks the new paths among some, each once, and puts them on top. -/
theorem discover_eq (r : Registry) (pending paths : List String) (hn : r.visited.Nodup) :
    ∃ new, r.discover pending paths = ({ r with visited := r.visited ++ new }, new.reverse ++ pending) ∧
      (r.visited ++ new).Nodup ∧ new.length ≤ paths.length ∧ (∀ p ∈ new, p ∈ paths) ∧
      ∀ p ∈ paths, p ∈ r.visited ++ new := by
  induction paths generalizing r pending with
  | nil => exact ⟨[], by simp [discover], by simpa using hn, by simp, by simp, by simp⟩
  | cons p rest ih =>
    by_cases hp : p ∈ r.visited
    · obtain ⟨new, he, hd, hl, hs, hv⟩ := ih r pending hn
      refine ⟨new, ?_, hd, Nat.le_succ_of_le hl, fun q hq => List.mem_cons_of_mem _ (hs q hq), ?_⟩
      · simp [discover, isVisited, hp, he]
      · intro q hq
        rcases List.mem_cons.1 hq with rfl | hq
        · exact List.mem_append_left _ hp
        · exact hv q hq
    · -- The path is marked before the rest is looked at, so a repetition in the rest is not new.
      have hvisit := visit_of_not_mem hp
      have hn' : (r.visit p).visited.Nodup := hvisit ▸ nodup_visited_concat hn hp
      obtain ⟨new, he, hd, hl, hs, hv⟩ := ih (r.visit p) (p :: pending) hn'
      simp only [hvisit, List.append_assoc, List.singleton_append] at he hd hv
      refine ⟨p :: new, ?_, hd, Nat.succ_le_succ hl, ?_, ?_⟩
      · simp [discover, isVisited, hp, hvisit, he]
      · intro q hq
        rcases List.mem_cons.1 hq with rfl | hq
        · exact List.mem_cons_self
        · exact List.mem_cons_of_mem _ (hs q hq)
      · intro q hq
        rcases List.mem_cons.1 hq with rfl | hq
        · simp
        · exact hv q hq

end Registry

/-! ## The loop -/

namespace Modeler

variable (m : Modeler)

/-- What holds of a registry between two turns, when some class paths are pending: every marked path
is needed, and it has a model, has failed, or is pending. -/
structure Underway (roots : List String) (r : Registry) (pending : List String) : Prop where
  distinct : r.visited.Nodup
  accounted : (r.settled ++ pending).Perm r.visited
  needed : ∀ path ∈ r.visited, m.Needed roots path
  rooted : ∀ path ∈ roots, m.isWanted path = true → path ∈ r.visited
  made : ∀ path model, r.models.get? path = some model →
    m.model? path = some model ∧ ∀ q ∈ m.references model, q ∈ r.visited
  failed : ∀ path reason, (path, reason) ∈ r.failures →
    ∃ fault, m.source.typeFacts path = .error fault ∧ reason = fault.message

/-- What is still to be done at most: the pending paths, and those that fields of types which are not
settled can lead to. -/
def load (r : Registry) (pending : List String) : Nat :=
  pending.length + m.source.types.weight (fun t => (m.modelOf t).fields.length) r.settled

variable {m} {roots : List String} {r : Registry} {path : String} {pending : List String}

theorem Underway.not_settled (h : m.Underway roots r (path :: pending)) : path ∉ r.settled := by
  intro hm
  have hn := h.accounted.nodup_iff.2 h.distinct
  exact (List.nodup_append.1 hn).2.2 path hm path List.mem_cons_self rfl

theorem Underway.visited (h : m.Underway roots r (path :: pending)) : path ∈ r.visited :=
  h.accounted.subset (List.mem_append_right _ List.mem_cons_self)

theorem settled_fail (r : Registry) (path reason : String) :
    (r.fail path reason).settled = r.settled ++ [path] := by
  simp [Registry.settled, Registry.fail]

theorem settled_insert {r : Registry} {path : String} (h : path ∉ r.settled) (model : Model) :
    (r.insert path model).settled = r.models.keys ++ path :: r.failures.map (·.1) := by
  have hk : path ∉ r.models.keys := fun hm => h (List.mem_append_left _ hm)
  simp [Registry.settled, Registry.insert, Keyed.keys_put_of_not_mem hk]

/-- A path without a type becomes a failure. -/
theorem Underway.fail (h : m.Underway roots r (path :: pending)) {fault : Fault}
    (hf : m.source.typeFacts path = .error fault) :
    m.Underway roots (r.fail path fault.message) pending where
  distinct := h.distinct
  accounted := by
    rw [settled_fail, List.append_assoc]
    exact h.accounted
  needed := h.needed
  rooted := h.rooted
  made := h.made
  failed := by
    intro p reason hp
    rcases List.mem_append.1 hp with hp | hp
    · exact h.failed p reason hp
    · simp only [List.mem_singleton, Prod.mk.injEq] at hp
      obtain ⟨rfl, rfl⟩ := hp
      exact ⟨fault, hf, rfl⟩

/-- A path with a type gets its model, and what this refers to is marked. -/
theorem Underway.make (h : m.Underway roots r (path :: pending)) {t : Facts.TypeFacts}
    (ht : m.source.typeFacts path = .ok t) {r' : Registry} {pending' : List String}
    (hd : r.discover pending (m.references (m.modelOf t)) = (r', pending')) :
    m.Underway roots (r'.insert path (m.modelOf t)) pending' := by
  obtain ⟨new, he, hn, -, hs, hv⟩ := r.discover_eq pending (m.references (m.modelOf t)) h.distinct
  rw [he] at hd
  obtain ⟨rfl, rfl⟩ := Prod.mk.injEq .. ▸ hd
  have hmodel := model?_of_ok ht
  refine ⟨hn, ?_, ?_, ?_, ?_, h.failed⟩
  · have hset : path ∉ ({ r with visited := r.visited ++ new } : Registry).settled := h.not_settled
    rw [settled_insert hset]
    -- The new paths come on top of the pending ones, but last among the marked ones.
    have hnew : (new.reverse ++ pending).Perm (pending ++ new) :=
      (List.reverse_perm new).append_right _ |>.trans List.perm_append_comm
    have hmoved : (r.models.keys ++ path :: r.failures.map (·.1) ++ (new.reverse ++ pending)).Perm
        (r.settled ++ (path :: pending) ++ new) := by
      simp only [Registry.settled, List.append_assoc, List.cons_append]
      refine List.Perm.append_left _ (.trans ?_ List.perm_middle.symm)
      exact .cons _ (List.Perm.append_left _ hnew)
    exact hmoved.trans (h.accounted.append_right new)
  · intro p hp
    rcases List.mem_append.1 hp with hp | hp
    · exact h.needed p hp
    · exact (h.needed path h.visited).reference hmodel (hs p hp)
  · exact fun p hp hw => List.mem_append_left _ (h.rooted p hp hw)
  · intro p model hp
    change (r.models.put path (m.modelOf t)).get? p = some model at hp
    rw [Keyed.get?_put] at hp
    split at hp
    · subst_vars
      cases hp
      exact ⟨hmodel, hv⟩
    · obtain ⟨hm, hq⟩ := h.made p model hp
      exact ⟨hm, fun q hr => List.mem_append_left _ (hq q hr)⟩

/-- Every turn keeps what holds between turns. -/
theorem Underway.turn {a b : Registry × List String} (h : m.Underway roots a.1 a.2) (ht : m.Turn a b) :
    m.Underway roots b.1 b.2 := by
  cases ht with
  | failed hf => exact h.fail hf
  | made ht hd => exact h.make ht hd

theorem Underway.turns {a b : Registry × List String} (h : m.Underway roots a.1 a.2) (ht : m.Turns a b) :
    m.Underway roots b.1 b.2 := by
  induction ht with
  | refl => exact h
  | tail _ ht ih => exact ih.turn ht

/-! ## The bound of the loop -/

theorem references_length_le (m : Modeler) (model : Model) :
    (m.references model).length ≤ model.fields.length := by
  rw [references, List.length_map]
  exact List.length_filter_le _ _

theorem Underway.load_fail_lt (h : m.Underway roots r (path :: pending)) (reason : String) :
    m.load (r.fail path reason) pending < m.load r (path :: pending) := by
  have hw := Keyed.weight_cons_le (fun t => (m.modelOf t).fields.length) m.source.types h.not_settled
  have hc := Keyed.weight_congr (fun t => (m.modelOf t).fields.length) m.source.types
    (show ∀ k, k ∈ (r.fail path reason).settled ↔ k ∈ path :: r.settled by simp [settled_fail, or_comm])
  simp only [load, List.length_cons]
  omega

theorem Underway.load_make_lt (h : m.Underway roots r (path :: pending)) {t : Facts.TypeFacts}
    (ht : m.source.typeFacts path = .ok t) {r' : Registry} {pending' : List String}
    (hd : r.discover pending (m.references (m.modelOf t)) = (r', pending')) :
    m.load (r'.insert path (m.modelOf t)) pending' < m.load r (path :: pending) := by
  obtain ⟨new, he, -, hl, -, -⟩ := r.discover_eq pending (m.references (m.modelOf t)) h.distinct
  rw [he] at hd
  obtain ⟨rfl, rfl⟩ := Prod.mk.injEq .. ▸ hd
  have hset : path ∉ ({ r with visited := r.visited ++ new } : Registry).settled := h.not_settled
  have hw := Keyed.weight_cons (fun t => (m.modelOf t).fields.length) m.source.types
    (Facts.Source.get?_types_of_ok ht) h.not_settled
  have hc := Keyed.weight_congr (fun t => (m.modelOf t).fields.length) m.source.types
    (show ∀ k, k ∈ r.models.keys ++ path :: r.failures.map (·.1) ↔ k ∈ path :: r.settled by
      simp [Registry.settled, or_left_comm])
  have hf := m.references_length_le (m.modelOf t)
  simp only [load, settled_insert hset, List.length_append, List.length_reverse, List.length_cons]
  omega

/-- With a step for all that is still to be done, the loop comes to its end. -/
theorem turns_run : ∀ (steps : Nat) (r : Registry) (pending : List String), m.Underway roots r pending →
    m.load r pending ≤ steps → m.Turns (r, pending) (m.run steps r pending, []) := by
  -- Every turn takes one step and leaves less to be done, so the steps always cover the load.
  intro steps
  induction steps with
  | zero =>
    intro r pending _ hl
    have hp : pending = [] := List.length_eq_zero_iff.1 (by unfold load at hl; omega)
    subst hp
    exact .refl
  | succ steps ih =>
    intro r pending h hl
    cases pending with
    | nil => exact .refl
    | cons path pending =>
      cases ht : m.source.typeFacts path with
      | error fault =>
        have hlt := h.load_fail_lt fault.message
        simp only [run, ht]
        exact .head (.failed ht) (ih _ _ (h.fail ht) (by omega))
      | ok t =>
        have hlt := h.load_make_lt ht rfl
        simp only [run, ht]
        exact .head (.made ht rfl) (ih _ _ (h.make ht rfl) (by omega))

/-! ## Resolving -/

theorem Underway.of_roots (h : m.Underway roots r []) {roots' : List String} (hs : ∀ p ∈ roots, p ∈ roots')
    (hr : ∀ p ∈ roots', m.isWanted p = true → p ∈ r.visited) : m.Underway roots' r [] :=
  { h with needed := fun p hp => (h.needed p hp).mono hs, rooted := hr }

theorem Underway.start (h : m.Underway roots r []) (hw : m.isWanted path = true) (hv : path ∉ r.visited) :
    m.Underway (roots ++ [path]) (r.visit path) [path] := by
  rw [Registry.visit_of_not_mem hv]
  refine ⟨Registry.nodup_visited_concat h.distinct hv, ?_, ?_, ?_, ?_, h.failed⟩
  · have ha := h.accounted
    rw [List.append_nil] at ha
    exact ha.append_right [path]
  · intro p hp
    rcases List.mem_append.1 hp with hp | hp
    · exact (h.needed p hp).mono fun q hq => List.mem_append_left _ hq
    · rw [List.mem_singleton.1 hp]
      exact .root (by simp) hw
  · intro p hp hpw
    rcases List.mem_append.1 hp with hp | hp
    · exact List.mem_append_left _ (h.rooted p hp hpw)
    · exact List.mem_append_right _ hp
  · intro p model hp
    obtain ⟨hm, hq⟩ := h.made p model hp
    exact ⟨hm, fun q hr => List.mem_append_left _ (hq q hr)⟩

/-- Resolving a wanted path that is not marked runs the loop to its end. -/
theorem Underway.turns_resolve (h : m.Underway roots r []) (hw : m.isWanted path = true)
    (hv : path ∉ r.visited) : m.Turns (r.visit path, [path]) (m.resolve r path, []) := by
  have hres : m.resolve r path = m.run m.stepBound (r.visit path) [path] := by
    simp [resolve, hw, Registry.isVisited, hv]
  have hl : m.load (r.visit path) [path] ≤ m.stepBound := by
    have hb := Keyed.weight_le (fun t => (m.modelOf t).fields.length) m.source.types (r.visit path).settled
    unfold load stepBound
    simp only [List.length_singleton]
    omega
  rw [hres]
  exact turns_run _ _ _ (h.start hw hv) hl

theorem Underway.resolve (h : m.Underway roots r []) (path : String) :
    m.Underway (roots ++ [path]) (m.resolve r path) [] := by
  by_cases hw : m.isWanted path = true
  · by_cases hv : path ∈ r.visited
    · have hres : m.resolve r path = r := by simp [Modeler.resolve, Registry.isVisited, hv]
      rw [hres]
      refine h.of_roots (fun p hp => List.mem_append_left _ hp) fun p hp hpw => ?_
      rcases List.mem_append.1 hp with hp | hp
      · exact h.rooted p hp hpw
      · exact List.mem_singleton.1 hp ▸ hv
    · exact (h.start hw hv).turns (h.turns_resolve hw hv)
  · have hres : m.resolve r path = r := by simp [Modeler.resolve, hw]
    rw [hres]
    refine h.of_roots (fun p hp => List.mem_append_left _ hp) fun p hp hpw => ?_
    rcases List.mem_append.1 hp with hp | hp
    · exact h.rooted p hp hpw
    · exact absurd (List.mem_singleton.1 hp ▸ hpw) hw

theorem underway_empty (m : Modeler) : m.Underway [] Registry.empty [] where
  distinct := List.nodup_nil
  accounted := .refl _
  needed := by simp [Registry.empty]
  rooted := by simp
  made := by simp [Registry.empty]
  failed := by simp [Registry.empty]

theorem underway_resolveAll (m : Modeler) (roots : List String) :
    m.Underway roots (m.resolveAll roots) [] := by
  have main : ∀ (done : List String) (r : Registry), m.Underway done r [] →
      m.Underway (done ++ roots) (roots.foldl m.resolve r) [] := by
    induction roots with
    | nil => intro done r h; simpa using h
    | cons path rest ih =>
      intro done r h
      have := ih _ _ (h.resolve path)
      rwa [List.append_assoc] at this
  exact main [] _ (underway_empty m)

/-! ## What is left -/

variable (m) in
/-- What holds of a registry when some roots are resolved: the marked paths are those that are needed,
each is there once with its model or as a failure, and both are as the type of its own path says. -/
structure Resolved (roots : List String) (r : Registry) : Prop where
  marked : ∀ path, path ∈ r.visited ↔ m.Needed roots path
  marked_once : r.visited.Nodup
  settled_once : r.settled.Nodup
  settled : ∀ path, path ∈ r.settled ↔ path ∈ r.visited
  failed : ∀ path, path ∈ r.failures.map (·.1) ↔
    m.Needed roots path ∧ ∃ fault, m.source.typeFacts path = .error fault
  reasons : ∀ path reason, (path, reason) ∈ r.failures →
    ∃ fault, m.source.typeFacts path = .error fault ∧ reason = fault.message
  models : ∀ path model, r.models.get? path = some model ↔
    m.Needed roots path ∧ ∃ t, m.source.typeFacts path = .ok t ∧ model = m.modelOf t

theorem Underway.mem_visited_iff (h : m.Underway roots r []) (path : String) :
    path ∈ r.visited ↔ m.Needed roots path := by
  refine ⟨h.needed path, fun hn => ?_⟩
  induction hn with
  | root hp hw => exact h.rooted _ hp hw
  | @field path model f _ hm hf hr hw ih =>
    have hmem : path ∈ r.settled := by
      simpa using h.accounted.symm.subset ih
    rcases List.mem_append.1 hmem with hmodel | hfail
    · obtain ⟨made, hmade⟩ := Keyed.mem_keys_iff.1 hmodel
      obtain ⟨hm', hq⟩ := h.made _ _ hmade
      have hsame : made = model := Option.some.inj (hm'.symm.trans hm)
      exact hq _ (mem_references.2 ⟨f, hsame ▸ hf, hr, hw, rfl⟩)
    · -- A path that failed has no model whose fields could need anything.
      obtain ⟨⟨p, reason⟩, hp, rfl⟩ := List.mem_map.1 hfail
      obtain ⟨fault, hfault, -⟩ := h.failed _ _ hp
      simp [model?, hfault] at hm

theorem Underway.resolved (h : m.Underway roots r []) : m.Resolved roots r := by
  have hacc : r.settled.Perm r.visited := by simpa using h.accounted
  have hmade : ∀ path model, r.models.get? path = some model → m.Needed roots path := by
    intro path model hp
    refine h.needed _ (hacc.subset (List.mem_append_left _ ?_))
    exact Keyed.mem_keys_iff.2 ⟨model, hp⟩
  have hsettled : ∀ path, m.Needed roots path → path ∈ r.models.keys ∨ path ∈ r.failures.map (·.1) :=
    fun path hn => List.mem_append.1 (hacc.symm.subset ((h.mem_visited_iff path).2 hn))
  refine ⟨h.mem_visited_iff, h.distinct, hacc.nodup_iff.2 h.distinct, fun path => hacc.mem_iff, ?_,
    h.failed, ?_⟩
  · intro path
    refine ⟨fun hp => ⟨h.needed _ (hacc.subset (List.mem_append_right _ hp)), ?_⟩, fun ⟨hn, fault, hf⟩ => ?_⟩
    · obtain ⟨⟨p, reason⟩, hmem, rfl⟩ := List.mem_map.1 hp
      obtain ⟨fault, hf, -⟩ := h.failed _ _ hmem
      exact ⟨fault, hf⟩
    · rcases hsettled path hn with hk | hk
      · obtain ⟨model, hk⟩ := Keyed.mem_keys_iff.1 hk
        obtain ⟨t, ht, -⟩ := model?_eq_some_iff.1 (h.made _ _ hk).1
        rw [hf] at ht
        cases ht
      · exact hk
  · intro path model
    refine ⟨fun hp => ⟨hmade _ _ hp, model?_eq_some_iff.1 (h.made _ _ hp).1⟩, fun ⟨hn, ht⟩ => ?_⟩
    have hm := model?_eq_some_iff.2 ht
    rcases hsettled path hn with hk | hk
    · obtain ⟨model', hk⟩ := Keyed.mem_keys_iff.1 hk
      rw [hk, ← (h.made _ _ hk).1, hm]
    · obtain ⟨⟨p, reason⟩, hp, rfl⟩ := List.mem_map.1 hk
      obtain ⟨fault, hf, -⟩ := h.failed _ _ hp
      simp [model?, hf] at hm

theorem Resolved.get?_eq_some_iff (h : m.Resolved roots r) {path : String} {model : Model} :
    r.models.get? path = some model ↔ m.Needed roots path ∧ m.model? path = some model := by
  rw [h.models, model?_eq_some_iff]

/-! ## What does not matter -/

/-- Modelers that agree on what one of them needs need the same. -/
theorem Needed.transport {m' : Modeler} {roots' : List String} (hw : ∀ p, m'.isWanted p = m.isWanted p)
    (hroots : ∀ p ∈ roots, p ∈ roots') (hm : ∀ p, m.Needed roots p → m'.model? p = m.model? p)
    (h : m.Needed roots path) : m'.Needed roots' path := by
  induction h with
  | root hp hpw => exact .root (hroots _ hp) ((hw _).trans hpw)
  | field hn hmodel hf hr hpw ih => exact .field ih ((hm _ hn).trans hmodel) hf hr ((hw _).trans hpw)

/-- Failing types need nothing. -/
theorem Needed.of_failing {m' : Modeler} (hw : ∀ p, m'.isWanted p = m.isWanted p)
    (hm : ∀ p, m'.model? p = none ∨ m'.model? p = m.model? p) (h : m'.Needed roots path) :
    m.Needed roots path := by
  induction h with
  | root hp hpw => exact .root hp ((hw _).symm.trans hpw)
  | @field p model f _ hmodel hf hr hpw ih =>
    rcases hm p with hnone | hsame
    · rw [hnone] at hmodel
      cases hmodel
    · exact .field ih (hsame.symm.trans hmodel) hf hr ((hw _).symm.trans hpw)

theorem needed_congr {m' : Modeler} {roots' : List String} (hw : ∀ p, m'.isWanted p = m.isWanted p)
    (hroots : ∀ p, p ∈ roots ↔ p ∈ roots') (hm : ∀ p, m.Needed roots p → m'.model? p = m.model? p)
    (path : String) : m'.Needed roots' path ↔ m.Needed roots path := by
  refine ⟨fun h => ?_, fun h => h.transport hw (fun p => (hroots p).1) hm⟩
  induction h with
  | root hp hpw => exact .root ((hroots _).2 hp) ((hw _).symm.trans hpw)
  | field _ hmodel hf hr hpw ih => exact .field ih ((hm _ ih).symm.trans hmodel) hf hr ((hw _).symm.trans hpw)

/-- Resolving comes to an end on every graph of types, and leaves the models of exactly the class
paths that are needed. The order and the repetition of the roots do not matter, nor do types that are
not needed, and a type that fails takes away at most itself and what was needed through it alone. -/
theorem resolveAll_exact (m : Modeler) (roots : List String) :
    (∀ path, m.isWanted path = true → path ∉ (m.resolveAll roots).visited →
      m.Turns ((m.resolveAll roots).visit path, [path]) (m.resolve (m.resolveAll roots) path, [])) ∧
    (∀ t, ∃ ts, m.source.lineage m.conventions t = t :: ts ∧
      m.source.Ancestry m.conventions.rootType [t.classPath] t.superclass ts) ∧
    m.Resolved roots (m.resolveAll roots) ∧
    (∀ (m' : Modeler) (roots' : List String), (∀ p, m'.isWanted p = m.isWanted p) →
      (∀ p, p ∈ roots ↔ p ∈ roots') → (∀ p, m.Needed roots p → m'.model? p = m.model? p) →
      ∀ p, (m'.resolveAll roots').models.get? p = (m.resolveAll roots).models.get? p) ∧
    ∀ m' : Modeler, (∀ p, m'.isWanted p = m.isWanted p) →
      (∀ p, m'.model? p = none ∨ m'.model? p = m.model? p) →
      ∀ p, m'.Needed roots p → m'.model? p ≠ none →
        (m'.resolveAll roots).models.get? p = (m.resolveAll roots).models.get? p := by
  have hres : ∀ (m : Modeler) (roots : List String), m.Resolved roots (m.resolveAll roots) :=
    fun m roots => (underway_resolveAll m roots).resolved
  refine ⟨?_, m.source.ancestry_lineage m.conventions, hres m roots, ?_, ?_⟩
  · exact fun path hw hv => (underway_resolveAll m roots).turns_resolve hw hv
  · intro m' roots' hw hroots hm p
    refine Option.ext fun model => ?_
    rw [(hres m' roots').get?_eq_some_iff, (hres m roots).get?_eq_some_iff, needed_congr hw hroots hm]
    exact and_congr_right fun hn => by rw [hm p hn]
  · intro m' hw hm p hn hsome
    have hsame : m'.model? p = m.model? p := (hm p).resolve_left hsome
    refine Option.ext fun model => ?_
    rw [(hres m' roots).get?_eq_some_iff, (hres m roots).get?_eq_some_iff, hsame]
    exact and_congr_left fun _ => ⟨fun _ => hn.of_failing hw hm, fun _ => hn⟩

end Modeler

end ApiDocs
