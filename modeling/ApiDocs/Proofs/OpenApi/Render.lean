import ApiDocs.Proofs.OpenApi.Claims
import ApiDocs.Proofs.OpenApi.Owners
/-!
# When a document is rendered

Definitions that take different paths and methods, all of them known, make a document unless two
owners that they reach share a name, and the fault then names two such owners. In a document that is
made, the claimed owners are those that are reached.
-/
namespace ApiDocs.OpenApi

/-- The path and the method that a definition takes. -/
def place (ctx : Context) (d : Definition) : String × String :=
  (pathOf ctx d, Text.lowerAscii d.method)

/-- Whether the format knows the method of a definition. -/
def Supported (d : Definition) : Prop :=
  Text.lowerAscii d.method ∈ Method.all.map Method.word

instance : DecidablePred Supported := fun d =>
  inferInstanceAs (Decidable (Text.lowerAscii d.method ∈ Method.all.map Method.word))

variable {ctx : Context} {d : Definition} {ds : List Definition}

theorem supported_iff : Supported d ↔ ∃ m, Method.ofName? d.method = some m := by
  rw [← Option.isSome_iff_exists, Method.ofName?, List.find?_isSome]
  simp [Supported]

theorem PathItem.operation?_empty (m : Method) : PathItem.empty.operation? m = none := by
  cases m <;> rfl

theorem PathItem.operation?_set (p : PathItem) (m m' : Method) (o : Operation) :
    (p.set m o).operation? m' = if m' = m then some o else p.operation? m' := by
  cases m <;> cases m' <;> rfl

/-! ## Drafts -/

namespace Draft

variable {draft draft' : Draft}

/-- The draft with the operation of one more definition. -/
def including (ctx : Context) (draft : Draft) (d : Definition) (m : Method) (claims : Claims) : Draft where
  paths := draft.paths.alter (pathOf ctx d) fun item => (item.getD PathItem.empty).set m (operationOf ctx d)
  taken := (place ctx d, d.name) :: draft.taken
  groups := draft.groups.put d.group ()
  claims := claims

theorem add_ok (h : draft.add ctx d = .ok draft') :
    draft.taken.lookup (place ctx d) = none ∧ Supported d ∧
      ∃ m claims, Method.ofName? d.method = some m ∧
        draft.claims.claimAll (operationOwners ctx d) = .ok claims ∧
        draft' = draft.including ctx d m claims := by
  unfold add at h
  simp only [← place.eq_1] at h
  cases hl : draft.taken.lookup (place ctx d) with
  | some first => simp [hl] at h
  | none =>
    cases hc : draft.claims.claimAll (operationOwners ctx d) with
    | error fault => simp [hl, hc] at h
    | ok claims =>
      cases hm : Method.ofName? d.method with
      | none => simp [hl, hc, hm] at h
      | some m =>
        simp only [hl, hc, hm, Except.ok.injEq] at h
        exact ⟨rfl, supported_iff.2 ⟨m, hm⟩, m, claims, rfl, rfl, h.symm⟩

theorem add_error (hf : draft.taken.lookup (place ctx d) = none) (hs : Supported d) {fault : Fault}
    (h : draft.add ctx d = .error fault) : draft.claims.claimAll (operationOwners ctx d) = .error fault := by
  obtain ⟨m, hm⟩ := supported_iff.1 hs
  unfold add at h
  simp only [← place.eq_1, hf, hm] at h
  cases hc : draft.claims.claimAll (operationOwners ctx d) with
  | error fault' =>
    simpa [hc] using h
  | ok claims => simp [hc] at h

theorem lookup_including {m : Method} {claims : Claims} {k : String × String} :
    (draft.including ctx d m claims).taken.lookup k = none ↔ k ≠ place ctx d ∧ draft.taken.lookup k = none := by
  rw [including, List.lookup_cons]
  by_cases hk : k = place ctx d
  · simp [hk]
  · have hb : (k == place ctx d) = false := by simpa using hk
    rw [hb]
    exact ⟨fun h => ⟨hk, h⟩, And.right⟩

/-- Taking in definitions without a fault is taking in the first one and then the others. -/
theorem addAll_cons_ok (h : draft.addAll ctx (d :: ds) = .ok draft') :
    ∃ draft₁, draft.add ctx d = .ok draft₁ ∧ draft₁.addAll ctx ds = .ok draft' := by
  unfold addAll at h
  cases ha : draft.add ctx d with
  | error fault =>
    rw [ha] at h
    cases h
  | ok draft₁ =>
    rw [ha] at h
    exact ⟨draft₁, rfl, h⟩

/-- Taking in definitions claims all that their operations refer to. -/
theorem addAll_ok (h : draft.addAll ctx ds = .ok draft') :
    (ds.map (place ctx)).Nodup ∧ (∀ d ∈ ds, draft.taken.lookup (place ctx d) = none) ∧
      (∀ d ∈ ds, Supported d) ∧
      draft.claims.claimAll (ds.flatMap (operationOwners ctx)) = .ok draft'.claims := by
  induction ds generalizing draft with
  | nil =>
    cases h
    exact ⟨List.nodup_nil, by simp, by simp, rfl⟩
  | cons d rest ih =>
    obtain ⟨draft₁, ha, h⟩ := addAll_cons_ok h
    obtain ⟨hl, hs, m, claims, -, hc, rfl⟩ := add_ok ha
    obtain ⟨hn, hfree, hsup, hclaims⟩ := ih h
    refine ⟨List.nodup_cons.2 ⟨fun hm => ?_, hn⟩, ?_, ?_, ?_⟩
    · obtain ⟨d', hd', he⟩ := List.mem_map.1 hm
      exact (lookup_including.1 (hfree d' hd')).1 he
    · exact List.forall_mem_cons.2 ⟨hl, fun d' hd' => (lookup_including.1 (hfree d' hd')).2⟩
    · exact List.forall_mem_cons.2 ⟨hs, hsup⟩
    · rw [List.flatMap_cons, Claims.claimAll_append, hc]
      exact hclaims

/-- Definitions with places of their own only fail where their claims do. -/
theorem addAll_error (hn : (ds.map (place ctx)).Nodup) (hf : ∀ d ∈ ds, draft.taken.lookup (place ctx d) = none)
    (hs : ∀ d ∈ ds, Supported d) {fault : Fault} (h : draft.addAll ctx ds = .error fault) :
    draft.claims.claimAll (ds.flatMap (operationOwners ctx)) = .error fault := by
  induction ds generalizing draft with
  | nil => cases h
  | cons d rest ih =>
    obtain ⟨hd, hn⟩ := List.nodup_cons.1 hn
    obtain ⟨hl, hf⟩ := List.forall_mem_cons.1 hf
    obtain ⟨hsd, hs⟩ := List.forall_mem_cons.1 hs
    unfold addAll at h
    rw [List.flatMap_cons, Claims.claimAll_append]
    cases ha : draft.add ctx d with
    | error fault' =>
      rw [ha] at h
      cases h
      rw [add_error hl hsd ha]
      rfl
    | ok draft₁ =>
      rw [ha] at h
      obtain ⟨-, -, m, claims, -, hc, rfl⟩ := add_ok ha
      rw [hc]
      refine ih hn (fun d' hd' => lookup_including.2 ⟨fun he => hd ?_, hf d' hd'⟩) hs h
      exact he ▸ List.mem_map_of_mem hd'

/-- What is written of some definitions: only their operations, and all their groups. -/
structure Written (ctx : Context) (ds : List Definition) (draft : Draft) : Prop where
  operations : ∀ path item m op, draft.paths.get? path = some item → item.operation? m = some op →
    ∃ d ∈ ds, op = operationOf ctx d
  groups : ∀ d ∈ ds, d.group ∈ draft.groups.keys

theorem written_empty : Written ctx [] empty where
  operations := by
    intro path item m op h
    cases h
  groups := by simp

theorem Written.add (h : Written ctx ds draft) (ha : draft.add ctx d = .ok draft') :
    Written ctx (ds ++ [d]) draft' := by
  obtain ⟨-, -, m, claims, -, -, rfl⟩ := add_ok ha
  refine ⟨?_, ?_⟩
  · intro path item m' op hi ho
    have hold : ∀ item', draft.paths.get? path = some item' → item'.operation? m' = some op →
        ∃ d' ∈ ds ++ [d], op = operationOf ctx d' := by
      intro item' hi' ho'
      obtain ⟨d', hd', he⟩ := h.operations path item' m' op hi' ho'
      exact ⟨d', List.mem_append_left _ hd', he⟩
    simp only [including, Keyed.alter, Keyed.get?_put] at hi
    split at hi
    case isTrue hp =>
      cases hi
      rw [PathItem.operation?_set] at ho
      split at ho
      case isTrue =>
        cases ho
        exact ⟨d, by simp, rfl⟩
      case isFalse =>
        cases hg : draft.paths.get? (pathOf ctx d) with
        | none => simp [hg, PathItem.operation?_empty] at ho
        | some item' =>
          rw [hg] at ho
          exact hold item' (hp ▸ hg) ho
    case isFalse => exact hold item hi ho
  · intro d' hd'
    refine Keyed.mem_keys_put.2 ?_
    rcases List.mem_append.1 hd' with hd' | hd'
    · exact .inr (h.groups d' hd')
    · exact .inl (List.mem_singleton.1 hd' ▸ rfl)

theorem Written.addAll {done : List Definition} (h : Written ctx done draft)
    (ha : draft.addAll ctx ds = .ok draft') : Written ctx (done ++ ds) draft' := by
  induction ds generalizing done draft with
  | nil =>
    cases ha
    simpa using h
  | cons d rest ih =>
    obtain ⟨draft₁, hd, ha⟩ := addAll_cons_ok ha
    have := ih (h.add hd) ha
    rwa [List.append_assoc] at this

end Draft

/-! ## Documents -/

theorem reached_of_mem_flatMap {o : Owner} (h : o ∈ ds.flatMap (operationOwners ctx)) : Reached ctx ds o := by
  obtain ⟨d, hd, ho⟩ := List.mem_flatMap.1 h
  exact .operation hd (mem_operationOwners.1 ho)

theorem reached_of_mem_reached {path : String} (h : Reached ctx ds (.model path)) {o : Owner}
    (ho : o ∈ Claims.reached ctx.conventions ctx.models path) : Reached ctx ds o := by
  unfold Claims.reached at ho
  split at ho
  case h_1 m hm => exact h.model hm ho
  case h_2 => cases ho

/-- A document is that of a draft with the definitions and of its claims, closed. -/
theorem exists_closed_of_render {doc : Document} (h : render ctx ds = .ok doc) :
    ∃ draft claims, Draft.empty.addAll ctx ds = .ok draft ∧
      draft.claims.close ctx.conventions ctx.models = .ok claims ∧ doc = draft.document ctx claims := by
  unfold render at h
  cases ha : Draft.empty.addAll ctx ds with
  | error fault => simp [ha] at h
  | ok draft =>
    simp only [ha] at h
    cases hc : draft.claims.close ctx.conventions ctx.models with
    | error fault => simp [hc] at h
    | ok claims =>
      simp only [hc, Except.ok.injEq] at h
      exact ⟨draft, claims, rfl, hc, h.symm⟩

/-- A draft claims for owners that are reached, each under a name of its own. -/
theorem Draft.claimed_of_addAll {draft : Draft} (h : Draft.empty.addAll ctx ds = .ok draft) :
    Claims.Claimed (Reached ctx ds) [] draft.claims := by
  obtain ⟨-, -, -, hc⟩ := Draft.addAll_ok h
  exact Claims.claimed_empty.claimAll (fun o => reached_of_mem_flatMap) hc

/-- In a document the claimed owners are those that are reached, each under a name of its own. -/
theorem render_ok {doc : Document} (h : render ctx ds = .ok doc) :
    (ds.map (place ctx)).Nodup ∧ (∀ d ∈ ds, Supported d) ∧
      ∃ draft claims, doc = draft.document ctx claims ∧ Draft.Written ctx ds draft ∧
        (claims.owners.map Owner.name).Nodup ∧ ∀ o, o ∈ claims.owners ↔ Reached ctx ds o := by
  obtain ⟨draft, claims, ha, hcl, hdoc⟩ := exists_closed_of_render h
  obtain ⟨hn, -, hs, hc⟩ := Draft.addAll_ok ha
  obtain ⟨hnamed, hsound, hgrow, hclosed⟩ :=
    (Draft.claimed_of_addAll ha).close_ok (fun path hp o => reached_of_mem_reached hp) hcl
  obtain ⟨-, -, -, -, hall, -⟩ := Claims.claimAll_ok hc
  refine ⟨hn, hs, draft, claims, hdoc, Draft.written_empty.addAll ha, hnamed,
    fun o => ⟨hsound o, fun ho => ?_⟩⟩
  -- What operations refer to was claimed with them, and all else when its model was looked into.
  induction ho with
  | operation hd hr => exact hgrow _ (hall _ (List.mem_flatMap.2 ⟨_, hd, mem_operationOwners.2 hr⟩))
  | @field path m f o _ hm he hf hh ih =>
    refine hclosed path ih o ?_
    rw [Claims.reached, hm]
    exact mem_modelOwners.2 ⟨he, f, hf, hh⟩

/-- With places of their own and known methods, definitions can only fail for two owners of one name. -/
theorem render_error (hn : (ds.map (place ctx)).Nodup) (hs : ∀ d ∈ ds, Supported d) {fault : Fault}
    (h : render ctx ds = .error fault) : Collision (Reached ctx ds) fault := by
  unfold render at h
  cases ha : Draft.empty.addAll ctx ds with
  | error fault' =>
    simp only [ha, Except.error.injEq] at h
    subst h
    have hc := Draft.addAll_error hn (fun _ _ => rfl) hs ha
    exact Claims.claimed_empty.collision (fun o => reached_of_mem_flatMap) hc
  | ok draft =>
    simp only [ha] at h
    cases hcl : draft.claims.close ctx.conventions ctx.models with
    | error fault' =>
      simp only [hcl, Except.error.injEq] at h
      subst h
      exact (Draft.claimed_of_addAll ha).close_error (fun path hp o => reached_of_mem_reached hp) hcl
    | ok claims => simp [hcl] at h

/-- A document is made exactly of definitions with places of their own and known methods that reach
no two owners of one name. -/
theorem render_ok_iff : (∃ doc, render ctx ds = .ok doc) ↔
    (ds.map (place ctx)).Nodup ∧ (∀ d ∈ ds, Supported d) ∧
      ∀ o p, Reached ctx ds o → Reached ctx ds p → o.name = p.name → o = p := by
  refine ⟨fun ⟨doc, h⟩ => ?_, fun ⟨hn, hs, hinj⟩ => ?_⟩
  · obtain ⟨hn, hs, draft, claims, -, -, hnamed, hmem⟩ := render_ok h
    refine ⟨hn, hs, fun o p ho hp he => ?_⟩
    exact List.inj_on_of_nodup_map hnamed ((hmem o).2 ho) ((hmem p).2 hp) he
  · cases h : render ctx ds with
    | ok doc => exact ⟨doc, rfl⟩
    | error fault =>
      obtain ⟨p, o, hp, ho, hne, he, -⟩ := render_error hn hs h
      exact absurd (hinj p o hp ho he) hne

/-! ## Collisions -/

/-- Definitions that take places of their own, with known methods, fail exactly if two different
owners among those that they reach share a name. The fault tells of two such owners, by texts that
tell them apart; so a page is never taken for a model, and to be referred to twice is no fault. -/
theorem render_fails_iff_collision (ctx : Context) (ds : List Definition)
    (hn : (ds.map (place ctx)).Nodup) (hs : ∀ d ∈ ds, Supported d) :
    ((∃ fault, render ctx ds = .error fault) ↔
      ∃ o p, Reached ctx ds o ∧ Reached ctx ds p ∧ o ≠ p ∧ o.name = p.name) ∧
    ∀ fault, render ctx ds = .error fault →
      ∃ o p, Reached ctx ds o ∧ Reached ctx ds p ∧ o ≠ p ∧ o.name = p.name ∧ o.text ≠ p.text ∧
        fault = .schemaNameCollision o.name o.text p.text := by
  have hfault : ∀ fault, render ctx ds = .error fault →
      ∃ o p, Reached ctx ds o ∧ Reached ctx ds p ∧ o ≠ p ∧ o.name = p.name ∧ o.text ≠ p.text ∧
        fault = .schemaNameCollision o.name o.text p.text := by
    intro fault h
    obtain ⟨o, p, ho, hp, hne, he, rfl⟩ := render_error hn hs h
    exact ⟨o, p, ho, hp, hne, he, fun ht => hne (Owner.eq_of_name_of_text he ht), by rw [he]⟩
  refine ⟨⟨fun ⟨fault, h⟩ => ?_, fun ⟨o, p, ho, hp, hne, he⟩ => ?_⟩, hfault⟩
  · obtain ⟨o, p, ho, hp, hne, he, -⟩ := hfault fault h
    exact ⟨o, p, ho, hp, hne, he⟩
  · cases h : render ctx ds with
    | error fault => exact ⟨fault, rfl⟩
    | ok doc => exact absurd ((render_ok_iff.1 ⟨doc, h⟩).2.2 o p ho hp he) hne

/-- A definition that only returns a class. -/
def returning (method mapping path : String) (shape : ReturnShape) : Definition where
  id := mapping
  name := ""
  className := ""
  description := ""
  group := "shop"
  groupId := ""
  method := method
  urlMapping := mapping
  parameters := []
  headers := []
  returnClass := some path
  returnDescription := ""
  returnShape := shape
  needsSession := false
  responses := Sorted.empty.put "200" "OK"
  errors := []

/-- Orders and their buyers, which refer to each other. -/
def shop : Context where
  service := Service.ofId "shop"
  conventions := .default
  models := Keyed.ofList
    [("a.Order", ⟨"Order", .object, "", [⟨"buyer", .object, "b.User", "", false, none⟩]⟩),
     ("b.User", ⟨"User", .object, "", [⟨"orders", .object, "a.Order", "", true, some .spring⟩]⟩)]

/-- Definitions that return a user, and another one in a field of what they return only. -/
def clashing : List Definition :=
  [returning "GET" "/orders" "a.Order" .array, returning "PUT" "/orders" "a.User" .plain]

theorem shop_collision :
    render shop clashing = .error (.schemaNameCollision "User" "a.User" "b.User") ∧
      ∃ o p, Reached shop clashing o ∧ Reached shop clashing p ∧ o ≠ p ∧ o.name = p.name :=
  ⟨rfl, (render_fails_iff_collision shop clashing (by decide) (by decide)).1.1 ⟨_, rfl⟩⟩

end ApiDocs.OpenApi
