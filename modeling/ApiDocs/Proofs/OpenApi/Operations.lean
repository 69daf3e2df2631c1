import ApiDocs.Proofs.OpenApi.Render
/-!
# Where operations stand

The operation of every definition stands under its path and its method. A later definition of the
same path has another method, so it is written beside the earlier ones and not over them. Nothing
else is written: every operation of a document is that of a definition with its place, and every path
has one.
-/
namespace ApiDocs.OpenApi

/-- The operation under a path and a method. -/
def operationAt (paths : Keyed PathItem) (path : String) (m : Method) : Option Operation :=
  (paths.get? path).bind fun item => item.operation? m

theorem Document.operation?_eq (doc : Document) (path method : String) :
    doc.operation? path method = (Method.ofName? method).bind (operationAt doc.paths path) := by
  unfold operation? operationAt
  cases doc.paths.get? path <;> cases Method.ofName? method <;> rfl

variable {ctx : Context} {d : Definition} {ds : List Definition}

/-- A known method is called by its word. -/
theorem word_of_ofName? {name : String} {m : Method} (h : Method.ofName? name = some m) :
    m.word = Text.lowerAscii name := by
  simpa using List.find?_some h

namespace Draft

variable {draft draft' : Draft}

theorem operationAt_including {m m' : Method} {claims : Claims} {path : String} :
    operationAt (draft.including ctx d m claims).paths path m' =
      if path = pathOf ctx d ∧ m' = m then some (operationOf ctx d) else operationAt draft.paths path m' := by
  unfold operationAt including
  simp only [Keyed.alter, Keyed.get?_put]
  by_cases hp : pathOf ctx d = path
  · subst hp
    simp only [if_true, Option.bind_some, PathItem.operation?_set, true_and]
    cases hg : draft.paths.get? (pathOf ctx d) with
    | none => simp [PathItem.operation?_empty]
    | some item => simp
  · simp [hp, Ne.symm hp]

/-- What stands where none of the definitions does is kept. -/
theorem operationAt_addAll_of_not_mem (h : draft.addAll ctx ds = .ok draft') {path : String} {m : Method}
    (hp : (path, m.word) ∉ ds.map (place ctx)) :
    operationAt draft'.paths path m = operationAt draft.paths path m := by
  induction ds generalizing draft with
  | nil =>
    cases h
    rfl
  | cons d rest ih =>
    rw [List.map_cons, List.mem_cons, not_or] at hp
    obtain ⟨draft₁, ha, h⟩ := addAll_cons_ok h
    obtain ⟨-, -, m', claims, hm, -, rfl⟩ := add_ok ha
    rw [ih h hp.2, operationAt_including, if_neg]
    rintro ⟨rfl, rfl⟩
    exact hp.1 (Prod.ext rfl (word_of_ofName? hm))

/-- Taking in definitions writes the operations of all of them. -/
theorem operationAt_addAll (h : draft.addAll ctx ds = .ok draft') (hd : d ∈ ds) :
    ∃ m, Method.ofName? d.method = some m ∧
      operationAt draft'.paths (pathOf ctx d) m = some (operationOf ctx d) := by
  induction ds generalizing draft with
  | nil => cases hd
  | cons d' rest ih =>
    obtain ⟨hn, -⟩ := List.nodup_cons.1 (addAll_ok h).1
    obtain ⟨draft₁, ha, h⟩ := addAll_cons_ok h
    rcases List.mem_cons.1 hd with rfl | hd
    · obtain ⟨-, -, m, claims, hm, -, rfl⟩ := add_ok ha
      have hplace : (pathOf ctx d, m.word) = place ctx d := Prod.ext rfl (word_of_ofName? hm)
      refine ⟨m, hm, ?_⟩
      rw [operationAt_addAll_of_not_mem h (hplace ▸ hn), operationAt_including, if_pos ⟨rfl, rfl⟩]
    · exact ih h hd

/-- Every operation in a draft was there before or is that of a definition with its place. -/
theorem exists_of_operationAt_addAll (h : draft.addAll ctx ds = .ok draft') {path : String} {m : Method}
    {op : Operation} (ho : operationAt draft'.paths path m = some op) :
    operationAt draft.paths path m = some op ∨ ∃ d ∈ ds, place ctx d = (path, m.word) ∧ op = operationOf ctx d := by
  induction ds generalizing draft with
  | nil =>
    cases h
    exact .inl ho
  | cons d rest ih =>
    obtain ⟨draft₁, ha, h⟩ := addAll_cons_ok h
    obtain ⟨-, -, m', claims, hm, -, rfl⟩ := add_ok ha
    rcases ih h with hop | ⟨d', hd', hplace, hop⟩
    · rw [operationAt_including] at hop
      split at hop
      case isTrue heq =>
        obtain ⟨rfl, rfl⟩ := heq
        exact .inr ⟨d, List.mem_cons_self, Prod.ext rfl (word_of_ofName? hm).symm, (Option.some.inj hop).symm⟩
      case isFalse => exact .inl hop
    · exact .inr ⟨d', List.mem_cons_of_mem _ hd', hplace, hop⟩

/-- Every path in a draft was there before or is that of a definition. -/
theorem exists_of_mem_paths_addAll (h : draft.addAll ctx ds = .ok draft') {path : String}
    (hp : path ∈ draft'.paths.keys) : path ∈ draft.paths.keys ∨ ∃ d ∈ ds, pathOf ctx d = path := by
  induction ds generalizing draft with
  | nil =>
    cases h
    exact .inl hp
  | cons d rest ih =>
    obtain ⟨draft₁, ha, h⟩ := addAll_cons_ok h
    obtain ⟨-, -, m, claims, -, -, rfl⟩ := add_ok ha
    rcases ih h with hmem | ⟨d', hd', rfl⟩
    · rcases Keyed.mem_keys_put.1 hmem with rfl | hmem
      · exact .inr ⟨d, List.mem_cons_self, rfl⟩
      · exact .inl hmem
    · exact .inr ⟨d', List.mem_cons_of_mem _ hd', rfl⟩

end Draft

/-- A rendered document, where rendering is known to succeed. -/
theorem exists_document (h : (render ctx ds).toOption.isSome = true) : ∃ doc, render ctx ds = .ok doc := by
  obtain ⟨doc, hdoc⟩ := Option.isSome_iff_exists.1 h
  exact ⟨doc, Outcome.toOption_eq_some_iff.1 hdoc⟩

/-- A document has the operations of a draft of its definitions. -/
theorem exists_draft {doc : Document} (h : render ctx ds = .ok doc) :
    ∃ draft, Draft.empty.addAll ctx ds = .ok draft ∧ doc.paths = draft.paths := by
  obtain ⟨draft, claims, ha, -, rfl⟩ := exists_closed_of_render h
  exact ⟨draft, ha, rfl⟩

/-- In a document the operation of a definition stands under its path and its method. -/
theorem operationAt_render {doc : Document} (h : render ctx ds = .ok doc) (hd : d ∈ ds) :
    ∃ m, Method.ofName? d.method = some m ∧
      operationAt doc.paths (pathOf ctx d) m = some (operationOf ctx d) := by
  obtain ⟨draft, ha, hpaths⟩ := exists_draft h
  exact hpaths ▸ Draft.operationAt_addAll ha hd

/-- Every operation of a document is that of a definition with its place. -/
theorem exists_of_operationAt_render {doc : Document} (h : render ctx ds = .ok doc) {path : String} {m : Method}
    {op : Operation} (ho : operationAt doc.paths path m = some op) :
    ∃ d ∈ ds, place ctx d = (path, m.word) ∧ op = operationOf ctx d := by
  obtain ⟨draft, ha, hpaths⟩ := exists_draft h
  exact (Draft.exists_of_operationAt_addAll ha (hpaths ▸ ho)).resolve_left (by simp [operationAt, Draft.empty])

/-- Every path of a document has an operation. -/
theorem exists_of_mem_paths_render {doc : Document} (h : render ctx ds = .ok doc) {path : String}
    (hp : path ∈ doc.paths.keys) : ∃ m op, operationAt doc.paths path m = some op := by
  obtain ⟨draft, ha, hpaths⟩ := exists_draft h
  obtain ⟨d, hd, rfl⟩ := (Draft.exists_of_mem_paths_addAll ha (hpaths ▸ hp)).resolve_left List.not_mem_nil
  obtain ⟨m, -, ho⟩ := operationAt_render h hd
  exact ⟨m, _, ho⟩

/-- In a document each definition has a place of its own, and its operation is found there by its method
in letters of any case, with its id and its name. No other operation stands at any path, and no path is
left without one. Definitions of which two share a place or one has an unknown method make no document. -/
theorem render_operations (ctx : Context) (ds : List Definition) :
    (∀ doc, render ctx ds = .ok doc →
      (ds.map (place ctx)).Nodup ∧
      (∀ d ∈ ds, ∀ method, Text.lowerAscii method = Text.lowerAscii d.method →
        ∃ op, doc.operation? (pathOf ctx d) method = some op ∧
          op = operationOf ctx d ∧ op.id = d.id ∧ op.summary = d.name) ∧
      (∀ path m op, operationAt doc.paths path m = some op →
        ∃ d ∈ ds, place ctx d = (path, m.word) ∧ op = operationOf ctx d) ∧
      ∀ path ∈ doc.paths.keys, ∃ m op, operationAt doc.paths path m = some op) ∧
    (¬ (ds.map (place ctx)).Nodup ∨ (∃ d ∈ ds, ¬ Supported d) → ∃ fault, render ctx ds = .error fault) := by
  refine ⟨fun doc h => ⟨(render_ok h).1, fun d hd method hcase => ?_,
    fun path m op ho => exists_of_operationAt_render h ho, fun path hp => exists_of_mem_paths_render h hp⟩,
    fun hfail => ?_⟩
  · obtain ⟨m, hm, ho⟩ := operationAt_render h hd
    have hname : Method.ofName? method = some m := by rwa [Method.ofName?, hcase]
    refine ⟨operationOf ctx d, ?_, rfl, rfl, rfl⟩
    rw [Document.operation?_eq, hname]
    exact ho
  · cases h : render ctx ds with
    | error fault => exact ⟨fault, rfl⟩
    | ok doc =>
      obtain ⟨hn, hs, -⟩ := render_ok h
      rcases hfail with hdup | ⟨d, hd, hm⟩
      · exact absurd hn hdup
      · exact absurd (hs d hd) hm

/-- Definitions of two methods of one path. -/
def ordering : List Definition :=
  [returning "GET" "/orders" "a.Order" .array, returning "pUt" "/orders" "a.Order" .plain]

theorem ordering_operations :
    (∃ doc, render shop ordering = .ok doc ∧
      ∃ op, doc.operation? "/v1.0/orders" "Put" = some op ∧ op.id = "/orders" ∧
        ∀ path m op, operationAt doc.paths path m = some op →
          ∃ d ∈ ordering, place shop d = (path, m.word) ∧ op = operationOf shop d) ∧
    ∃ fault, render shop (returning "PUT" "/orders" "b.User" .plain :: ordering) = .error fault := by
  have hok : (render shop ordering).toOption.isSome = true := by decide
  obtain ⟨doc, hdoc⟩ := exists_document hok
  obtain ⟨-, hall, hother, -⟩ := (render_operations shop ordering).1 doc hdoc
  obtain ⟨op, hop, -, hid, -⟩ := hall (returning "pUt" "/orders" "a.Order" .plain) (by simp [ordering]) "Put"
    (by decide)
  refine ⟨⟨doc, hdoc, op, hop, hid, hother⟩, ?_⟩
  exact (render_operations shop _).2 (.inl (by decide))

end ApiDocs.OpenApi
