import ApiDocs.Proofs.Description.Rows
/-!
# Reachable models

The tables of models come from a search with a queue, which may hold a class path many times and marks it only when it
is taken out. Without its bound the search is the relation `Lists`; the bound is never reached, since a turn that adds
to the queue uses up a model. What the search lists is what a search in rounds finds (`rounds`): each round looks at the
class paths that the fields of the models of the last one hold, and finds those that are new, each where it is first
mentioned. So the models of one step fewer come first (`BreadthFirst`).
-/
namespace ApiDocs.Description

/-! ## Steps through fields -/

/-- The model of a class path, if it is that of an object. -/
def objectModel? (models : Models) (path : String) : Option Model :=
  (models.get? path).filter fun m => !m.isEnum

/-- The class paths that the fields of the object model of a class path hold. -/
def held (models : Models) (path : String) : List String :=
  ((objectModel? models path).map objectFields).getD []

/-- Whether one can step from a class path to another: a field of its object model holds an object of the other class,
or a list or a page of such objects. -/
def LeadsTo (models : Models) (path path' : String) : Prop :=
  ∃ m f, objectModel? models path = some m ∧ f ∈ m.fields ∧ (f.kind = .object ∨ f.kind = .array) ∧ f.classPath = path'

/-- What can be reached from a root in a number of steps. -/
inductive Steps (models : Models) (root : String) : Nat → String → Prop
  | root : Steps models root 0 root
  | field {n path path'} : Steps models root n path → LeadsTo models path path' → Steps models root (n + 1) path'

variable {models : Models} {root path path' : String} {m : Model} {found found' paths queue out : List String} {n : Nat}

theorem objectModel?_eq_some_iff :
    objectModel? models path = some m ↔ models.get? path = some m ∧ m.isEnum = false := by
  simp [objectModel?]

theorem held_of_objectModel? (h : objectModel? models path = some m) : held models path = objectFields m := by
  simp [held, h]

theorem mem_objectFields :
    path ∈ objectFields m ↔ ∃ f ∈ m.fields, (f.kind = .object ∨ f.kind = .array) ∧ f.classPath = path := by
  simp [objectFields, and_assoc]

theorem mem_held_iff : path' ∈ held models path ↔ LeadsTo models path path' := by
  unfold held LeadsTo
  cases objectModel? models path with
  | none => simp
  | some m => simp [mem_objectFields]

theorem length_objectFields_le (m : Model) : (objectFields m).length ≤ m.fields.length := by
  rw [objectFields, List.length_map]
  exact List.length_filter_le _ _

/-! ## Searching with a queue -/

/-- The class paths that a search lists from a queue, when it has marked `found`: one that has no object model or is
marked is passed over, any other is listed and what it holds comes last in the queue. -/
inductive Lists (models : Models) : List String → List String → List String → Prop
  | done {found : List String} : Lists models found [] []
  | skip {found queue out : List String} {path : String} : objectModel? models path = none ∨ path ∈ found →
      Lists models found queue out → Lists models found (path :: queue) out
  | take {found queue out : List String} {path : String} {m : Model} : objectModel? models path = some m →
      path ∉ found → Lists models (path :: found) (queue ++ objectFields m) out →
      Lists models found (path :: queue) (path :: out)

/-- With a step for each class path of the queue and for each field of a model that is not marked, the search comes to
its end. -/
theorem lists_explore (models : Models) : ∀ (steps : Nat) (found queue : List String),
    queue.length + models.weight (fun m => m.fields.length) found < steps →
    ∃ out, Lists models found queue out ∧
      out.map (objectModel? models) = (explore models steps found queue).map some := by
  intro steps
  induction steps with
  | zero => intro found queue h; omega
  | succ steps ih =>
    intro found queue h
    cases queue with
    | nil => exact ⟨[], .done, rfl⟩
    | cons path queue =>
      rw [List.length_cons] at h
      obtain ⟨out, hlists, hmodels⟩ := ih found queue (by omega)
      unfold explore
      cases hget : models.get? path with
      | none => exact ⟨out, .skip (.inl (by simp [objectModel?, hget])) hlists, hmodels⟩
      | some m =>
        by_cases hskip : m.isEnum = true ∨ path ∈ found
        · refine ⟨out, .skip (hskip.imp_left fun he => by simp [objectModel?, hget, he]) hlists, ?_⟩
          simpa [hskip] using hmodels
        · obtain ⟨henum, hfound⟩ := not_or.1 hskip
          have hobject : objectModel? models path = some m :=
            objectModel?_eq_some_iff.2 ⟨hget, Bool.not_eq_true _ ▸ henum⟩
          -- The fields that come into the queue are those that the weight loses.
          have hweight := Keyed.weight_cons (fun m => m.fields.length) models hget hfound
          have hfields := length_objectFields_le m
          obtain ⟨out, hlists, hmodels⟩ := ih (path :: found) (queue ++ objectFields m)
            (by rw [List.length_append]; omega)
          refine ⟨path :: out, .take hobject hfound hlists, ?_⟩
          simpa [henum, hfound, hobject] using hmodels

/-- Only what is marked counts, not in which order. -/
theorem Lists.congr (h : Lists models found queue out) (hf : ∀ p, p ∈ found ↔ p ∈ found') :
    Lists models found' queue out := by
  induction h generalizing found' with
  | done => exact .done
  | skip hskip _ ih => exact .skip (hskip.imp_right (hf _).1) (ih hf)
  | take hm hn _ ih => exact .take hm (fun hmem => hn ((hf _).2 hmem)) (ih fun p => by simp [hf])

/-- Every class path that is listed has an object model, was not marked, and is listed once. -/
theorem Lists.fresh (h : Lists models found queue out) :
    out.Nodup ∧ ∀ path ∈ out, (objectModel? models path).isSome = true ∧ path ∉ found := by
  induction h with
  | done => simp
  | skip _ _ ih => exact ih
  | take hm hn _ ih =>
    obtain ⟨hnodup, hout⟩ := ih
    refine ⟨List.nodup_cons.2 ⟨fun hmem => (hout _ hmem).2 List.mem_cons_self, hnodup⟩, fun path hpath => ?_⟩
    rcases List.mem_cons.1 hpath with rfl | hpath
    · exact ⟨by simp [hm], hn⟩
    · exact (hout path hpath).imp_right fun hnot hmem => hnot (List.mem_cons_of_mem _ hmem)

/-! ## Searching in rounds -/

/-- Those of some class paths that have an object model and are not found yet, each where it is first mentioned. -/
def discoveries (models : Models) (found paths : List String) : List String :=
  (paths.filter fun path => (objectModel? models path).isSome && !found.contains path).eraseDups

/-- What is found before a round, and the class paths that the round looks at. -/
def rounds (models : Models) (root : String) : Nat → List String × List String
  | 0 => ([], [root])
  | n + 1 =>
    let (found, paths) := rounds models root n
    (found ++ discoveries models found paths, (discoveries models found paths).flatMap (held models))

/-- What is found in a number of rounds. -/
def foundIn (models : Models) (root : String) (n : Nat) : List String :=
  (rounds models root n).1

theorem mem_discoveries : path ∈ discoveries models found paths ↔
    path ∈ paths ∧ (objectModel? models path).isSome = true ∧ path ∉ found := by
  simp [discoveries, List.mem_eraseDups]

theorem discoveries_cons_of_skip (h : objectModel? models path = none ∨ path ∈ found) :
    discoveries models found (path :: paths) = discoveries models found paths := by
  have hfilter : ¬ ((objectModel? models path).isSome && !found.contains path) = true := by
    rcases h with h | h <;> simp [h]
  rw [discoveries, List.filter_cons, if_neg hfilter, discoveries]

theorem discoveries_cons_of_take (hm : objectModel? models path = some m) (hn : path ∉ found) :
    discoveries models found (path :: paths) = path :: discoveries models (path :: found) paths := by
  have hlater : ∀ p, (!(p == path) && ((objectModel? models p).isSome && !found.contains p)) =
      ((objectModel? models p).isSome && !(path :: found).contains p) := by
    intro p
    rw [List.contains_cons, Bool.not_or, Bool.and_left_comm]
  rw [discoveries, List.filter_cons_of_pos (by simp [hm, hn]), List.eraseDups_cons, List.filter_filter, discoveries]
  simp only [hlater]

/-- The search takes out what it has in front as a round, and puts behind what the new class paths hold. -/
theorem Lists.round {later : List String} (h : Lists models found (paths ++ later) out) :
    ∃ rest, out = discoveries models found paths ++ rest ∧
      Lists models (found ++ discoveries models found paths)
        (later ++ (discoveries models found paths).flatMap (held models)) rest := by
  induction paths generalizing found later out with
  | nil => exact ⟨out, rfl, by simpa [discoveries] using h⟩
  | cons path paths ih =>
    cases h with
    | skip hskip h =>
      rw [discoveries_cons_of_skip hskip]
      exact ih h
    | @take _ _ out _ m hm hn h =>
      rw [List.append_eq, List.append_assoc] at h
      obtain ⟨rest, hout, hrest⟩ := ih h
      rw [discoveries_cons_of_take hm hn, List.flatMap_cons, held_of_objectModel? hm, ← List.append_assoc later]
      exact ⟨rest, by rw [hout, List.cons_append], hrest.congr fun p => by simp [or_left_comm]⟩

/-- Each round finds what the search lists next. -/
theorem Lists.rounds (h : Lists models [] [root] out) (n : Nat) :
    ∃ rest, out = foundIn models root n ++ rest ∧
      Lists models (foundIn models root n) (rounds models root n).2 rest := by
  induction n with
  | zero => exact ⟨out, rfl, h⟩
  | succ n ih =>
    obtain ⟨rest, hout, hrest⟩ := ih
    rw [← List.append_nil (Description.rounds models root n).2] at hrest
    obtain ⟨rest', hrest', hnext⟩ := hrest.round
    refine ⟨rest', ?_, hnext⟩
    rw [hout, hrest', ← List.append_assoc]
    rfl

/-- Every round finds something, or there is nothing left to look at. -/
theorem le_length_foundIn_or (models : Models) (root : String) (n : Nat) :
    n ≤ (foundIn models root n).length ∨ (rounds models root n).2 = [] := by
  induction n with
  | zero => exact .inl (Nat.zero_le _)
  | succ n ih =>
    have hfound : foundIn models root (n + 1) =
        foundIn models root n ++ discoveries models (foundIn models root n) (rounds models root n).2 := rfl
    have hnext : (rounds models root (n + 1)).2 =
        (discoveries models (foundIn models root n) (rounds models root n).2).flatMap (held models) := rfl
    cases hnew : discoveries models (foundIn models root n) (rounds models root n).2 with
    | nil => exact .inr (by rw [hnext, hnew, List.flatMap_nil])
    | cons path rest =>
      rcases ih with hle | hnil
      · refine .inl ?_
        rw [hfound, hnew, List.length_append, List.length_cons]
        omega
      · simp [hnil, discoveries] at hnew

/-- After more rounds than there are models, all that the search lists is found. -/
theorem Lists.foundIn_eq (h : Lists models [] [root] out) (hn : models.size < n) : foundIn models root n = out := by
  obtain ⟨rest, hout, hrest⟩ := h.rounds n
  obtain ⟨hnodup, hobjects⟩ := h.fresh
  have hle : out.length ≤ models.size := by
    have hkeys : out ⊆ models.keys := by
      intro path hpath
      obtain ⟨m, hm⟩ := Option.isSome_iff_exists.1 (hobjects path hpath).1
      exact Keyed.mem_keys_iff.2 ⟨m, (objectModel?_eq_some_iff.1 hm).1⟩
    have hlength := (List.subperm_of_subset hnodup hkeys).length_le
    rwa [Keyed.keys, Pairs.keys, List.length_map] at hlength
  rcases le_length_foundIn_or models root n with hlong | hnil
  · rw [hout, List.length_append] at hle
    omega
  · rw [hnil] at hrest
    cases hrest
    rw [hout, List.append_nil]

/-! ## What is found -/

/-- What holds between rounds: all object models of fewer steps are found, those of exactly as many are found or looked
at next, and nothing else is looked at. -/
structure Swept (models : Models) (root : String) (n : Nat) : Prop where
  found : ∀ path, path ∈ foundIn models root n ↔
    (objectModel? models path).isSome = true ∧ ∃ k < n, Steps models root k path
  ahead : ∀ path ∈ (rounds models root n).2, Steps models root n path
  due : ∀ path, Steps models root n path → (objectModel? models path).isSome = true →
    path ∈ foundIn models root n ∨ path ∈ (rounds models root n).2

theorem mem_foundIn_succ : path ∈ foundIn models root (n + 1) ↔ path ∈ foundIn models root n ∨
    path ∈ discoveries models (foundIn models root n) (rounds models root n).2 :=
  List.mem_append

theorem mem_rounds_succ : path ∈ (rounds models root (n + 1)).2 ↔
    ∃ p ∈ discoveries models (foundIn models root n) (rounds models root n).2, LeadsTo models p path := by
  simp only [rounds, List.mem_flatMap, mem_held_iff]
  rfl

/-- A round finds the object models of as many steps. -/
theorem Swept.found_succ (h : Swept models root n) (path : String) : path ∈ foundIn models root (n + 1) ↔
    (objectModel? models path).isSome = true ∧ ∃ k < n + 1, Steps models root k path := by
  rw [mem_foundIn_succ, mem_discoveries, h.found]
  constructor
  · rintro (⟨hm, k, hk, hs⟩ | ⟨hahead, hm, -⟩)
    · exact ⟨hm, k, Nat.lt_succ_of_lt hk, hs⟩
    · exact ⟨hm, n, Nat.lt_succ_self n, h.ahead path hahead⟩
  · rintro ⟨hm, k, hk, hs⟩
    rcases Nat.lt_succ_iff_lt_or_eq.1 hk with hlt | rfl
    · exact .inl ⟨hm, k, hlt, hs⟩
    · by_cases hmem : path ∈ foundIn models root k
      · exact .inl ((h.found path).1 hmem)
      · exact .inr ⟨(h.due path hs hm).resolve_left hmem, hm, fun hfound => hmem ((h.found path).2 hfound)⟩

theorem swept (models : Models) (root : String) (n : Nat) : Swept models root n := by
  induction n with
  | zero =>
    refine ⟨fun path => by simp [foundIn, rounds], fun path hpath => ?_, fun path hpath _ => .inr ?_⟩
    · rw [List.mem_singleton.1 hpath]
      exact .root
    · cases hpath
      exact List.mem_singleton_self _
  | succ n ih =>
    refine ⟨ih.found_succ, fun path hpath => ?_, fun path hpath hm => ?_⟩
    · obtain ⟨p, hp, hlead⟩ := mem_rounds_succ.1 hpath
      exact .field (ih.ahead p (mem_discoveries.1 hp).1) hlead
    · -- The last step leads from a class path that was found now or in an earlier round.
      cases hpath with
      | @field _ p _ hs hlead =>
        have hp : (objectModel? models p).isSome = true := by
          obtain ⟨m, -, hm, -⟩ := hlead
          simp [hm]
        by_cases hmem : p ∈ foundIn models root n
        · obtain ⟨-, k, hk, hsk⟩ := (ih.found p).1 hmem
          exact .inl ((ih.found_succ path).2 ⟨hm, k + 1, Nat.succ_lt_succ hk, .field hsk hlead⟩)
        · exact .inr (mem_rounds_succ.2 ⟨p, mem_discoveries.2 ⟨(ih.due p hs hp).resolve_left hmem, hp, hmem⟩, hlead⟩)

/-- Class paths are the object models that can be reached from a root, each once, in the order in which rounds find
them: the root first, and one of fewer steps before one of more. -/
structure BreadthFirst (models : Models) (root : String) (paths : List String) : Prop where
  once : paths.Nodup
  exact : ∀ path, path ∈ paths ↔ (objectModel? models path).isSome = true ∧ ∃ n, Steps models root n path
  root_first : (objectModel? models root).isSome = true → paths.head? = some root
  rounds : ∀ n, foundIn models root n <+: paths ∧ (models.size < n → foundIn models root n = paths)
  steps : ∀ n path, path ∈ foundIn models root n ↔
    (objectModel? models path).isSome = true ∧ ∃ k < n, Steps models root k path

theorem Lists.breadthFirst (h : Lists models [] [root] out) : BreadthFirst models root out := by
  have hall : ∀ n, models.size < n → foundIn models root n = out := fun n hn => h.foundIn_eq hn
  refine ⟨h.fresh.1, fun path => ?_, fun hroot => ?_, fun n => ⟨?_, hall n⟩, fun n => (swept models root n).found⟩
  · constructor
    · intro hpath
      rw [← hall _ (Nat.lt_succ_self _), (swept models root _).found] at hpath
      obtain ⟨hm, k, -, hs⟩ := hpath
      exact ⟨hm, k, hs⟩
    · rintro ⟨hm, n, hs⟩
      rw [← hall (models.size + n + 1) (by omega), (swept models root _).found]
      exact ⟨hm, n, by omega, hs⟩
  · obtain ⟨m, hm⟩ := Option.isSome_iff_exists.1 hroot
    cases h with
    | skip hskip _ => simp [hm] at hskip
    | take _ _ _ => rfl
  · obtain ⟨rest, hout, -⟩ := h.rounds n
    exact ⟨rest, hout.symm⟩

/-- As many steps as the search of a root takes at most. -/
def stepBound (models : Models) : Nat :=
  models.total (fun m => m.fields.length) + 2

/-- The search of a root comes to its end with as many steps as there are fields, or more. -/
theorem exists_lists (models : Models) (root : String) {steps : Nat} (h : stepBound models ≤ steps) :
    ∃ paths, Lists models [] [root] paths ∧
      paths.map (objectModel? models) = (explore models steps [] [root]).map some := by
  refine lists_explore models steps [] [root] ?_
  have hweight := models.weight_le (fun m => m.fields.length) []
  rw [List.length_singleton]
  unfold stepBound at h
  omega

/-- A search has one end. -/
theorem Lists.unique {out' : List String} (h : Lists models found queue out) (h' : Lists models found queue out') :
    out = out' := by
  induction h generalizing out' with
  | done =>
    cases h'
    rfl
  | skip hskip _ ih =>
    cases h' with
    | skip _ h' => exact ih h'
    | take hm hn _ => exact absurd hskip (by simp [hm, hn])
  | take hm hn _ ih =>
    cases h' with
    | skip hskip _ => exact absurd hskip (by simp [hm, hn])
    | take hm' _ h' =>
      obtain rfl := Option.some.inj (hm.symm.trans hm')
      rw [ih h']

/-- The search of a root ends, and more steps find nothing more. It lists the object models that can be reached from the
root through fields that hold objects, lists or pages, each once and breadth first. A description is its opening and its
tables: those of parameters, a table of the fields for each model that can be reached from the body, called a request, and
one for each that can be reached from what is returned, called a response, in that order. -/
theorem reachable_breadthFirst (models : Models) :
    (∀ root, ∃ paths, BreadthFirst models root paths ∧
      paths.map (objectModel? models) = (reachable models root).map some ∧
      ∀ steps, stepBound models ≤ steps → explore models steps [] [root] = reachable models root) ∧
    ∀ (c : Conventions) (d : Definition), describe c models d =
      opening d ++ String.join ((parameterTables "Path Parameters" (pathTable d) ++
        parameterTables "Query Parameters" (queryTable c d) ++
        (d.body?.toList.flatMap fun p => reachable models p.classPath).map (fieldTable models "Request") ++
        (d.returnClass.toList.flatMap (reachable models)).map (fieldTable models "Response")).map Table.print) := by
  refine ⟨fun root => ?_, fun c d => ?_⟩
  · obtain ⟨paths, hlists, hmodels⟩ := exists_lists models root (Nat.le_refl (stepBound models))
    refine ⟨paths, hlists.breadthFirst, hmodels, fun steps hsteps => ?_⟩
    obtain ⟨paths', hlists', hmodels'⟩ := exists_lists models root hsteps
    obtain rfl := hlists.unique hlists'
    exact List.map_injective_iff.2 (Option.some_injective _) (hmodels'.symm.trans hmodels)
  · have hbody : bodyModels models d = d.body?.toList.flatMap fun p => reachable models p.classPath := by
      unfold bodyModels
      cases d.body? <;> simp
    have hreturned : returnedModels models d = d.returnClass.toList.flatMap (reachable models) := by
      unfold returnedModels
      cases d.returnClass <;> simp
    rw [describe_eq_join, tables, hbody, hreturned]

/-- Models that refer to each other in circles, to an enumeration, and to a class without a model. -/
def network : Models :=
  Keyed.ofList
    [("a.Order", ⟨"Order", .object, "", [⟨"state", .enum, "a.State", "", true, none⟩,
      ⟨"buyer", .object, "a.User", "", true, none⟩, ⟨"rows", .array, "a.Row", "", true, none⟩]⟩),
     ("a.Row", ⟨"Row", .object, "", [⟨"order", .object, "a.Order", "", true, none⟩,
      ⟨"item", .object, "a.Item", "", true, none⟩]⟩),
     ("a.Item", ⟨"Item", .object, "", []⟩),
     ("a.User", ⟨"User", .object, "", [⟨"orders", .object, "a.Order", "", true, some .spring⟩,
      ⟨"gone", .object, "a.Gone", "", true, none⟩]⟩),
     ("a.State", ⟨"State", .enum, "", [⟨"OPEN", .scalar "String", "java.lang.String", "", true, none⟩]⟩)]

/-- A definition that takes an item and returns a row. -/
def changing : Definition :=
  { OpenApi.returning "PUT" "/items" "a.Row" .plain with
    parameters := [⟨"item", "Object", "a.Item", "", false, none, .body, false, false⟩] }

/-- The lines above the rows of a table of fields. -/
def fieldLines : String :=
  "| Field | Type | Required | Description |\n|-------|------|----------|-------------|\n"

theorem network_breadthFirst :
    BreadthFirst network "a.Order" ["a.Order", "a.User", "a.Row", "a.Item"] ∧
    stepBound network ≤ 100 ∧ explore network 100 [] ["a.Order"] = reachable network "a.Order" ∧
    describe .default network changing =
      "#### Request : Item\n\n" ++ fieldLines ++ "\n" ++
      "#### Response : Row\n\n" ++ fieldLines ++ "| order | Order | N |  |\n| item | Item | N |  |\n\n" ++
      "#### Response : Order\n\n" ++ fieldLines ++
        "| state | Enum | N | ( OPEN ) |\n| buyer | User | N |  |\n| rows | List<Row> | N |  |\n\n" ++
      "#### Response : Item\n\n" ++ fieldLines ++ "\n" ++
      "#### Response : User\n\n" ++ fieldLines ++
        "| orders | SpringPage<Order> | N |  |\n| gone | Gone | N |  |\n\n" := by
  obtain ⟨hsearch, hdescribe⟩ := reachable_breadthFirst network
  obtain ⟨paths, hpaths, -, hsteps⟩ := hsearch "a.Order"
  have hlisted : foundIn network "a.Order" 6 = paths := (hpaths.rounds 6).2 (by decide)
  have hbound : stepBound network ≤ 100 := by decide
  refine ⟨?_, hbound, hsteps 100 hbound, ?_⟩
  · rwa [← hlisted, show foundIn network "a.Order" 6 = ["a.Order", "a.User", "a.Row", "a.Item"] by decide] at hpaths
  · rw [hdescribe .default changing]
    decide +kernel

end ApiDocs.Description
