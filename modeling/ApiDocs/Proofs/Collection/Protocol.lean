import ApiDocs.Collection.Publish
/-!
# What is asked of a workspace

A publication asks for its documents one after the other: first the collection, then each environment.
What it asks next about a document depends on the answers about that document only, so the answers to
one never keep it from asking about another. The report says of each document what became of it.

The exchanges of a publication are read off a workspace that writes down what it is asked and what it
answers; doing so changes neither the report nor the state.
-/
namespace ApiDocs.Collection

/-- Something asked of a workspace, with the answer. -/
inductive Exchange where
  | findCollection (name : String) (answer : Outcome (Option RemoteEntry))
  | fetchCollection (uid : String) (answer : Outcome Collection)
  | createCollection (c : Collection) (answer : Outcome String)
  | replaceCollection (uid : String) (c : Collection) (answer : Outcome Unit)
  | findEnvironment (name : String) (answer : Outcome (Option RemoteEntry))
  | createEnvironment (e : Environment) (answer : Outcome String)
  | replaceEnvironment (uid : String) (e : Environment) (answer : Outcome Unit)

namespace Exchange

/-- What was asked. -/
def call : Exchange → Call
  | findCollection name _ => .findCollection name
  | fetchCollection uid _ => .fetchCollection uid
  | createCollection c _ => .createCollection c
  | replaceCollection uid c _ => .replaceCollection uid c
  | findEnvironment name _ => .findEnvironment name
  | createEnvironment e _ => .createEnvironment e
  | replaceEnvironment uid e _ => .replaceEnvironment uid e

def findsCollection : Exchange → Bool
  | findCollection .. => true
  | _ => false

def fetchesCollection : Exchange → Bool
  | fetchCollection .. => true
  | _ => false

def writesCollection : Exchange → Bool
  | createCollection .. => true
  | replaceCollection .. => true
  | _ => false

def findsEnvironment : Exchange → Bool
  | findEnvironment .. => true
  | _ => false

def writesEnvironment : Exchange → Bool
  | createEnvironment .. => true
  | replaceEnvironment .. => true
  | _ => false

end Exchange

/-! ## Runs of a workspace -/

namespace Workspace

variable {σ : Type} {w : Workspace σ} {s s' : σ} {xs ys : List Exchange}

/-- Whether a workspace gives an answer in a state, and goes to another with it. -/
def Answers (w : Workspace σ) (s : σ) (x : Exchange) (s' : σ) : Prop :=
  match x with
  | .findCollection name answer => w.findCollection name s = (answer, s')
  | .fetchCollection uid answer => w.fetchCollection uid s = (answer, s')
  | .createCollection c answer => w.createCollection c s = (answer, s')
  | .replaceCollection uid c answer => w.replaceCollection uid c s = (answer, s')
  | .findEnvironment name answer => w.findEnvironment name s = (answer, s')
  | .createEnvironment e answer => w.createEnvironment e s = (answer, s')
  | .replaceEnvironment uid e answer => w.replaceEnvironment uid e s = (answer, s')

/-- Whether a workspace gives some answers, one after the other. -/
def Run (w : Workspace σ) : σ → List Exchange → σ → Prop
  | s, [], s' => s = s'
  | s, x :: xs, s' => ∃ t, w.Answers s x t ∧ w.Run t xs s'

theorem run_append {s'' : σ} (h : w.Run s xs s') (h' : w.Run s' ys s'') : w.Run s (xs ++ ys) s'' := by
  induction xs generalizing s with
  | nil => exact (show s = s' from h) ▸ h'
  | cons x xs ih =>
    obtain ⟨t, ha, hr⟩ := h
    exact ⟨t, ha, ih hr⟩

theorem exists_of_run_append {s'' : σ} (h : w.Run s (xs ++ ys) s'') : ∃ s', w.Run s xs s' ∧ w.Run s' ys s'' := by
  induction xs generalizing s with
  | nil => exact ⟨s, rfl, h⟩
  | cons x xs ih =>
    obtain ⟨t, ha, hr⟩ := h
    obtain ⟨s', hx, hy⟩ := ih hr
    exact ⟨s', ⟨t, ha, hx⟩, hy⟩

/-- Asks, and writes down what was asked and answered. -/
def traced {α : Type} (note : Outcome α → Exchange) (ask : σ → Outcome α × σ) (s : σ × List Exchange) :
    Outcome α × (σ × List Exchange) :=
  let (answer, state) := ask s.1
  (answer, state, s.2 ++ [note answer])

/-- The workspace that writes down what it is asked and what it answers. -/
def tracing (w : Workspace σ) : Workspace (σ × List Exchange) where
  findCollection name := traced (.findCollection name) (w.findCollection name)
  fetchCollection uid := traced (.fetchCollection uid) (w.fetchCollection uid)
  createCollection c := traced (.createCollection c) (w.createCollection c)
  replaceCollection uid c := traced (.replaceCollection uid c) (w.replaceCollection uid c)
  findEnvironment name := traced (.findEnvironment name) (w.findEnvironment name)
  createEnvironment e := traced (.createEnvironment e) (w.createEnvironment e)
  replaceEnvironment uid e := traced (.replaceEnvironment uid e) (w.replaceEnvironment uid e)

theorem Answers.tracing {x : Exchange} (h : w.Answers s x s') (before : List Exchange) :
    w.tracing.Answers (s, before) x (s', before ++ [x]) := by
  cases x <;> simp_all [Answers, Workspace.tracing, traced]

theorem Answers.recording {x : Exchange} (h : w.Answers s x s') (before : List Call) :
    w.recording.Answers (s, before) x (s', before ++ [x.call]) := by
  cases x <;> simp_all [Answers, Workspace.recording, recorded, Exchange.call]

/-- A workspace that writes down its answers gives the same ones. -/
theorem Run.tracing (h : w.Run s xs s') (before : List Exchange) :
    w.tracing.Run (s, before) xs (s', before ++ xs) := by
  induction xs generalizing s before with
  | nil => simpa [Run] using h
  | cons x xs ih =>
    obtain ⟨t, ha, hr⟩ := h
    exact ⟨_, ha.tracing before, by simpa using ih hr (before ++ [x])⟩

theorem Run.recording (h : w.Run s xs s') (before : List Call) :
    w.recording.Run (s, before) xs (s', before ++ xs.map Exchange.call) := by
  induction xs generalizing s before with
  | nil => simpa [Run] using h
  | cons x xs ih =>
    obtain ⟨t, ha, hr⟩ := h
    exact ⟨_, ha.recording before, by simpa using ih hr (before ++ [x.call])⟩

end Workspace

/-! ## The course of one document -/

/-- What was exchanged over a document, and what came of it. -/
structure Attempt where
  exchanges : List Exchange
  outcome : Outcome Published

/-- How a collection can be published: it cannot be looked up; it is not there and is created; or it is
there, is fetched, and is replaced by what is rendered over that. -/
inductive CollectionCourse (ctx : Context) (name : String) (ds : List Definition) : Attempt → Prop
  | lost (fault : Fault) :
    CollectionCourse ctx name ds ⟨[.findCollection name (.error fault)], .error fault⟩
  | created (answer : Outcome String) :
    CollectionCourse ctx name ds
      ⟨[.findCollection name (.ok none), .createCollection (render ctx ds none) answer],
        answer.map fun uid => ⟨name, uid, .created⟩⟩
  | replaced (entry : RemoteEntry) (fetched : Outcome Collection) (answer : Outcome Unit) :
    CollectionCourse ctx name ds
      ⟨[.findCollection name (.ok (some entry)), .fetchCollection entry.uid fetched,
          .replaceCollection entry.uid (withRemoteId (render ctx ds fetched.toOption) entry) answer],
        answer.map fun _ => ⟨name, entry.uid, .replaced⟩⟩

/-- How an environment can be published: it cannot be looked up and has no configured uid; it is there and
is replaced; it is not found, or cannot be looked up, and is replaced under its configured uid; or it is
not there, has no configured uid and is created. -/
inductive EnvironmentCourse (e : Environment) : Attempt → Prop
  | lost (fault : Fault) : e.id = none →
    EnvironmentCourse e ⟨[.findEnvironment e.name (.error fault)], .error fault⟩
  | found (entry : RemoteEntry) (answer : Outcome Unit) :
    EnvironmentCourse e
      ⟨[.findEnvironment e.name (.ok (some entry)), .replaceEnvironment entry.uid e answer],
        answer.map fun _ => ⟨e.name, entry.uid, .replaced⟩⟩
  | configured (missing : Outcome (Option RemoteEntry)) (uid : String) (answer : Outcome Unit) :
    (∀ entry, missing ≠ .ok (some entry)) → e.id = some uid →
    EnvironmentCourse e
      ⟨[.findEnvironment e.name missing, .replaceEnvironment uid e answer],
        answer.map fun _ => ⟨e.name, uid, .replaced⟩⟩
  | created (answer : Outcome String) : e.id = none →
    EnvironmentCourse e
      ⟨[.findEnvironment e.name (.ok none), .createEnvironment e answer],
        answer.map fun uid => ⟨e.name, uid, .created⟩⟩

variable {σ : Type} {w : Workspace σ} {s s' : σ} {ctx : Context} {name : String} {ds : List Definition}
  {a : Attempt} {e : Environment}

/-- Where a workspace gives the answers of a course, the collection is published in that course. -/
theorem CollectionCourse.publishCollection_eq (h : CollectionCourse ctx name ds a) (hr : w.Run s a.exchanges s') :
    publishCollection ctx w name ds s = (a.outcome, s') := by
  cases h with
  | lost fault =>
    obtain ⟨t, hf, rfl⟩ := hr
    simp only [Workspace.Answers] at hf
    simp [publishCollection, hf]
  | created answer =>
    obtain ⟨t, hf, t', hc, rfl⟩ := hr
    simp only [Workspace.Answers] at hf hc
    cases answer <;> simp [publishCollection, fetchPrevious, hf, hc, Except.map]
  | replaced entry fetched answer =>
    obtain ⟨t, hf, t', hp, t'', hc, rfl⟩ := hr
    simp only [Workspace.Answers] at hf hp hc
    cases fetched <;> cases answer <;>
      simp_all [publishCollection, fetchPrevious, Except.map, Except.toOption]

/-- Every workspace answers in one of the courses. -/
theorem exists_collectionCourse (ctx : Context) (w : Workspace σ) (name : String) (ds : List Definition) (s : σ) :
    ∃ a s', CollectionCourse ctx name ds a ∧ w.Run s a.exchanges s' := by
  rcases hf : w.findCollection name s with ⟨fault | _ | entry, t⟩
  · exact ⟨_, _, .lost fault, t, hf, rfl⟩
  · exact ⟨_, _, .created _, t, hf, _, rfl, rfl⟩
  · exact ⟨_, _, .replaced entry _ _, t, hf, _, rfl, _, rfl, rfl⟩

theorem EnvironmentCourse.publishEnvironment_eq (h : EnvironmentCourse e a) (hr : w.Run s a.exchanges s') :
    publishEnvironment w e s = (a.outcome, s') := by
  cases h with
  | lost fault hid =>
    obtain ⟨t, hf, rfl⟩ := hr
    simp only [Workspace.Answers] at hf
    simp [publishEnvironment, hf, environmentUid, hid]
  | found entry answer =>
    obtain ⟨t, hf, t', hc, rfl⟩ := hr
    simp only [Workspace.Answers] at hf hc
    cases answer <;> simp [publishEnvironment, hf, environmentUid, hc, Except.map]
  | configured missing uid answer hm hid =>
    obtain ⟨t, hf, t', hc, rfl⟩ := hr
    simp only [Workspace.Answers] at hf hc
    -- The configured uid is taken whether nothing was found or the look-up failed.
    have huid : environmentUid e missing = .ok (some uid) := by
      rcases missing with fault | _ | entry
      · simp [environmentUid, hid]
      · simp [environmentUid, hid]
      · exact absurd rfl (hm entry)
    cases answer <;> simp [publishEnvironment, hf, huid, hc, Except.map]
  | created answer hid =>
    obtain ⟨t, hf, t', hc, rfl⟩ := hr
    simp only [Workspace.Answers] at hf hc
    cases answer <;> simp [publishEnvironment, hf, environmentUid, hid, hc, Except.map]

theorem exists_environmentCourse (w : Workspace σ) (e : Environment) (s : σ) :
    ∃ a s', EnvironmentCourse e a ∧ w.Run s a.exchanges s' := by
  rcases hf : w.findEnvironment e.name s with ⟨fault | _ | entry, t⟩
  · cases hid : e.id with
    | none => exact ⟨_, _, .lost fault hid, t, hf, rfl⟩
    | some uid => exact ⟨_, _, .configured (.error fault) uid _ (by simp) hid, t, hf, _, rfl, rfl⟩
  · cases hid : e.id with
    | none => exact ⟨_, _, .created _ hid, t, hf, _, rfl, rfl⟩
    | some uid => exact ⟨_, _, .configured (.ok none) uid _ (by simp) hid, t, hf, _, rfl, rfl⟩
  · exact ⟨_, _, .found entry _, t, hf, _, rfl, rfl⟩

/-! ## The course of a publication -/

/-- What the report says of a document that could not be published. -/
def failureOf (kind name : String) : Outcome Published → List String
  | .ok _ => []
  | .error fault => [kind ++ " '" ++ name ++ "': " ++ fault.message]

/-- The attempt to publish a collection, and those to publish environments. -/
structure Course where
  collection : Attempt
  environments : List (Environment × Attempt)

namespace Course

def exchanges (c : Course) : List Exchange :=
  c.collection.exchanges ++ c.environments.flatMap fun r => r.2.exchanges

/-- The report of the attempts: what was published, and what was not, in order. -/
def report (name : String) (c : Course) : PublishReport where
  collection := c.collection.outcome.toOption
  environments := c.environments.filterMap fun r => r.2.outcome.toOption
  failures := failureOf "collection" name c.collection.outcome ++
    c.environments.flatMap fun r => failureOf "environment" r.1.name r.2.outcome

/-- Whether the collection of some definitions is attempted, and then every configured environment. -/
structure IsOf (ctx : Context) (name : String) (ds : List Definition) (c : Course) : Prop where
  collection : CollectionCourse ctx name ds c.collection
  environments : c.environments.map Prod.fst = Collection.environments ctx.service
  each : ∀ r ∈ c.environments, EnvironmentCourse r.1 r.2

end Course

theorem publishEnvironments_eq {rs : List (Environment × Attempt)} (h : ∀ r ∈ rs, EnvironmentCourse r.1 r.2)
    (report : PublishReport) (hr : w.Run s (rs.flatMap fun r => r.2.exchanges) s') :
    publishEnvironments w report s (rs.map Prod.fst) =
      ({ report with
          environments := report.environments ++ rs.filterMap fun r => r.2.outcome.toOption
          failures := report.failures ++ rs.flatMap fun r => failureOf "environment" r.1.name r.2.outcome }, s') := by
  -- By induction with the report so far, which each outcome adds to.
  induction rs generalizing s report with
  | nil => simp [publishEnvironments, show s = s' from hr]
  | cons r rs ih =>
    obtain ⟨t, hfirst, hrest⟩ := Workspace.exists_of_run_append hr
    have he := (h r List.mem_cons_self).publishEnvironment_eq hfirst
    have ih := fun report => ih (fun r hm => h r (List.mem_cons_of_mem _ hm)) report hrest
    rcases hout : r.2.outcome with fault | published
    all_goals
      simp only [hout] at he
      simp [publishEnvironments, he, ih, hout, PublishReport.fail, failureOf, Except.toOption]

theorem exists_environmentCourses (w : Workspace σ) (es : List Environment) (s : σ) :
    ∃ (rs : List (Environment × Attempt)) (s' : σ), rs.map Prod.fst = es ∧ (∀ r ∈ rs, EnvironmentCourse r.1 r.2) ∧
      w.Run s (rs.flatMap fun r => r.2.exchanges) s' := by
  induction es generalizing s with
  | nil => exact ⟨[], s, rfl, by simp, rfl⟩
  | cons e es ih =>
    obtain ⟨a, t, ha, hr⟩ := exists_environmentCourse w e s
    obtain ⟨rs, s', hes, hrs, hrun⟩ := ih t
    exact ⟨(e, a) :: rs, s', by simp [hes], List.forall_mem_cons.2 ⟨ha, hrs⟩, Workspace.run_append hr hrun⟩

namespace Course

variable {c : Course}

/-- Where a workspace gives the answers of a course, that is how all documents are published. -/
theorem IsOf.publish_eq (h : c.IsOf ctx name ds) (hr : w.Run s c.exchanges s') :
    publish ctx w name ds s = (c.report name, s') := by
  obtain ⟨t, hfirst, hrest⟩ := Workspace.exists_of_run_append hr
  have hc := h.collection.publishCollection_eq hfirst
  have he := fun report => publishEnvironments_eq h.each report hrest
  rw [h.environments] at he
  rcases hout : c.collection.outcome with fault | published
  all_goals
    simp only [hout] at hc
    simp [publish, hc, he, report, hout, PublishReport.empty, PublishReport.fail, failureOf, Except.toOption]

end Course

/-- Every workspace answers in a course. -/
theorem exists_course (ctx : Context) (w : Workspace σ) (name : String) (ds : List Definition) (s : σ) :
    ∃ (c : Course) (s' : σ), c.IsOf ctx name ds ∧ w.Run s c.exchanges s' := by
  obtain ⟨a, t, ha, hr⟩ := exists_collectionCourse ctx w name ds s
  obtain ⟨rs, s', hes, hrs, hrun⟩ := exists_environmentCourses w (environments ctx.service) t
  exact ⟨⟨a, rs⟩, s', ⟨ha, hes, hrs⟩, Workspace.run_append hr hrun⟩

/-! ## What a course holds -/

/-- A collection is looked up once, and is fetched at most once and written at most once. -/
theorem CollectionCourse.counts (h : CollectionCourse ctx name ds a) :
    a.exchanges.countP Exchange.findsCollection = 1 ∧ a.exchanges.countP Exchange.fetchesCollection ≤ 1 ∧
      a.exchanges.countP Exchange.writesCollection ≤ 1 := by
  cases h <;>
    simp [List.countP_cons, Exchange.findsCollection, Exchange.fetchesCollection, Exchange.writesCollection]

/-- An environment is looked up once and written at most once, and that touches no collection. -/
theorem EnvironmentCourse.counts (h : EnvironmentCourse e a) :
    (a.exchanges.countP Exchange.findsEnvironment = 1 ∧ a.exchanges.countP Exchange.writesEnvironment ≤ 1) ∧
      ∀ x ∈ a.exchanges, x.findsCollection = false ∧ x.fetchesCollection = false ∧ x.writesCollection = false := by
  cases h <;>
    simp [List.countP_cons, Exchange.findsEnvironment, Exchange.writesEnvironment, Exchange.findsCollection,
      Exchange.fetchesCollection, Exchange.writesCollection]

namespace Course

variable {c : Course}

/-- The exchanges over environments are none over a collection. -/
theorem IsOf.environments_none (h : c.IsOf ctx name ds) {x : Exchange}
    (hx : x ∈ c.environments.flatMap fun r => r.2.exchanges) :
    x.findsCollection = false ∧ x.fetchesCollection = false ∧ x.writesCollection = false := by
  obtain ⟨r, hr, hx⟩ := List.mem_flatMap.1 hx
  exact (h.each r hr).counts.2 x hx

theorem IsOf.mem_collection (h : c.IsOf ctx name ds) {x : Exchange} (hx : x ∈ c.exchanges)
    (hp : x.findsCollection = true ∨ x.fetchesCollection = true ∨ x.writesCollection = true) :
    x ∈ c.collection.exchanges := by
  refine (List.mem_append.1 hx).resolve_right fun hx => ?_
  simp [h.environments_none hx] at hp

theorem IsOf.countP_exchanges (h : c.IsOf ctx name ds) {p : Exchange → Bool}
    (hp : ∀ x, p x = true → x.findsCollection = true ∨ x.fetchesCollection = true ∨ x.writesCollection = true) :
    c.exchanges.countP p = c.collection.exchanges.countP p := by
  have hnone : (c.environments.flatMap fun r => r.2.exchanges).countP p = 0 :=
    List.countP_eq_zero.2 fun x hx hpx => by simpa [h.environments_none hx] using hp x hpx
  rw [exchanges, List.countP_append, hnone, Nat.add_zero]

end Course

theorem length_toOption_add_failureOf (kind name : String) (outcome : Outcome Published) :
    outcome.toOption.toList.length + (failureOf kind name outcome).length = 1 := by
  cases outcome <;> rfl

theorem failureOf_eq_nil_iff {kind name : String} {outcome : Outcome Published} :
    failureOf kind name outcome = [] ↔ ∃ p, outcome = .ok p := by
  cases outcome <;> simp [failureOf]

theorem length_filterMap_add_flatMap_failureOf (rs : List (Environment × Attempt)) :
    (rs.filterMap fun r => r.2.outcome.toOption).length +
      (rs.flatMap fun r => failureOf "environment" r.1.name r.2.outcome).length = rs.length := by
  induction rs with
  | nil => rfl
  | cons r rs ih =>
    have hone := length_toOption_add_failureOf "environment" r.1.name r.2.outcome
    rw [List.filterMap_cons, List.flatMap_cons, List.length_append, List.length_cons]
    cases hr : r.2.outcome.toOption
    all_goals
      simp only [hr, Option.toList_none, Option.toList_some, List.length_nil, List.length_cons] at hone ⊢
      omega

/-- The report tells of every document once, as published or as a failure. -/
theorem Course.length_report (c : Course) :
    (c.report name).collection.toList.length + (c.report name).environments.length +
      (c.report name).failures.length = 1 + c.environments.length := by
  have hcollection := length_toOption_add_failureOf "collection" name c.collection.outcome
  have henvironments := length_filterMap_add_flatMap_failureOf c.environments
  simp only [Course.report, List.length_append]
  omega

theorem Course.isSuccess_report_iff (c : Course) :
    (c.report name).isSuccess = true ↔
      (∃ p, c.collection.outcome = .ok p) ∧ ∀ r ∈ c.environments, ∃ p, r.2.outcome = .ok p := by
  simp [PublishReport.isSuccess, Course.report, failureOf_eq_nil_iff]

end ApiDocs.Collection
