import ApiDocs.Proofs.Collection.Protocol
import ApiDocs.Proofs.Collection.Republish
/-!
# What a publication writes over

A collection in the workspace may hold what users have changed. It is replaced only after it was looked up
and fetched, and by what is rendered over what was fetched. The one way around is a collection that is there
but cannot be fetched: it is replaced by what is rendered over nothing, and the report does not tell.
-/
namespace ApiDocs.Collection

variable {σ : Type}

/-- A collection is replaced right after it was found and fetched, under the uid that was found and by what is
rendered over what was fetched, or over nothing if that failed; the report only tells how the replacement went.
If it cannot be looked up, no collection is written, and the report tells. -/
theorem replaced_over_fetched (ctx : Context) (w : Workspace σ) (name : String) (ds : List Definition) (s : σ) :
    ∃ (report : PublishReport) (s' : σ) (trace : List Exchange),
      publish ctx w.tracing name ds (s, []) = (report, s', trace) ∧
      (∀ uid c answer, .replaceCollection uid c answer ∈ trace →
        ∃ entry fetched rest, uid = entry.uid ∧
          trace = .findCollection name (.ok (some entry)) :: .fetchCollection uid fetched ::
            .replaceCollection uid c answer :: rest ∧
          c = withRemoteId (render ctx ds fetched.toOption) entry ∧
          report.collection = answer.toOption.map fun _ => ⟨name, uid, .replaced⟩) ∧
      ∀ fault, .findCollection name (.error fault) ∈ trace →
        (∀ x ∈ trace, x.writesCollection = false) ∧ report.collection = none ∧
          "collection '" ++ name ++ "': " ++ fault.message ∈ report.failures := by
  obtain ⟨⟨a, rs⟩, s', hc, hr⟩ := exists_course ctx w name ds s
  have hcourse : CollectionCourse ctx name ds a := hc.collection
  refine ⟨_, s', _, hc.publish_eq (hr.tracing []), fun uid c answer hm => ?_, fun fault hm => ?_⟩
  · have hm : .replaceCollection uid c answer ∈ a.exchanges := hc.mem_collection hm (.inr (.inr rfl))
    -- Of the courses of a collection only one has a replacement in it.
    cases hcourse with
    | lost | created => simp at hm
    | replaced entry fetched replaced =>
      simp only [List.mem_cons, reduceCtorEq, Exchange.replaceCollection.injEq, List.not_mem_nil, or_false, false_or] at hm
      obtain ⟨rfl, rfl, rfl⟩ := hm
      exact ⟨entry, fetched, _, rfl, rfl, rfl, by cases answer <;> rfl⟩
  · have hm : .findCollection name (.error fault) ∈ a.exchanges := hc.mem_collection hm (.inl rfl)
    cases hcourse with
    | created | replaced => simp at hm
    | lost lost =>
      obtain rfl : fault = lost := by simpa using hm
      refine ⟨fun x hx => Bool.eq_false_iff.2 fun hw => ?_, rfl, by simp [Course.report, failureOf]⟩
      obtain rfl := List.mem_singleton.1 (hc.mem_collection hx (.inr (.inr hw)))
      cases hw

/-- A workspace with one collection, which is fetched as something or not at all. -/
def holding (fetched : Outcome Collection) : Workspace Unit where
  findCollection name s := (.ok (some ⟨"col-1", some "published", name⟩), s)
  fetchCollection _ s := (fetched, s)
  createCollection _ s := (.ok "col-2", s)
  replaceCollection _ _ s := (.ok (), s)
  findEnvironment _ s := (.ok none, s)
  createEnvironment _ s := (.ok "env-1", s)
  replaceEnvironment _ _ s := (.ok (), s)

/-- What is written to it. -/
def rewritten (fetched : Outcome Collection) : Collection :=
  withRemoteId (render ordering [changing] fetched.toOption) ⟨"col-1", some "published", "shop"⟩

/-- What is exchanged with it when it is published to. -/
def exchanged (fetched : Outcome Collection) : List Exchange :=
  [.findCollection "shop" (.ok (some ⟨"col-1", some "published", "shop"⟩)), .fetchCollection "col-1" fetched,
    .replaceCollection "col-1" (rewritten fetched) (.ok ())]

theorem publish_holding (fetched : Outcome Collection) :
    publish ordering (holding fetched).tracing "shop" [changing] ((), []) =
      (⟨some ⟨"shop", "col-1", .replaced⟩, [], []⟩, (), exchanged fetched) := by
  cases fetched <;> rfl

theorem rewritten_mem_exchanged (fetched : Outcome Collection) :
    .replaceCollection "col-1" (rewritten fetched) (.ok ()) ∈ exchanged fetched :=
  .tail _ (.tail _ (.head _))

/-- A collection in which a user has set values is replaced by what is rendered over it. -/
theorem edited_replaced : ∃ report trace c answer,
    publish ordering (holding (.ok edited)).tracing "shop" [changing] ((), []) = (report, (), trace) ∧
    .replaceCollection "col-1" c answer ∈ trace ∧
    ∃ entry, c = withRemoteId (render ordering [changing] (some edited)) entry := by
  obtain ⟨report, s', trace, hp, hreplaced, -⟩ := replaced_over_fetched ordering (holding (.ok edited)) "shop" [changing] ()
  have he := (publish_holding (.ok edited)).symm.trans hp
  simp only [Prod.mk.injEq] at he
  obtain ⟨-, -, rfl⟩ := he
  obtain ⟨entry, fetched, rest, -, ht, hc, -⟩ := hreplaced _ _ _ (rewritten_mem_exchanged _)
  obtain rfl : .ok edited = fetched := by
    simp only [exchanged, List.cons.injEq, Exchange.fetchCollection.injEq, true_and] at ht
    exact ht.2.1
  exact ⟨_, _, _, _, publish_holding _, rewritten_mem_exchanged _, entry, hc⟩

/-- A collection that is there but cannot be fetched is replaced, and the report is a success. -/
theorem unfetched_replaced : ¬ ∀ (ctx : Context) (w : Workspace Unit) (name : String) (ds : List Definition)
    (report : PublishReport) (trace : List Exchange) (uid : String) (c : Collection) (answer : Outcome Unit),
    publish ctx w.tracing name ds ((), []) = (report, (), trace) →
    .replaceCollection uid c answer ∈ trace → report.isSuccess = true →
      ∃ entry previous, .fetchCollection uid (.ok previous) ∈ trace ∧
        c = withRemoteId (render ctx ds (some previous)) entry := by
  intro hall
  obtain ⟨entry, previous, hf, -⟩ := hall ordering (holding (.error (.remote "timeout"))) "shop" [changing] _ _ _ _ _
    (publish_holding _) (rewritten_mem_exchanged _) rfl
  simp [exchanged] at hf

end ApiDocs.Collection
