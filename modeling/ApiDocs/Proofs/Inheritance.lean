import ApiDocs.Inheritance
import ApiDocs.Proofs.Keyed
/-!
# Chains of ancestors

What the walk up the superclasses finds, stated without a bound: it goes on from a type to its
superclass until there is none, the root type, a type met before, or one without facts. The bound of
the walk is never reached, since every type it passes is another type of the source.
-/
namespace ApiDocs.Facts.Source

/-- The ancestors that a walk finds from the class path `next` on, when it has met `seen`. -/
inductive Ancestry (s : Source) (root : String) : List String → Option String → List TypeFacts → Prop
  | top {seen} : Ancestry s root seen none []
  | root {seen} : Ancestry s root seen (some root) []
  | again {seen path} : path ∈ seen → Ancestry s root seen (some path) []
  | missing {seen path fault} : s.typeFacts path = .error fault → Ancestry s root seen (some path) []
  | parent {seen path t ts} : path ≠ root → path ∉ seen → s.typeFacts path = .ok t →
      Ancestry s root (path :: seen) t.superclass ts → Ancestry s root seen (some path) (t :: ts)

theorem get?_types_of_ok {s : Source} {path : String} {t : TypeFacts} (h : s.typeFacts path = .ok t) :
    s.types.get? path = some t := by
  unfold typeFacts at h
  split at h
  · cases h
  · split at h
    · cases h
      assumption
    · cases h

/-- With a step for each type that has not been met, and one more, the walk comes to its end. -/
theorem ancestry_ancestors (s : Source) (root : String) :
    ∀ (steps : Nat) (seen : List String) (next : Option String), s.types.weight (fun _ => 1) seen < steps →
      Ancestry s root seen next (s.ancestors root steps seen next) := by
  intro steps
  induction steps with
  | zero => intro seen next h; omega
  | succ steps ih =>
    intro seen next h
    cases next with
    | none => exact .top
    | some path =>
      unfold ancestors
      by_cases hstop : path = root ∨ path ∈ seen
      · rw [if_pos hstop]
        rcases hstop with rfl | hm
        · exact .root
        · exact .again hm
      · rw [if_neg hstop]
        obtain ⟨hroot, hseen⟩ := not_or.1 hstop
        cases ht : s.typeFacts path with
        | error fault => exact .missing ht
        | ok t =>
          have hw := Keyed.weight_cons (fun _ => 1) s.types (get?_types_of_ok ht) hseen
          exact .parent hroot hseen ht (ih _ _ (by omega))

/-- The members of a type come from itself and the types of its ancestry. -/
theorem ancestry_lineage (s : Source) (c : Conventions) (t : TypeFacts) :
    ∃ ts, s.lineage c t = t :: ts ∧ Ancestry s c.rootType [t.classPath] t.superclass ts := by
  refine ⟨_, rfl, ancestry_ancestors s _ _ _ _ ?_⟩
  have hw := Keyed.weight_le (fun _ => 1) s.types [t.classPath]
  rw [Keyed.total_one] at hw
  exact Nat.lt_succ_of_le hw

end ApiDocs.Facts.Source
