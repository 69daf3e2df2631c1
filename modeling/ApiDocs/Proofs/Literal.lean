import ApiDocs.Literal
import ApiDocs.Proofs.Json.Restore
/-!
# The values of literals

A literal is a scalar that can be spelled. Only a number that is not finite, by its word or by its size, has
no value of its own and is null.
-/
namespace ApiDocs.Literal

open Json

variable {s : String} {v : Json}

/-- A whole number is one of 64 bits. -/
theorem integer?_eq_some (h : integer? s = some v) : ∃ i, Fits i ∧ v = .int i := by
  unfold integer? at h
  have hpow : Nat.pow 2 63 = 2 ^ 63 := rfl
  simp only [Option.ite_none_left_eq_some] at h
  obtain ⟨-, h⟩ := h
  split at h
  · obtain ⟨hle, h⟩ := Option.ite_none_right_eq_some.1 h
    exact ⟨_, by simp only [Fits]; omega, (Option.some.inj h).symm⟩
  · obtain ⟨hlt, h⟩ := Option.ite_none_right_eq_some.1 h
    exact ⟨_, by simp only [Fits]; omega, (Option.some.inj h).symm⟩

/-- A number is kept, or null. -/
theorem number?_eq_some (h : number? s = some v) : v = .null ∨ ∃ x : Decimal, x.IsKept ∧ v = .float x := by
  unfold number? at h
  simp only at h
  split at h
  · exact .inl (Option.some.inj h).symm
  · -- Digits have a value, which may be out of the range of numbers.
    simp only [finite?, Option.ite_none_left_eq_some, Option.map_eq_some_iff] at h
    obtain ⟨-, e, -, hv⟩ := h
    split at hv
    case h_1 x hx => exact .inr ⟨x, Decimal.isKept_of_ofParts? hx, hv.symm⟩
    case h_2 => exact .inl hv.symm

theorem boolean?_eq_some (h : boolean? s = some v) : ∃ b, v = .bool b := by
  unfold boolean? at h
  split at h
  · exact ⟨true, (Option.some.inj h).symm⟩
  · split at h
    · exact ⟨false, (Option.some.inj h).symm⟩
    · cases h

/-- What a text of a type stands for. -/
inductive Stands (type s : String) : Json → Prop
  | text : Stands type s (.str s)
  | integer {i : Int} (h : Fits i) : Stands type s (.int i)
  | number {x : Decimal} (h : x.IsKept) : Stands type s (.float x)
  | boolean (b : Bool) : Stands type s (.bool b)
  | notFinite (ht : type = "number") (h : number? s = some .null) : Stands type s .null

theorem stands_valueOf (type s : String) : Stands type s (valueOf type s) := by
  have hgetD : ∀ {parsed : Option Json}, (∀ v ∈ parsed, Stands type s v) → Stands type s (parsed.getD (.str s)) := by
    intro parsed h
    cases parsed with
    | none => exact .text
    | some v => exact h v rfl
  refine hgetD fun v hv => ?_
  split at hv
  · obtain ⟨i, hi, rfl⟩ := integer?_eq_some hv
    exact .integer hi
  · split at hv
    case isTrue ht =>
      rcases number?_eq_some hv with rfl | ⟨x, hx, rfl⟩
      · exact .notFinite ht hv
      · exact .number hx
    case isFalse =>
      split at hv
      · obtain ⟨b, rfl⟩ := boolean?_eq_some hv
        exact .boolean b
      · cases hv

theorem within_valueOf (type s : String) {depth : Nat} : (valueOf type s).Within depth := by
  have hs := stands_valueOf type s
  generalize valueOf type s = v at hs ⊢
  cases hs with
  | text => exact .str s
  | integer h => exact .int h
  | number h => exact .float h
  | boolean b => exact .bool b
  | notFinite => exact .null

/-- A literal is null exactly if it is a number that is not finite. -/
theorem valueOf_eq_null_iff (type s : String) : valueOf type s = .null ↔ type = "number" ∧ number? s = some .null := by
  constructor
  · intro h
    have hs := stands_valueOf type s
    rw [h] at hs
    cases hs with
    | notFinite ht h => exact ⟨ht, h⟩
  · rintro ⟨rfl, h⟩
    simp [valueOf, h]

end ApiDocs.Literal
