import ApiDocs.Example
import ApiDocs.Proofs.Json.RoundTrip
/-!
# Example values

`Expands` is the recursion that examples are made by, without a bound: it stops only where a class
stands inside itself. The bound of the walk is never met, so every class has an example. Whatever the
models are, an example is made of texts, lists and objects with distinct names, so its text is read
back as the example.
-/
namespace ApiDocs

/-- Whether the example of a field holds one of its class: it is a page or refers to a type. -/
def Field.IsExpanded (f : Field) : Prop :=
  f.page.isSome = true ∨ f.kind.isReference = true

namespace Example

open Json

variable (c : Conventions) (models : Models)

/-- Whether a value is the example of a class inside the classes of `outer`. -/
inductive Expands : List String → String → Json → Prop
  | scalar {outer path} : c.isScalar path = true → Expands outer path (.str path)
  | carrier {outer path v} : c.isScalar path = false → carrierValue? c path = some v → Expands outer path v
  | unknown {outer path} : c.isScalar path = false → carrierValue? c path = none → models.get? path = none →
      Expands outer path (.obj [])
  | constants {outer path m} : c.isScalar path = false → carrierValue? c path = none →
      models.get? path = some m → m.isEnum = true → Expands outer path (.str (enumListing m))
  | inside {outer path m} : c.isScalar path = false → carrierValue? c path = none →
      models.get? path = some m → m.isEnum = false → path ∈ outer → Expands outer path (.obj [])
  | fields {outer path m inner} : c.isScalar path = false → carrierValue? c path = none →
      models.get? path = some m → m.isEnum = false → path ∉ outer →
      (∀ f ∈ m.fields, f.IsExpanded → Expands (path :: outer) f.classPath (inner f.classPath)) →
      Expands outer path (objectOf (m.fields.map fun f => (f.name, fieldValue inner f)))

/-! ## The bound of the walk -/

/-- With more steps than there are models that a class is not yet inside of, the walk makes what the
recursion without a bound makes. -/
theorem expands_valueWithin : ∀ (depth : Nat) (outer : List String) (path : String), outer.Nodup →
    (∀ p ∈ outer, p ∈ models.keys) → models.size < depth + outer.length →
    Expands c models outer path (valueWithin c models depth outer path) := by
  intro depth
  induction depth with
  | zero =>
    intro outer path hn hmem hlt
    -- The classes outside are distinct models, so there are no more of them than models.
    have hle : outer.length ≤ models.keys.length := (List.subperm_of_subset hn hmem).length_le
    rw [Keyed.keys, Pairs.keys, List.length_map, ← Keyed.size] at hle
    omega
  | succ depth ih =>
    intro outer path hn hmem hlt
    unfold valueWithin
    split
    case isTrue hs => exact .scalar hs
    case isFalse hs =>
    have hs : c.isScalar path = false := by simpa using hs
    split
    case h_1 v hv => exact .carrier hs hv
    case h_2 hv =>
    split
    case h_1 hg => exact .unknown hs hv hg
    case h_2 m hg =>
    split
    case isTrue he => exact .constants hs hv hg he
    case isFalse he =>
    have he : m.isEnum = false := by simpa using he
    split
    case isTrue ho => exact .inside hs hv hg he ho
    case isFalse ho =>
    refine .fields hs hv hg he ho fun f _ _ => ih _ _ (List.nodup_cons.2 ⟨ho, hn⟩) ?_ ?_
    · exact List.forall_mem_cons.2 ⟨Keyed.mem_keys_iff.2 ⟨m, hg⟩, hmem⟩
    · rw [List.length_cons]
      omega

theorem expands_value (path : String) : Expands c models [] path (value c models path) :=
  expands_valueWithin c models _ _ _ List.nodup_nil (by simp) (by simp)

/-! ## Values that can be written -/

theorem canonical_texts {members : List (String × Json)} (hn : (Pairs.keys members).Nodup)
    (h : ∀ m ∈ members, ∃ s, m.2 = .str s) : (Json.obj members).Canonical :=
  .obj hn fun m hm => by
    obtain ⟨s, hs⟩ := h m hm
    exact hs ▸ .str s

theorem canonical_sortValue : sortValue.Canonical :=
  canonical_texts (by decide) (by simp [boolean])

theorem canonical_orderValue : orderValue.Canonical :=
  canonical_texts (by decide) (by simp [text])

theorem canonical_singleton {v : Json} (h : v.Canonical) : (Json.list [v]).Canonical :=
  .list (by simpa using h)

theorem canonical_pageValue (kind : PageKind) {content : Json} (h : content.Canonical) :
    (pageValue kind content).Canonical := by
  have hs : ∀ s, (Json.str s).Canonical := .str
  cases kind with
  | spring =>
    refine .obj (by simp [Pairs.keys]) ?_
    simp [hs, canonical_singleton h, canonical_sortValue, long, integer, boolean]
  | xpage =>
    refine .obj (by simp [Pairs.keys]) ?_
    simp [hs, canonical_singleton h, canonical_singleton canonical_orderValue, long, integer, boolean, text]

theorem canonical_carrierValue? {path : String} {v : Json} (h : carrierValue? c path = some v) : v.Canonical := by
  have hs : ∀ s, (Json.str s).Canonical := .str
  unfold carrierValue? at h
  split at h
  · cases h
    exact canonical_sortValue
  split at h
  · cases h
    exact canonical_orderValue
  split at h
  · cases h
    refine .obj (by decide) ?_
    simp [hs, canonical_sortValue, integer]
  split at h
  · cases h
    refine .obj (by decide) ?_
    simp [hs, canonical_singleton canonical_orderValue, integer, text]
  · cases h

theorem canonical_fieldValue {inner : String → Json} (h : ∀ path, (inner path).Canonical) (f : Field) :
    (fieldValue inner f).Canonical := by
  unfold fieldValue
  split
  · exact canonical_pageValue _ (h _)
  · exact .str _
  · exact canonical_singleton (h _)
  · exact h _

theorem canonical_objectOf {members : List (String × Json)} (h : ∀ m ∈ members, m.2.Canonical) :
    (objectOf members).Canonical := by
  have hn : ∀ taken, (Pairs.keys taken).Nodup →
      (Pairs.keys (members.foldl (fun taken m => Pairs.put m.1 m.2 taken) taken)).Nodup := by
    induction members with
    | nil => exact fun taken ht => ht
    | cons m rest ih =>
      exact fun taken ht => ih (fun m' hm' => h m' (List.mem_cons_of_mem _ hm')) _ (Pairs.nodup_keys_put ht)
  exact .obj (hn [] List.nodup_nil) fun m hm => h m ((Pairs.mem_foldl_put hm).resolve_left List.not_mem_nil)

theorem canonical_valueWithin (depth : Nat) : ∀ outer path, (valueWithin c models depth outer path).Canonical := by
  induction depth with
  | zero => exact fun _ _ => .obj List.nodup_nil (by simp)
  | succ depth ih =>
    intro outer path
    have hempty : (Json.obj []).Canonical := .obj List.nodup_nil (by simp)
    unfold valueWithin
    split
    · exact .str _
    split
    case h_1 v hv => exact canonical_carrierValue? c hv
    case h_2 =>
    split
    · exact hempty
    split
    · exact .str _
    split
    · exact hempty
    · refine canonical_objectOf fun m hm => ?_
      obtain ⟨f, -, rfl⟩ := List.mem_map.1 hm
      exact canonical_fieldValue (ih _) f

theorem canonical_value (path : String) : (value c models path).Canonical :=
  canonical_valueWithin c models _ _ path

theorem canonical_parameterValue (p : Parameter) : (parameterValue c models p).Canonical := by
  unfold parameterValue
  cases p.isArray with
  | true => exact canonical_singleton (canonical_value c models _)
  | false => exact canonical_value c models _

end Example

end ApiDocs
