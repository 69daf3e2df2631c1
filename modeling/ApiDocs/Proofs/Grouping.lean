import ApiDocs.Proofs.Keyed
import Mathlib.Data.List.Basic
import Mathlib.Data.List.Induction
/-!
# Grouping

Writing values one after the other under their keys, each behind those that are there, makes one
group for each key: the groups in the order in which their keys first come, the values of a group in
the order in which they come.
-/
namespace ApiDocs

theorem Pairs.keys_put_of_mem {κ α : Type} [DecidableEq κ] {key : κ} {value : α} {pairs : List (κ × α)}
    (h : key ∈ keys pairs) : keys (put key value pairs) = keys pairs := by
  induction pairs with
  | nil => cases h
  | cons p rest ih =>
    by_cases hp : p.1 = key
    · simp [put, keys, hp]
    · simp only [keys, List.map_cons, List.mem_cons] at h ih
      simp [put, keys, hp, ih (h.resolve_left (Ne.symm hp))]

namespace Keyed

theorem entries_eq_map {α : Type} {m : Keyed α} {f : String → α} (h : ∀ k ∈ m.keys, m.get? k = some (f k)) :
    m.entries = m.keys.map fun k => (k, f k) := by
  rw [keys, Pairs.keys, List.map_map]
  refine (List.map_id m.entries).symm.trans (List.map_congr_left fun p hp => ?_)
  have hv : m.get? p.1 = some p.2 := mem_entries_iff.1 hp
  have hk := h p.1 (List.mem_map_of_mem hp)
  exact Prod.ext rfl (Option.some.inj (hv.symm.trans hk))

variable {α β : Type} (key : β → String) (val : β → α)

/-- The values of a list, each in the group of its key. -/
def grouped (bs : List β) : Keyed (List α) :=
  bs.foldl (fun groups b => groups.alter (key b) fun before => before.getD [] ++ [val b]) empty

theorem grouped_concat (bs : List β) (b : β) :
    grouped key val (bs ++ [b]) =
      (grouped key val bs).alter (key b) fun before => before.getD [] ++ [val b] := by
  simp [grouped]

theorem keys_grouped (bs : List β) : (grouped key val bs).keys = (bs.map key).eraseDups := by
  induction bs using List.reverseRecOn with
  | nil => rfl
  | append_singleton bs b ih =>
    rw [grouped_concat, List.map_append, List.map_singleton, List.eraseDups_append, ← ih]
    by_cases hb : key b ∈ bs.map key
    · have hk : key b ∈ (grouped key val bs).keys := by rwa [ih, List.mem_eraseDups]
      simp only [List.removeAll, List.filter_cons, List.elem_eq_mem, hb, decide_true, Bool.not_true,
        Bool.false_eq_true, if_false, List.filter_nil, List.eraseDups_nil, List.append_nil]
      exact Pairs.keys_put_of_mem hk
    · have hk : key b ∉ (grouped key val bs).keys := by rwa [ih, List.mem_eraseDups]
      simp only [List.removeAll, List.filter_cons, List.elem_eq_mem, hb, decide_false, Bool.not_false,
        if_true, List.filter_nil, List.eraseDups_cons, List.eraseDups_nil]
      exact keys_put_of_not_mem hk

theorem getD_grouped (bs : List β) (k : String) :
    ((grouped key val bs).get? k).getD [] = (bs.filter fun b => key b = k).map val := by
  induction bs using List.reverseRecOn with
  | nil => rfl
  | append_singleton bs b ih =>
    rw [grouped_concat, alter, get?_put, List.filter_append, List.map_append, ← ih]
    by_cases hb : key b = k
    · simp [hb]
    · simp [hb]

/-- The groups, written out. -/
theorem entries_grouped (bs : List β) :
    (grouped key val bs).entries =
      (bs.map key).eraseDups.map fun k => (k, (bs.filter fun b => key b = k).map val) := by
  rw [← keys_grouped key val]
  refine entries_eq_map fun k hk => ?_
  obtain ⟨v, hv⟩ := mem_keys_iff.1 hk
  have hd := getD_grouped key val bs k
  rw [hv] at hd ⊢
  exact congrArg some hd

end Keyed

/-- Each element stands in the group of its key, once. -/
theorem flatMap_filter_perm {β : Type} (key : β → String) {ks : List String} (hn : ks.Nodup) :
    ∀ bs : List β, (∀ b ∈ bs, key b ∈ ks) → (ks.flatMap fun k => bs.filter fun b => key b = k).Perm bs := by
  induction ks with
  | nil =>
    intro bs h
    rw [List.eq_nil_iff_forall_not_mem.2 fun b hb => List.not_mem_nil (h b hb)]
    rfl
  | cons k rest ih =>
    intro bs h
    obtain ⟨hk, hn⟩ := List.nodup_cons.1 hn
    have hrest : (rest.flatMap fun k' => bs.filter fun b => key b = k') =
        rest.flatMap fun k' => (bs.filter fun b => !decide (key b = k)).filter fun b => key b = k' := by
      refine List.flatMap_congr fun k' hk' => ?_
      rw [List.filter_filter]
      refine List.filter_congr fun b _ => ?_
      have hne : k' ≠ k := fun e => hk (e ▸ hk')
      by_cases hb : key b = k'
      · simp [hb, hne]
      · simp [hb]
    rw [List.flatMap_cons, hrest]
    refine .trans (.append_left _ (ih hn _ fun b hb => ?_)) (List.filter_append_perm _ bs)
    obtain ⟨hb, hne⟩ := List.mem_filter.1 hb
    exact (List.mem_cons.1 (h b hb)).resolve_left (by simpa using hne)

/-- The groups hold each value once. -/
theorem Keyed.flatten_grouped_perm {α β : Type} (key : β → String) (val : β → α) (bs : List β) :
    (grouped key val bs).values.flatten.Perm (bs.map val) := by
  have hn : (bs.map key).eraseDups.Nodup := keys_grouped key val bs ▸ nodup_keys _
  have hp := flatMap_filter_perm key hn bs fun b hb => List.mem_eraseDups.2 (List.mem_map_of_mem hb)
  have hvalues : (grouped key val bs).values.flatten =
      ((bs.map key).eraseDups.flatMap fun k => bs.filter fun b => key b = k).map val := by
    simp only [values, entries_grouped, List.map_map, List.flatMap_def, List.map_flatten, Function.comp_def]
  rw [hvalues]
  exact hp.map val

end ApiDocs
