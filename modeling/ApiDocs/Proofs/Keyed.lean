import ApiDocs.Keyed
/-!
# Look-ups

In a list with distinct keys a look-up finds every pair, so the order of the pairs does not matter,
and a sorted list is determined by its look-ups. The last section weighs the values whose keys have
not been spent: a worklist that takes each key once has that much left to do.
-/
namespace ApiDocs

namespace Pairs

section
variable {κ α : Type} [DecidableEq κ]

theorem get?_eq_none_iff {k : κ} {pairs : List (κ × α)} : get? k pairs = none ↔ k ∉ keys pairs := by
  induction pairs with
  | nil => simp [get?, keys]
  | cons p rest ih =>
    simp only [keys] at ih
    by_cases h : p.1 = k
    · simp [get?, keys, h]
    · simp [get?, keys, h, Ne.symm h, ih]

theorem mem_of_get? {k : κ} {v : α} {pairs : List (κ × α)} (h : get? k pairs = some v) :
    (k, v) ∈ pairs := by
  induction pairs with
  | nil => simp [get?] at h
  | cons p rest ih =>
    obtain ⟨q, w⟩ := p
    by_cases hq : q = k
    · simp only [get?, hq, if_true, Option.some.injEq] at h
      simp [hq, h]
    · simp only [get?, hq, if_false] at h
      exact List.mem_cons_of_mem _ (ih h)

theorem get?_of_mem {k : κ} {v : α} {pairs : List (κ × α)} (hn : (keys pairs).Nodup)
    (h : (k, v) ∈ pairs) : get? k pairs = some v := by
  induction pairs with
  | nil => cases h
  | cons p rest ih =>
    obtain ⟨q, w⟩ := p
    simp only [keys, List.map_cons, List.nodup_cons] at hn
    rcases List.mem_cons.1 h with he | hm
    · simp only [Prod.mk.injEq] at he
      simp [get?, he]
    · have hq : q ≠ k := fun e => hn.1 (e ▸ List.mem_map_of_mem hm)
      simp only [get?, hq, if_false]
      exact ih hn.2 hm

/-- A look-up in changed values finds the changed value. -/
theorem get?_mapWithKey {β : Type} (f : κ → α → β) (k : κ) (pairs : List (κ × α)) :
    get? k (pairs.map fun p => (p.1, f p.1 p.2)) = (get? k pairs).map (f k) := by
  induction pairs with
  | nil => rfl
  | cons p rest ih =>
    obtain ⟨q, v⟩ := p
    by_cases hq : q = k <;> simp [get?, hq, ih]

theorem get?_map {β : Type} (f : α → β) (k : κ) (pairs : List (κ × α)) :
    get? k (pairs.map fun p => (p.1, f p.2)) = (get? k pairs).map f :=
  get?_mapWithKey (fun _ => f) k pairs

/-- Writing what is there changes nothing. -/
theorem put_of_get? {k : κ} {v : α} {pairs : List (κ × α)} (h : get? k pairs = some v) : put k v pairs = pairs := by
  induction pairs with
  | nil => cases h
  | cons p rest ih =>
    obtain ⟨q, w⟩ := p
    by_cases hq : q = k
    · simp only [get?, hq, if_true, Option.some.injEq] at h
      simp [put, hq, h]
    · simp only [get?, hq, if_false] at h
      simp [put, hq, ih h]

theorem map_put {β : Type} (f : α → β) (k : κ) (v : α) (pairs : List (κ × α)) :
    (put k v pairs).map (fun p => (p.1, f p.2)) = put k (f v) (pairs.map fun p => (p.1, f p.2)) := by
  induction pairs with
  | nil => rfl
  | cons p rest ih => by_cases hp : p.1 = k <;> simp [put, hp, ih]

/-- With distinct keys the pairs are what look-ups find. -/
theorem get?_eq_some_iff {k : κ} {v : α} {pairs : List (κ × α)} (hn : (keys pairs).Nodup) :
    get? k pairs = some v ↔ (k, v) ∈ pairs :=
  ⟨mem_of_get?, get?_of_mem hn⟩

/-- Two orders of the same pairs are looked up alike. -/
theorem get?_perm {pairs pairs' : List (κ × α)} (hp : pairs.Perm pairs') (hn : (keys pairs).Nodup)
    (k : κ) : get? k pairs = get? k pairs' := by
  have hn' : (keys pairs').Nodup := (hp.map _).nodup_iff.1 hn
  cases h : get? k pairs with
  | some v => exact (get?_of_mem hn' (hp.subset (mem_of_get? h))).symm
  | none =>
    have hk : k ∉ keys pairs' := fun hm => get?_eq_none_iff.1 h ((hp.map _).mem_iff.2 hm)
    exact (get?_eq_none_iff.2 hk).symm
end

/-- A new key comes last. -/
theorem put_of_not_mem {κ α : Type} [DecidableEq κ] {key : κ} {value : α} {pairs : List (κ × α)}
    (h : key ∉ keys pairs) : put key value pairs = pairs ++ [(key, value)] := by
  induction pairs with
  | nil => rfl
  | cons p rest ih =>
    simp only [keys, List.map_cons, List.mem_cons, not_or] at h ih
    simp [put, Ne.symm h.1, ih h.2]

theorem keys_put_of_not_mem {κ α : Type} [DecidableEq κ] {key : κ} {value : α}
    {pairs : List (κ × α)} (h : key ∉ keys pairs) : keys (put key value pairs) = keys pairs ++ [key] := by
  rw [put_of_not_mem h, keys, List.map_append]
  rfl

/-- A new key is put behind those that are there. -/
theorem put_append_of_nodup {κ α : Type} [DecidableEq κ] {taken rest : List (κ × α)} {p : κ × α}
    (h : (keys (taken ++ p :: rest)).Nodup) : put p.1 p.2 taken ++ rest = taken ++ p :: rest := by
  have hp : p.1 ∉ keys taken := by
    simp only [keys, List.map_append, List.map_cons] at h
    exact fun hm => (List.nodup_append.1 h).2.2 p.1 hm p.1 List.mem_cons_self rfl
  rw [put_of_not_mem hp, List.append_assoc]
  rfl

/-- Pairs with distinct keys that are written one after the other stand as they are. -/
theorem foldl_put_of_nodup {κ α : Type} [DecidableEq κ] {new : List (κ × α)} (h : (keys new).Nodup) :
    new.foldl (fun taken p => put p.1 p.2 taken) [] = new := by
  have main : ∀ taken : List (κ × α), (keys (taken ++ new)).Nodup →
      new.foldl (fun taken p => put p.1 p.2 taken) taken = taken ++ new := by
    induction new with
    | nil => simp
    | cons p rest ih =>
      intro taken hn
      have hput := put_append_of_nodup hn
      rw [List.foldl_cons, ih (List.nodup_cons.1 h).2 (put p.1 p.2 taken) (hput ▸ hn), hput]
  exact main [] (by simpa using h)

theorem mem_put {κ α : Type} [DecidableEq κ] {key : κ} {value : α} {p : κ × α} {pairs : List (κ × α)}
    (h : p ∈ put key value pairs) : p = (key, value) ∨ p ∈ pairs := by
  induction pairs with
  | nil => exact .inl (List.mem_singleton.1 h)
  | cons q rest ih =>
    unfold put at h
    split at h
    · exact (List.mem_cons.1 h).imp_right (List.mem_cons_of_mem _)
    · rcases List.mem_cons.1 h with rfl | h
      · exact .inr List.mem_cons_self
      · exact (ih h).imp_right (List.mem_cons_of_mem _)

theorem nodup_keys_foldl_put {κ α : Type} [DecidableEq κ] (new : List (κ × α)) :
    ∀ {pairs : List (κ × α)}, (keys pairs).Nodup → (keys (new.foldl (fun taken p => put p.1 p.2 taken) pairs)).Nodup := by
  induction new with
  | nil => exact fun h => h
  | cons p rest ih => exact fun h => ih (nodup_keys_put h)

/-- Writing pairs one after the other makes up no pair. -/
theorem mem_foldl_put {κ α : Type} [DecidableEq κ] {p : κ × α} {new : List (κ × α)} :
    ∀ {pairs : List (κ × α)}, p ∈ new.foldl (fun taken p => put p.1 p.2 taken) pairs → p ∈ pairs ∨ p ∈ new := by
  induction new with
  | nil => exact fun h => .inl h
  | cons q rest ih =>
    intro pairs h
    rcases ih h with h | h
    · rcases mem_put h with rfl | h
      · exact .inr List.mem_cons_self
      · exact .inl h
    · exact .inr (List.mem_cons_of_mem _ h)

/-- What stands under a key after a run of writes is what the last one that writes there has written, or
what stood there before. -/
theorem get?_foldl {σ α β : Type} (get? : σ → Option α) {write : σ → β → σ} {writes : β → Bool} {value : β → α}
    (h : ∀ s b, get? (write s b) = if writes b then some (value b) else get? s) (bs : List β) (s : σ) :
    get? (bs.foldl write s) = ((bs.findRev? writes).map value).or (get? s) := by
  induction bs generalizing s with
  | nil => rfl
  | cons b rest ih =>
    rw [List.foldl_cons, ih, h, List.findRev?]
    cases rest.findRev? writes with
    | some last => rfl
    | none => cases writes b <;> rfl

theorem of_findRev?_eq_some {β : Type} {p : β → Bool} {bs : List β} {b : β} (h : bs.findRev? p = some b) :
    b ∈ bs ∧ p b = true := by
  rw [List.findRev?_eq_find?_reverse] at h
  exact ⟨List.mem_reverse.1 (List.mem_of_find?_eq_some h), List.find?_some h⟩

theorem get?_putSorted {α : Type} {key k : String} {value : α} {pairs : List (String × α)} :
    get? k (putSorted key value pairs) = if key = k then some value else get? k pairs := by
  induction pairs with
  | nil => simp [putSorted, get?]
  | cons p rest ih =>
    obtain ⟨q, v⟩ := p
    by_cases h : q = key
    · subst h
      by_cases hk : q = k <;> simp [putSorted, get?, hk]
    · by_cases hl : key < q
      · simp [putSorted, get?, h, hl]
      · by_cases hk : key = k
        · subst hk
          simp [putSorted, get?, h, hl, ih]
        · simp [putSorted, get?, h, hl, hk, ih]

end Pairs

namespace Keyed

variable {α : Type}

@[simp] theorem get?_empty (k : String) : (empty : Keyed α).get? k = none := rfl

@[simp] theorem keys_empty : (empty : Keyed α).keys = [] := rfl

theorem nodup_keys (m : Keyed α) : m.keys.Nodup := m.distinct

theorem get?_put {m : Keyed α} {key k : String} {v : α} :
    (m.put key v).get? k = if key = k then some v else m.get? k :=
  Pairs.get?_put

theorem mem_keys_put {m : Keyed α} {key k : String} {v : α} :
    k ∈ (m.put key v).keys ↔ k = key ∨ k ∈ m.keys :=
  Pairs.mem_keys_put

theorem keys_put_of_not_mem {m : Keyed α} {key : String} {v : α} (h : key ∉ m.keys) :
    (m.put key v).keys = m.keys ++ [key] :=
  Pairs.keys_put_of_not_mem h

theorem get?_eq_none_iff {m : Keyed α} {k : String} : m.get? k = none ↔ k ∉ m.keys :=
  Pairs.get?_eq_none_iff

theorem mem_entries_iff {m : Keyed α} {k : String} {v : α} :
    (k, v) ∈ m.entries ↔ m.get? k = some v :=
  (Pairs.get?_eq_some_iff m.distinct).symm

theorem mem_keys_iff {m : Keyed α} {k : String} : k ∈ m.keys ↔ ∃ v, m.get? k = some v := by
  rw [← Option.ne_none_iff_exists', Ne, get?_eq_none_iff, Decidable.not_not]

theorem entries_foldl_put (pairs : List (String × α)) : ∀ m : Keyed α,
    (pairs.foldl (fun m p => m.put p.1 p.2) m).entries =
      pairs.foldl (fun taken p => Pairs.put p.1 p.2 taken) m.entries := by
  induction pairs with
  | nil => exact fun m => rfl
  | cons p rest ih => exact fun m => ih (m.put p.1 p.2)

/-- Pairs with distinct keys stay as they are. -/
theorem entries_ofList {pairs : List (String × α)} (hn : (Pairs.keys pairs).Nodup) :
    (ofList pairs).entries = pairs := by
  rw [ofList, entries_foldl_put]
  exact Pairs.foldl_put_of_nodup hn

/-- A list is determined by its entries. -/
theorem ext_entries {m m' : Keyed α} (h : m.entries = m'.entries) : m = m' := by
  cases m; cases m'; cases h; rfl

theorem ofList_entries (m : Keyed α) : ofList m.entries = m :=
  ext_entries (entries_ofList m.distinct)

/-- The entries with other values under the same keys. -/
def map {β : Type} (f : α → β) (m : Keyed α) : Keyed β where
  entries := m.entries.map fun e => (e.1, f e.2)
  distinct := by
    rw [Pairs.keys_map fun _ => f]
    exact m.distinct

theorem map_id (m : Keyed α) : m.map id = m :=
  ext_entries (List.map_id' m.entries)

/-- Changing the values changes nothing exactly if each value stays. -/
theorem map_eq_self_iff {f : α → α} {m : Keyed α} : m.map f = m ↔ ∀ e ∈ m.entries, f e.2 = e.2 := by
  have hentries : m.map f = m ↔ m.entries.map (fun e => (e.1, f e.2)) = m.entries.map id := by
    rw [List.map_id]
    exact ⟨fun h => congrArg entries h, fun h => ext_entries h⟩
  rw [hentries, List.map_inj_left]
  simp [Prod.ext_iff]

theorem get?_map {β : Type} (f : α → β) (m : Keyed α) (k : String) : (m.map f).get? k = (m.get? k).map f :=
  Pairs.get?_map f k m.entries

theorem put_of_get? {m : Keyed α} {k : String} {v : α} (h : m.get? k = some v) : m.put k v = m :=
  ext_entries (Pairs.put_of_get? h)

theorem map_put {β : Type} (f : α → β) (m : Keyed α) (k : String) (v : α) :
    (m.put k v).map f = (m.map f).put k (f v) :=
  ext_entries (Pairs.map_put f k v m.entries)

/-- Under a name stands the last value that was written there, or what stood there before. -/
theorem get?_foldl_put (name : α → String) (vs : List α) (k : String) (m : Keyed α) :
    (∃ v ∈ vs, name v = k ∧ (vs.foldl (fun m v => m.put (name v) v) m).get? k = some v) ∨
      (∀ v ∈ vs, name v ≠ k) ∧ (vs.foldl (fun m v => m.put (name v) v) m).get? k = m.get? k := by
  have hlast : (vs.foldl (fun m v => m.put (name v) v) m).get? k =
      ((vs.findRev? fun v => name v == k).map id).or (m.get? k) :=
    Pairs.get?_foldl (fun m : Keyed α => m.get? k) (fun m v => by simp [get?_put]) vs m
  rw [hlast]
  cases h : vs.findRev? fun v => name v == k with
  | some v =>
    obtain ⟨hv, hname⟩ := Pairs.of_findRev?_eq_some h
    exact .inl ⟨v, hv, by simpa using hname, rfl⟩
  | none => exact .inr ⟨by simpa using h, rfl⟩

theorem mem_of_mem_ofList {pairs : List (String × α)} {p : String × α} (h : p ∈ (ofList pairs).entries) :
    p ∈ pairs := by
  rw [ofList, entries_foldl_put] at h
  exact (Pairs.mem_foldl_put h).resolve_left List.not_mem_nil

theorem get?_perm {m m' : Keyed α} (h : m.entries.Perm m'.entries) (k : String) :
    m.get? k = m'.get? k :=
  Pairs.get?_perm h m.distinct k

end Keyed

namespace Sorted

variable {α : Type}

theorem nodup_keys (m : Sorted α) : (Pairs.keys m.entries).Nodup :=
  m.ordered.imp fun h e => absurd (e ▸ h) (String.lt_irrefl _)

theorem mem_entries_iff {m : Sorted α} {k : String} {v : α} :
    (k, v) ∈ m.entries ↔ m.get? k = some v :=
  (Pairs.get?_eq_some_iff m.nodup_keys).symm

theorem get?_eq_none_iff {m : Sorted α} {k : String} : m.get? k = none ↔ k ∉ m.keys :=
  Pairs.get?_eq_none_iff

theorem mem_keys_iff {m : Sorted α} {k : String} : k ∈ m.keys ↔ ∃ v, m.get? k = some v := by
  rw [← Option.ne_none_iff_exists', Ne, get?_eq_none_iff, Decidable.not_not]

/-- A key that does not stand before an entry is that of the entry or a greater one. -/
theorem le_of_mem_keys {m : Sorted α} {before after : List (String × α)} {e : String × α} {k : String}
    (h : m.entries = before ++ e :: after) (hk : k ∈ m.keys) (hbefore : k ∉ Pairs.keys before) : e.1 ≤ k := by
  have hordered := m.ordered
  rw [keys, h, Pairs.keys, List.map_append, List.mem_append, List.map_cons, List.mem_cons] at hk
  rw [h, Pairs.keys, List.map_append, List.map_cons, List.pairwise_append, List.pairwise_cons] at hordered
  rcases hk with hk | rfl | hk
  · exact absurd hk hbefore
  · exact String.le_refl _
  · exact String.not_lt.1 (String.lt_asymm (hordered.2.1.1 k hk))

/-- Sorted lists that are looked up alike are the same. -/
theorem ext_get? {m m' : Sorted α} (h : ∀ k, m.get? k = m'.get? k) : m = m' := by
  have hp : m.entries.Perm m'.entries := by
    refine (List.perm_ext_iff_of_nodup ?_ ?_).2 fun p => ?_
    · exact List.Pairwise.of_map _ (fun _ _ hne e => hne (congrArg _ e)) m.nodup_keys
    · exact List.Pairwise.of_map _ (fun _ _ hne e => hne (congrArg _ e)) m'.nodup_keys
    · rw [mem_entries_iff (k := p.1) (v := p.2), mem_entries_iff (k := p.1) (v := p.2), h]
  have he : m.entries = m'.entries :=
    hp.eq_of_pairwise (fun a b _ _ hab hba => absurd (String.lt_trans hab hba) (String.lt_irrefl _))
      (List.pairwise_map (f := Prod.fst).1 m.ordered) (List.pairwise_map (f := Prod.fst).1 m'.ordered)
  cases m; cases m'; cases he; rfl

theorem get?_put {m : Sorted α} {key k : String} {v : α} :
    (m.put key v).get? k = if key = k then some v else m.get? k :=
  Pairs.get?_putSorted

theorem get?_foldl_put_of_not_mem {pairs : List (String × α)} {k : String}
    (h : k ∉ Pairs.keys pairs) (m : Sorted α) :
    (pairs.foldl (fun m p => m.put p.1 p.2) m).get? k = m.get? k := by
  induction pairs generalizing m with
  | nil => rfl
  | cons p rest ih =>
    simp only [Pairs.keys, List.map_cons, List.mem_cons, not_or] at h
    rw [List.foldl_cons, ih h.2, get?_put, if_neg (Ne.symm h.1)]

/-- Pairs with distinct keys are all kept. -/
theorem get?_ofList {pairs : List (String × α)} (hn : (Pairs.keys pairs).Nodup) (k : String) :
    (ofList pairs).get? k = Pairs.get? k pairs := by
  have main : ∀ m : Sorted α, (pairs.foldl (fun m p => m.put p.1 p.2) m).get? k =
      (Pairs.get? k pairs).or (m.get? k) := by
    induction pairs with
    | nil => intro m; rfl
    | cons p rest ih =>
      intro m
      simp only [Pairs.keys, List.map_cons, List.nodup_cons] at hn
      rw [List.foldl_cons]
      by_cases hk : p.1 = k
      · rw [get?_foldl_put_of_not_mem (hk ▸ hn.1), get?_put, if_pos hk]
        simp [Pairs.get?, hk]
      · rw [ih hn.2, get?_put, if_neg hk]
        simp [Pairs.get?, hk]
  rw [ofList, main]
  exact Option.or_none

theorem ofList_entries (m : Sorted α) : ofList m.entries = m :=
  ext_get? fun k => get?_ofList m.nodup_keys k

end Sorted

/-! ## What is left of a keyed list -/

namespace Pairs

variable {κ α : Type} (w : α → Nat)

@[simp] theorem total_nil : total w ([] : List (κ × α)) = 0 := rfl

@[simp] theorem total_cons (p : κ × α) (rest : List (κ × α)) : total w (p :: rest) = w p.2 + total w rest := rfl

@[simp] theorem total_append (l l' : List (κ × α)) : total w (l ++ l') = total w l + total w l' := by
  induction l with
  | nil => simp
  | cons p rest ih => simp [ih, Nat.add_assoc]

theorem total_filter_le (keep : κ × α → Bool) (l : List (κ × α)) : total w (l.filter keep) ≤ total w l := by
  induction l with
  | nil => simp
  | cons p rest ih =>
    cases hp : keep p with
    | true =>
      rw [List.filter_cons_of_pos hp, total_cons, total_cons]
      omega
    | false =>
      rw [List.filter_cons_of_neg (by simp [hp]), total_cons]
      omega

end Pairs

namespace Keyed

variable {α : Type} (w : α → Nat) (m : Keyed α)

/-- The pairs whose keys are not among `spent`. -/
def unspent (spent : List String) : List (String × α) :=
  m.entries.filter fun p => p.1 ∉ spent

/-- What their values weigh together. -/
def weight (spent : List String) : Nat :=
  Pairs.total w (m.unspent spent)

theorem unspent_of_not_mem {k : String} {spent : List String} {l : List (String × α)}
    (h : k ∉ Pairs.keys l) :
    (l.filter fun p => p.1 ∉ k :: spent) = l.filter fun p => p.1 ∉ spent := by
  refine List.filter_congr fun p hp => ?_
  have hne : p.1 ≠ k := fun e => h (e ▸ List.mem_map_of_mem hp)
  simp [hne]

/-- Spending a key takes the weight of its value away. -/
theorem weight_cons {k : String} {v : α} {spent : List String} (h : m.get? k = some v)
    (hk : k ∉ spent) : m.weight w (k :: spent) + w v = m.weight w spent := by
  obtain ⟨before, after, he⟩ := List.append_of_mem (mem_entries_iff.2 h)
  have hn : (Pairs.keys (before ++ (k, v) :: after)).Nodup := he ▸ m.distinct
  simp only [Pairs.keys, List.map_append, List.map_cons, List.nodup_append, List.nodup_cons] at hn
  have hb : k ∉ Pairs.keys before := fun hm => hn.2.2 k hm k List.mem_cons_self rfl
  have ha : k ∉ Pairs.keys after := hn.2.1.1
  rw [weight, weight, unspent, unspent, he, List.filter_append, List.filter_append,
    unspent_of_not_mem hb, List.filter_cons_of_neg (by simp),
    List.filter_cons_of_pos (by simpa using hk), unspent_of_not_mem ha]
  simp only [Pairs.total_append, Pairs.total_cons]
  omega

theorem weight_cons_le {k : String} {spent : List String} (hk : k ∉ spent) :
    m.weight w (k :: spent) ≤ m.weight w spent := by
  cases h : m.get? k with
  | some v =>
    have := weight_cons w m h hk
    omega
  | none =>
    have he : m.weight w (k :: spent) = m.weight w spent := by
      rw [weight, weight, unspent, unspent, unspent_of_not_mem (get?_eq_none_iff.1 h)]
    exact Nat.le_of_eq he

theorem weight_congr {spent spent' : List String} (h : ∀ k, k ∈ spent ↔ k ∈ spent') :
    m.weight w spent = m.weight w spent' := by
  simp only [weight, unspent, h]

theorem weight_le (spent : List String) : m.weight w spent ≤ m.total w :=
  Pairs.total_filter_le w _ m.entries

theorem total_one : m.total (fun _ => 1) = m.size := by
  rw [total, size]
  induction m.entries with
  | nil => rfl
  | cons p rest ih => rw [Pairs.total_cons, ih, List.length_cons, Nat.add_comm]

end Keyed

end ApiDocs
