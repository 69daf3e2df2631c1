import ApiDocs.Header
import Mathlib.Data.List.Nodup
/-!
# Merging headers

What is merged is read off the two lists put together: the names are theirs, each where it is first seen, and under a
name stands the first header that has it (`IsUnion`). Headers stay as they are under others exactly if no name comes
twice and the others bring no new one (`merge_eq_self_iff`), which is so of headers that were merged with these others
before.
-/
namespace ApiDocs.Header

/-- The names of some headers. -/
def names (hs : List Header) : List String :=
  hs.map (·.name)

/-- The first header that has a name. -/
def first? (name : String) (hs : List Header) : Option Header :=
  hs.find? fun h => h.name == name

/-- Whether headers are the union of an endpoint's own and the common ones: each name once, in the order in which they
are first seen, and under it the first of the own headers that has it, or else the first of the common ones. -/
structure IsUnion (own common merged : List Header) : Prop where
  names : names merged = (names (own ++ common)).eraseDups
  first? : ∀ name, first? name merged = (first? name own).or (first? name common)

variable {seen : List String} {hs own common : List Header} {h : Header} {name : String}

@[simp] theorem names_cons : names (h :: hs) = h.name :: names hs := rfl

theorem first?_cons : first? name (h :: hs) = if h.name = name then some h else first? name hs := by
  by_cases he : h.name = name <;> simp [first?, he]

theorem mem_firstOfName (hm : h ∈ firstOfName seen hs) : h.name ∉ seen := by
  fun_induction firstOfName seen hs with
  | case1 => cases hm
  | case2 seen h' rest hs ih => exact ih hm
  | case3 seen h' rest hs ih =>
    rcases List.mem_cons.1 hm with rfl | hm
    · exact hs
    · exact fun hmem => ih hm (List.mem_cons_of_mem _ hmem)

/-- Every header that is sent has a name of its own. -/
theorem nodup_firstOfName (hs : List Header) (seen : List String) : (names (firstOfName seen hs)).Nodup := by
  fun_induction firstOfName seen hs with
  | case1 => exact List.nodup_nil
  | case2 seen h rest hs ih => exact ih
  | case3 seen h rest hs ih =>
    refine List.nodup_cons.2 ⟨fun hm => ?_, ih⟩
    obtain ⟨h', hm, he⟩ := List.mem_map.1 hm
    exact mem_firstOfName hm (he ▸ List.mem_cons_self)

theorem names_firstOfName (seen : List String) (hs : List Header) :
    names (firstOfName seen hs) = ((names hs).filter fun name => !seen.contains name).eraseDups := by
  fun_induction firstOfName seen hs with
  | case1 => rfl
  | case2 seen h rest hs ih => rw [ih, names_cons, List.filter_cons_of_neg (by simpa using hs)]
  | case3 seen h rest hs ih =>
    have hlater : ∀ name, (!(h.name :: seen).contains name) = (!(name == h.name) && !seen.contains name) := by
      intro name
      rw [List.contains_cons, Bool.not_or]
    rw [names_cons, ih, names_cons, List.filter_cons_of_pos (by simpa using hs), List.eraseDups_cons,
      List.filter_filter]
    simp only [hlater]

/-- A name that was not seen before stands for the same header as in all. -/
theorem first?_firstOfName (hn : name ∉ seen) : first? name (firstOfName seen hs) = first? name hs := by
  fun_induction firstOfName seen hs with
  | case1 => rfl
  | case2 seen h rest hs ih =>
    have hne : h.name ≠ name := fun he => hn (he ▸ hs)
    rw [ih hn, first?_cons, if_neg hne]
  | case3 seen h rest hs ih =>
    rw [first?_cons, first?_cons]
    split
    case isTrue => rfl
    case isFalse hne => exact ih (by simp [Ne.symm hne, hn])

theorem isUnion_merge (own common : List Header) : IsUnion own common (merge own common) := by
  constructor
  · rw [merge, names_firstOfName]
    simp
  · intro name
    rw [merge, first?_firstOfName List.not_mem_nil, first?, List.find?_append]
    rfl

theorem firstOfName_eq_nil (hall : ∀ h ∈ hs, h.name ∈ seen) : firstOfName seen hs = [] := by
  rw [List.eq_nil_iff_forall_not_mem]
  intro h hm
  have hname : h.name ∈ names (firstOfName seen hs) := List.mem_map_of_mem hm
  rw [names_firstOfName, List.mem_eraseDups, List.mem_filter] at hname
  obtain ⟨h', hh', he⟩ := List.mem_map.1 hname.1
  exact mem_firstOfName hm (he ▸ hall h' hh')

/-- Headers with names of their own that were not seen are all kept, and then those are left out that have one of these
names. -/
theorem firstOfName_append (hn : (names own).Nodup) (hd : (names own).Disjoint seen)
    (hall : ∀ h ∈ common, h.name ∈ seen ∨ h.name ∈ names own) : firstOfName seen (own ++ common) = own := by
  induction own generalizing seen with
  | nil => exact firstOfName_eq_nil fun h hh => (hall h hh).resolve_right List.not_mem_nil
  | cons h rest ih =>
    obtain ⟨hrest, hn⟩ := List.nodup_cons.1 hn
    obtain ⟨hseen, hd⟩ := List.disjoint_cons_left.1 hd
    have hnext : firstOfName (h.name :: seen) (rest ++ common) = rest := by
      refine ih hn (List.disjoint_cons_right.2 ⟨hrest, hd⟩) fun h' hh' => ?_
      rcases hall h' hh' with hmem | hmem
      · exact .inl (List.mem_cons_of_mem _ hmem)
      · exact (List.mem_cons.1 hmem).imp_left fun he : h'.name = h.name => he ▸ List.mem_cons_self
    rw [List.cons_append, firstOfName, if_neg hseen, hnext]

theorem merge_eq_self_iff :
    merge own common = own ↔ (names own).Nodup ∧ ∀ h ∈ common, h.name ∈ names own := by
  constructor
  · intro he
    refine ⟨he ▸ nodup_firstOfName _ _, fun h hh => ?_⟩
    rw [← he, (isUnion_merge own common).names, List.mem_eraseDups]
    exact List.mem_map_of_mem (List.mem_append_right _ hh)
  · rintro ⟨hn, hall⟩
    exact firstOfName_append hn (List.disjoint_nil_right _) fun h hh => .inr (hall h hh)

/-- Headers that were merged with common ones stay as they are when they are merged with them again. -/
theorem merge_merge (own common : List Header) : merge (merge own common) common = merge own common := by
  refine merge_eq_self_iff.2 ⟨nodup_firstOfName _ _, fun h hh => ?_⟩
  rw [(isUnion_merge own common).names, List.mem_eraseDups]
  exact List.mem_map_of_mem (List.mem_append_right _ hh)

end ApiDocs.Header
