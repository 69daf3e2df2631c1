import ApiDocs.Collection.Render
/-!
# The requests of a collection

`everyItem` lists the items of a collection at any depth by recursion on them, each before its
children. The requests that are found with a list of pending items are those among them, in the same
order, and what an earlier collection has saved under an id is the last of them.
-/
namespace ApiDocs.Collection

namespace Item

mutual

/-- An item and all that is in it, in document order. -/
def flatten : Item → List Item
  | ⟨id, name, items, request, responses⟩ => ⟨id, name, items, request, responses⟩ :: flattenIn items

def flattenIn : Option (List Item) → List Item
  | none => []
  | some items => flattenAll items

def flattenAll : List Item → List Item
  | [] => []
  | i :: rest => flatten i ++ flattenAll rest

end

theorem flatten_eq (i : Item) : i.flatten = i :: flattenAll i.children := by
  cases i with
  | mk id name items request responses => cases items <;> simp [flatten, flattenIn, flattenAll, children]

theorem flattenAll_append (is js : List Item) : flattenAll (is ++ js) = flattenAll is ++ flattenAll js := by
  induction is with
  | nil => rfl
  | cons i rest ih => simp [flattenAll, ih]

theorem flattenAll_eq (items : List Item) : flattenAll items = items.flatMap flatten := by
  induction items with
  | nil => rfl
  | cons i rest ih => rw [flattenAll, ih, List.flatMap_cons]

theorem mem_flattenAll {i : Item} {items : List Item} : i ∈ flattenAll items ↔ ∃ j ∈ items, i ∈ j.flatten := by
  rw [flattenAll_eq, List.mem_flatMap]

/-- Where no item is a folder, there is nothing but the items themselves. -/
theorem flattenAll_of_leaves {items : List Item} (h : ∀ i ∈ items, i.items = none) : flattenAll items = items := by
  induction items with
  | nil => rfl
  | cons i rest ih =>
    obtain ⟨hi, hrest⟩ := List.forall_mem_cons.1 h
    rw [flattenAll, flatten_eq, children, hi, ih hrest]
    rfl

@[simp] theorem children_folder (id name : String) (items : List Item) : (folder id name items).children = items := rfl

/-- The walk with pending items meets the requests in document order. -/
theorem requestsAmong_eq (items : List Item) :
    requestsAmong items = (flattenAll items).filter fun i => i.request.isSome := by
  induction items using requestsAmong.induct with
  | case1 => simp [requestsAmong, flattenAll]
  | case2 i pending h ih | case3 i pending h ih =>
    rw [requestsAmong, ih, flattenAll, flatten_eq, flattenAll_append]
    simp [h]

end Item

/-- The items of a collection at any depth, in document order. -/
def everyItem (c : Collection) : List Item :=
  Item.flattenAll c.items

theorem requests_eq (c : Collection) : c.requests = c.everyItem.filter fun i => i.request.isSome :=
  Item.requestsAmong_eq c.items

/-- Whether an item is the last request with an id, at any depth. -/
def IsLastRequest (c : Collection) (id : String) (o : Item) : Prop :=
  ∃ before after, c.everyItem = before ++ o :: after ∧ o.request.isSome = true ∧ o.id = some id ∧
    ∀ i ∈ after, i.request.isSome = true → i.id ≠ some id

variable {c : Collection} {id : String} {o : Item}

theorem saved?_eq (c : Collection) (id : String) :
    saved? (some c) id = c.everyItem.reverse.find? fun i => i.request.isSome && i.id == some id := by
  rw [saved?, Option.bind_some, requests_eq, ← List.filter_reverse, List.find?_filter]
  simp only [Bool.decide_and, Bool.decide_eq_true]

theorem saved?_eq_some_iff : saved? (some c) id = some o ↔ IsLastRequest c id o := by
  rw [saved?_eq, List.find?_eq_some_iff_append]
  constructor
  · rintro ⟨hp, as, bs, he, hall⟩
    obtain ⟨hr, hid⟩ := Bool.and_eq_true_iff.1 hp
    refine ⟨bs.reverse, as.reverse, ?_, hr, by simpa using hid, fun i hi hir => ?_⟩
    · simpa using congrArg List.reverse he
    · simpa [hir] using hall i (List.mem_reverse.1 hi)
  · rintro ⟨before, after, he, hr, hid, hall⟩
    refine ⟨by simp [hr, hid], after.reverse, before.reverse, by simp [he], fun i hi => ?_⟩
    cases hir : i.request.isSome with
    | false => simp
    | true => simpa using hall i (List.mem_reverse.1 hi) hir

theorem saved?_eq_none_iff :
    saved? (some c) id = none ↔ ∀ i ∈ c.everyItem, i.request.isSome = true → i.id ≠ some id := by
  rw [saved?_eq, List.find?_eq_none]
  simp

end ApiDocs.Collection
