import ApiDocs.Proofs.Collection.Merge
import Mathlib.Data.List.Lex
/-!
# Requests in document order

The place of an item is given by its position in each folder from the outside in, so the places of a collection are
ordered as its document is: an item comes before what is in it, and that before the next item. The requests of a
collection stand at the places that hold a request, each listed once and in this order, also where items repeat ids or
are folders as well (`requests_preorder`). They are found with a stack from which an item is taken off in every turn.
-/
namespace ApiDocs.Collection

namespace Item

/-! ## Places -/

/-- The item at a place. -/
def itemAt? : List Item → List Nat → Option Item
  | _, [] => none
  | items, n :: place => items[n]?.bind fun i => if place = [] then some i else itemAt? i.children place

/-- All items and what is in them, each with its place, where the first stands at a position. -/
def placedFrom (n : Nat) : List Item → List (List Nat × Item)
  | [] => []
  | i :: rest =>
    ([n], i) :: ((placedFrom 0 i.children).map fun q => (n :: q.1, q.2)) ++ placedFrom (n + 1) rest
termination_by items => countAll items
decreasing_by
  all_goals simp only [countAll, count_eq]
  all_goals omega

variable {n k : Nat} {i : Item} {items rest : List Item} {place : List Nat} {q : List Nat × Item}

theorem itemAt?_zero : itemAt? (i :: rest) (0 :: place) = if place = [] then some i else itemAt? i.children place := by
  simp [itemAt?]

theorem itemAt?_succ : itemAt? (i :: rest) ((k + 1) :: place) = itemAt? rest (k :: place) := by
  simp [itemAt?]

theorem map_snd_placedFrom (n : Nat) (items : List Item) : (placedFrom n items).map (·.2) = flattenAll items := by
  induction n, items using placedFrom.induct with
  | case1 => simp [placedFrom, flattenAll]
  | case2 n i rest hchildren hrest =>
    rw [placedFrom, flattenAll, flatten_eq, ← hchildren, ← hrest]
    simp [Function.comp_def]

/-- The items are placed where they are found. -/
theorem mem_placedFrom :
    q ∈ placedFrom n items ↔ ∃ k place, q.1 = (n + k) :: place ∧ itemAt? items (k :: place) = some q.2 := by
  induction n, items using placedFrom.induct generalizing q with
  | case1 => simp [placedFrom, itemAt?]
  | case2 n i rest hchildren hrest =>
    simp only [placedFrom, List.cons_append, List.mem_cons, List.mem_append, List.mem_map, hchildren, hrest]
    constructor
    · rintro (rfl | ⟨q', ⟨k, place, hq, hi⟩, rfl⟩ | ⟨k, place, hq, hi⟩)
      · exact ⟨0, [], rfl, by rw [itemAt?_zero, if_pos rfl]⟩
      · refine ⟨0, q'.1, rfl, ?_⟩
        rw [itemAt?_zero, if_neg (by simp [hq]), hq, Nat.zero_add, hi]
      · exact ⟨k + 1, place, by rw [hq]; congr 1; omega, by rw [itemAt?_succ, hi]⟩
    · rintro ⟨k, place, hq, hi⟩
      cases k with
      | succ k =>
        rw [itemAt?_succ] at hi
        exact .inr (.inr ⟨k, place, by rw [hq]; congr 1; omega, hi⟩)
      | zero =>
        rw [itemAt?_zero] at hi
        split at hi
        case isTrue hp =>
          obtain rfl := Option.some.inj hi
          exact .inl (Prod.ext (by rw [hq, hp, Nat.add_zero]) rfl)
        case isFalse hp =>
          obtain ⟨k, place, rfl⟩ := List.exists_cons_of_ne_nil hp
          exact .inr (.inl ⟨(k :: place, q.2), ⟨k, place, by simp, hi⟩, Prod.ext hq.symm rfl⟩)

/-- An item comes before what is in it, and that before the items behind it. -/
theorem pairwise_placedFrom (n : Nat) (items : List Item) :
    (placedFrom n items).Pairwise fun a b => a.1 < b.1 := by
  induction n, items using placedFrom.induct with
  | case1 => simp [placedFrom]
  | case2 n i rest hchildren hrest =>
    have hinside : ∀ q ∈ placedFrom 0 i.children, q.1 ≠ [] := by
      intro q hq hnil
      obtain ⟨k, place, hk, -⟩ := mem_placedFrom.1 hq
      simp [hk] at hnil
    have hbehind : ∀ q ∈ placedFrom (n + 1) rest, ∀ place, n :: place < q.1 := by
      intro q hq place
      obtain ⟨k, place', hk, -⟩ := mem_placedFrom.1 hq
      rw [hk, List.cons_lt_cons_iff]
      exact .inl (by omega)
    rw [placedFrom, List.cons_append, List.pairwise_cons, List.pairwise_append, List.pairwise_map]
    refine ⟨fun q hq => ?_, ?_, hrest, fun a ha b hb => ?_⟩
    · rcases List.mem_append.1 hq with hq | hq
      · obtain ⟨q', hq', rfl⟩ := List.mem_map.1 hq
        obtain ⟨k, place, hk⟩ := List.exists_cons_of_ne_nil (hinside q' hq')
        rw [hk, List.cons_lt_cons_iff]
        exact .inr ⟨rfl, List.nil_lt_cons _ _⟩
      · exact hbehind q hq []
    · refine hchildren.imp fun hlt => ?_
      rw [List.cons_lt_cons_iff]
      exact .inr ⟨rfl, hlt⟩
    · obtain ⟨a', -, rfl⟩ := List.mem_map.1 ha
      exact hbehind b hb _

/-! ## Walking with a stack -/

/-- What a walk with a stack lists, and in how many turns it empties the stack: in each turn the last item is taken off
and listed if it is a request, and what is in it is put on from its end. -/
inductive Walk : List Item → List Item → Nat → Prop
  | done : Walk [] [] 0
  | turn {stack listed : List Item} {i : Item} {turns : Nat} : Walk (stack ++ i.children.reverse) listed turns →
      Walk (stack ++ [i]) (if i.request.isSome then i :: listed else listed) (turns + 1)

theorem countAll_reverse (items : List Item) : countAll items.reverse = countAll items := by
  induction items with
  | nil => rfl
  | cons i rest ih =>
    rw [List.reverse_cons, countAll_append, ih]
    simp only [countAll]
    omega

theorem walk_requestsAmong (pending : List Item) :
    Walk pending.reverse (requestsAmong pending) (countAll pending) := by
  induction pending using requestsAmong.induct with
  | case1 => simpa [requestsAmong, countAll] using Walk.done
  | case2 i pending h ih | case3 i pending h ih =>
    rw [List.reverse_append] at ih
    rw [List.reverse_cons, requestsAmong, countAll, count_eq, Nat.add_right_comm, ← countAll_append]
    exact ih.turn

/-- A walk ends, with the requests that are found among the items of the stack from its top. -/
theorem walk_iff {stack listed : List Item} {turns : Nat} :
    Walk stack listed turns ↔ listed = requestsAmong stack.reverse ∧ turns = countAll stack := by
  constructor
  · intro h
    induction h with
    | done => simp [requestsAmong, countAll]
    | @turn stack listed i turns _ ih =>
      obtain ⟨hlisted, hturns⟩ := ih
      rw [List.reverse_append, List.reverse_reverse] at hlisted
      rw [countAll_append, countAll_reverse] at hturns
      rw [List.reverse_append, List.reverse_singleton, List.singleton_append, requestsAmong, ← hlisted, countAll_append,
        hturns]
      refine ⟨rfl, ?_⟩
      simp only [countAll, count_eq]
      omega
  · rintro ⟨rfl, rfl⟩
    have h := walk_requestsAmong stack.reverse
    rwa [List.reverse_reverse, countAll_reverse] at h

end Item

/-! ## Collections -/

/-- Whether items are the requests of a collection with their places: each place that holds a request once, in the order
of the document. -/
structure IsListing (c : Collection) (places : List (List Nat)) (listed : List Item) : Prop where
  ordered : places.Pairwise (· < ·)
  exact : ∀ place, place ∈ places ↔ ∃ i, Item.itemAt? c.items place = some i ∧ i.request.isSome = true
  found : places.map (Item.itemAt? c.items) = listed.map some

theorem exists_isListing (c : Collection) : ∃ places, IsListing c places c.requests := by
  have hat : ∀ q : List Nat × Item, q ∈ Item.placedFrom 0 c.items ↔ Item.itemAt? c.items q.1 = some q.2 := by
    intro q
    rw [Item.mem_placedFrom]
    constructor
    · rintro ⟨k, place, hq, hi⟩
      rw [hq, Nat.zero_add, hi]
    · intro hi
      cases hq : q.1 with
      | nil => simp [hq, Item.itemAt?] at hi
      | cons k place => exact ⟨k, place, by rw [Nat.zero_add], hq ▸ hi⟩
  have hrequests : c.requests =
      ((Item.placedFrom 0 c.items).filter fun q => q.2.request.isSome).map (·.2) := by
    rw [requests_eq, everyItem, ← Item.map_snd_placedFrom 0, List.filter_map]
    rfl
  refine ⟨((Item.placedFrom 0 c.items).filter fun q => q.2.request.isSome).map (·.1), ?_, fun place => ?_, ?_⟩
  · exact List.pairwise_map.2 ((Item.pairwise_placedFrom 0 c.items).filter _)
  · simp only [List.mem_map, List.mem_filter, hat]
    constructor
    · rintro ⟨q, ⟨hi, hr⟩, rfl⟩
      exact ⟨q.2, hi, hr⟩
    · rintro ⟨i, hi, hr⟩
      exact ⟨(place, i), ⟨hi, hr⟩, rfl⟩
  · rw [hrequests, List.map_map, List.map_map]
    exact List.map_congr_left fun q hq => (hat q).1 (List.mem_filter.1 hq).1

/-- The requests of a collection are those among its items in document order, each item before what is in it: one for each
place that holds a request. A walk with a stack that holds the items of the collection finds them, in as many turns as
there are items, and nothing else. In a rendered collection they are those of the definitions, in the order in which the
groups are first seen and, in a group, in the order of its definitions. -/
theorem requests_preorder :
    (∀ c : Collection,
      (∀ listed turns, Item.Walk c.items.reverse listed turns ↔
        listed = c.requests ∧ turns = Item.countAll c.items) ∧
      c.requests = (c.everyItem.filter fun i => i.request.isSome) ∧
      ∃ places, IsListing c places c.requests) ∧
    ∀ (ctx : Context) (ds : List Definition) (previous : Option Collection),
      (render ctx ds previous).requests.map (·.id) = (ds.map (·.group)).eraseDups.flatMap fun group =>
        (ds.filter fun d => d.group = group).map fun d => some d.id := by
  refine ⟨fun c => ⟨fun listed turns => ?_, requests_eq c, exists_isListing c⟩, fun ctx ds previous => ?_⟩
  · rw [Item.walk_iff, List.reverse_reverse, Item.countAll_reverse]
    rfl
  · rw [requests_render, List.map_flatMap]
    simp only [List.map_map]
    rfl

end ApiDocs.Collection
