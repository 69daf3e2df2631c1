import ApiDocs.Proofs.Collection.Requests
import ApiDocs.Proofs.Grouping
import Mathlib.Data.List.Forall2
/-!
# What a new collection keeps

A collection that is rendered over an earlier one is the generated collection, but for the values
that users changed. `TakesOver` says of any list of keyed entries what a merge does to it: headers,
query entries, path variables and the members of JSON bodies are merged alike.
-/
namespace ApiDocs

theorem Pairs.get?_eq_find? {α : Type} {k : String} {pairs : List (String × α)} :
    get? k pairs = (pairs.find? fun p => p.1 == k).map (·.2) := by
  induction pairs with
  | nil => rfl
  | cons p rest ih =>
    by_cases h : p.1 = k
    · simp [get?, h]
    · simp [get?, h, ih]

namespace Collection

/-! ## Entries -/

section
variable {α κ : Type} [BEq κ] [LawfulBEq κ]

/-- Whether an entry is the first one with a key. -/
def IsFirst (key : α → κ) (entries : List α) (k : κ) (e : α) : Prop :=
  ∃ before after, entries = before ++ e :: after ∧ key e = k ∧ ∀ b ∈ before, key b ≠ k

/-- Whether entries are the fresh ones in their order, each with what it takes from the first old one
of its key, if there is one. -/
def TakesOver (key : α → κ) (take : α → α → α) (old fresh kept : List α) : Prop :=
  List.Forall₂ (fun f k => (∀ e, IsFirst key old (key f) e → k = take f e) ∧
    ((∀ e ∈ old, key e ≠ key f) → k = f)) fresh kept

theorem find?_eq_some_iff_isFirst {key : α → κ} {entries : List α} {k : κ} {e : α} :
    (entries.find? fun o => key o == k) = some e ↔ IsFirst key entries k e := by
  rw [List.find?_eq_some_iff_append]
  constructor
  · rintro ⟨hk, before, after, he, hall⟩
    exact ⟨before, after, he, by simpa using hk, fun b hb => by simpa using hall b hb⟩
  · rintro ⟨before, after, he, hk, hall⟩
    exact ⟨by simpa using hk, before, after, he, fun b hb => by simpa using hall b hb⟩

/-- Looking every fresh entry up among the old ones takes over what they have. -/
theorem takesOver_map {key : α → κ} {take : α → α → α} {old fresh : List α} {merge : α → α}
    (h : ∀ f, merge f = match old.find? fun o => key o == key f with
      | some o => take f o
      | none => f) : TakesOver key take old fresh (fresh.map merge) := by
  rw [TakesOver, List.forall₂_map_right_iff, List.forall₂_same]
  refine fun f _ => ⟨fun e he => ?_, fun hnone => ?_⟩
  · rw [h, find?_eq_some_iff_isFirst.2 he]
  · have hfind : (old.find? fun o => key o == key f) = none := by simpa using hnone
    rw [h, hfind]

/-- Entries keep their keys, whatever they take over. -/
theorem TakesOver.map_key {key : α → κ} {take : α → α → α} {old fresh kept : List α}
    (h : TakesOver key take old fresh kept) (hkey : ∀ f o, key (take f o) = key f) : kept.map key = fresh.map key := by
  induction h with
  | nil => rfl
  | @cons f k fresh kept hfirst _ ih =>
    have hk : key k = key f := by
      cases hfind : old.find? fun o => key o == key f with
      | some e => rw [hfirst.1 e (find?_eq_some_iff_isFirst.1 hfind), hkey]
      | none => rw [hfirst.2 (by simpa using hfind)]
    rw [List.map_cons, List.map_cons, hk, ih]

end

theorem takesOver_mergeHeaders (fresh old : List HeaderEntry) :
    TakesOver HeaderEntry.key (fun f o => { f with value := o.value }) old fresh (mergeHeaders fresh old) := by
  refine takesOver_map fun f => ?_
  cases old.find? fun o => o.key == f.key <;> rfl

theorem takesOver_mergeQuery (fresh old : List QueryEntry) :
    TakesOver QueryEntry.key (fun f o => { f with value := o.value }) old fresh (mergeQuery fresh old) := by
  refine takesOver_map fun f => ?_
  cases old.find? fun o => o.key == f.key <;> rfl

theorem takesOver_mergePathEntries (fresh old : List PathEntry) :
    TakesOver PathEntry.key (fun f o => { f with value := o.value }) old fresh (mergePathEntries fresh old) := by
  refine takesOver_map fun f => ?_
  cases old.find? fun o => o.key == f.key <;> rfl

theorem takesOver_mergeMembers (fresh old : List (String × Json)) :
    TakesOver Prod.fst (fun f o => (f.1, o.2)) old fresh (mergeMembers fresh old) := by
  refine takesOver_map fun f => ?_
  obtain ⟨k, v⟩ := f
  simp only [Pairs.get?_eq_find?]
  cases old.find? fun o => o.1 == k with
  | none => rfl
  | some o => rfl

/-! ## Requests -/

/-- What becomes of a fresh body: between two objects the fresh members take over the old values, and
in all other cases the fresh body stays. -/
inductive BodyKept : Option Body → Option Body → Option Body → Prop
  | absent {old} : BodyKept old none none
  | merged {old fresh om fm members} : objectMembers? old.raw = some om → objectMembers? fresh.raw = some fm →
      TakesOver Prod.fst (fun f o => (f.1, o.2)) om fm members →
      BodyKept (some old) (some fresh) (some { fresh with raw := (Json.obj members).pretty })
  | unread {old fresh} : (∀ o, old = some o → objectMembers? o.raw = none ∨ objectMembers? fresh.raw = none) →
      BodyKept old (some fresh) (some fresh)

/-- What becomes of a fresh request over an old one: values of entries and members of the body are
taken over, and all else stays. -/
structure RequestKept (old fresh kept : Request) : Prop where
  method : kept.method = fresh.method
  description : kept.description = fresh.description
  raw : kept.url.raw = fresh.url.raw
  host : kept.url.host = fresh.url.host
  path : kept.url.path = fresh.url.path
  headers : TakesOver HeaderEntry.key (fun f o => { f with value := o.value })
    old.headers fresh.headers kept.headers
  query : TakesOver QueryEntry.key (fun f o => { f with value := o.value })
    old.url.query fresh.url.query kept.url.query
  pathEntries : TakesOver PathEntry.key (fun f o => { f with value := o.value })
    old.url.pathEntries fresh.url.pathEntries kept.url.pathEntries
  body : BodyKept old.body fresh.body kept.body

/-- What becomes of a fresh item over an old one: its request is kept so, and it has the saved
responses of the old one. -/
structure ItemKept (old fresh kept : Item) : Prop where
  id : kept.id = fresh.id
  name : kept.name = fresh.name
  items : kept.items = fresh.items
  request : ∃ o f k, old.request = some o ∧ fresh.request = some f ∧ kept.request = some k ∧ RequestKept o f k
  responses : kept.responses = old.responses

theorem mergeBody?_eq_none_iff {fresh old : String} :
    mergeBody? fresh old = none ↔ objectMembers? old = none ∨ objectMembers? fresh = none := by
  unfold mergeBody?
  cases objectMembers? fresh <;> cases objectMembers? old <;> simp

theorem mergeBody?_eq_some {fresh old raw : String} (h : mergeBody? fresh old = some raw) :
    ∃ om fm, objectMembers? old = some om ∧ objectMembers? fresh = some fm ∧
      raw = (Json.obj (mergeMembers fm om)).pretty := by
  unfold mergeBody? at h
  split at h
  case h_1 fm om hf ho => exact ⟨om, fm, ho, hf, (Option.some.inj h).symm⟩
  case h_2 => cases h

theorem bodyKept_mergeBodies (old : Option Body) (fresh : Body) :
    BodyKept old (some fresh) (some (mergeBodies fresh old)) := by
  unfold mergeBodies
  cases h : old.bind fun o => mergeBody? fresh.raw o.raw with
  | some raw =>
    obtain ⟨o, rfl, hm⟩ := Option.bind_eq_some_iff.1 h
    obtain ⟨om, fm, ho, hf, rfl⟩ := mergeBody?_eq_some hm
    exact .merged ho hf (takesOver_mergeMembers fm om)
  | none => exact .unread fun o ho => mergeBody?_eq_none_iff.1 (Option.bind_eq_none_iff.1 h o ho)

theorem requestKept_mergeRequest (fresh old : Request) : RequestKept old fresh (mergeRequest fresh old) where
  method := rfl
  description := rfl
  raw := rfl
  host := rfl
  path := rfl
  headers := takesOver_mergeHeaders _ _
  query := takesOver_mergeQuery _ _
  pathEntries := takesOver_mergePathEntries _ _
  body := by
    cases h : fresh.body with
    | none =>
      rw [mergeRequest, h]
      exact .absent
    | some b =>
      rw [mergeRequest, h]
      exact bodyKept_mergeBodies old.body b

/-! ## Collections -/

/-- One folder for each group, in the order in which the groups are first seen, with the items of its
definitions in their order. -/
def foldersOf (ctx : Context) (ds : List Definition) (item : Definition → Item) : List Item :=
  (ds.map (·.group)).eraseDups.map fun group =>
    Item.folder (stableId [ctx.service.id, group]) group ((ds.filter fun d => d.group = group).map item)

variable (ctx : Context) (ds : List Definition)

theorem groupsOf_eq (previous : Option Collection) :
    groupsOf ctx previous ds =
      Keyed.grouped (·.group) (fun d => itemOf ctx d (saved? previous d.id)) ds := rfl

theorem items_render (previous : Option Collection) :
    (render ctx ds previous).items = foldersOf ctx ds fun d => itemOf ctx d (saved? previous d.id) := by
  rw [render, groupsOf_eq, Keyed.entries_grouped, List.map_map]
  rfl

/-- The items of definitions have no others in them. -/
theorem flattenAll_items (previous : Option Collection) :
    Item.flattenAll (ds.map fun d => itemOf ctx d (saved? previous d.id)) =
      ds.map fun d => itemOf ctx d (saved? previous d.id) :=
  Item.flattenAll_of_leaves (List.forall_mem_map.2 fun _ _ => rfl)

/-- The requests of a rendered collection: the items of the definitions of each group, group by group. -/
theorem requests_render (previous : Option Collection) :
    (render ctx ds previous).requests = (ds.map (·.group)).eraseDups.flatMap fun group =>
      (ds.filter fun d => d.group = group).map fun d => itemOf ctx d (saved? previous d.id) := by
  rw [requests_eq, everyItem, items_render, foldersOf, Item.flattenAll_eq, List.flatMap_map, List.filter_flatMap]
  refine List.flatMap_congr fun group _ => ?_
  rw [Item.flatten_eq, Item.children_folder, flattenAll_items, List.filter_cons_of_neg (by simp [Item.folder])]
  exact List.filter_eq_self.2 (List.forall_mem_map.2 fun _ _ => rfl)

theorem mem_requests_render {ds : List Definition} {previous : Option Collection} {i : Item} :
    i ∈ (render ctx ds previous).requests ↔ ∃ d ∈ ds, i = itemOf ctx d (saved? previous d.id) := by
  simp only [requests_render, List.mem_flatMap, List.mem_eraseDups, List.mem_map, List.mem_filter, decide_eq_true_eq]
  constructor
  · rintro ⟨group, -, d, ⟨hd, -⟩, rfl⟩
    exact ⟨d, hd, rfl⟩
  · rintro ⟨d, hd, rfl⟩
    exact ⟨d.group, ⟨d, hd, rfl⟩, d, ⟨hd, rfl⟩, rfl⟩

/-- Every definition has one item in all the folders. -/
theorem items_foldersOf (item : Definition → Item) :
    ((foldersOf ctx ds item).flatMap Item.children).Perm (ds.map item) := by
  have hchildren : (foldersOf ctx ds item).flatMap Item.children =
      (Keyed.grouped (·.group) item ds).values.flatten := by
    simp [foldersOf, Keyed.values, Keyed.entries_grouped, List.flatMap_def, Function.comp_def, Item.folder,
      Item.children]
  rw [hchildren]
  exact Keyed.flatten_grouped_perm (·.group) item ds

theorem itemKept_itemOf (d : Definition) {o : Item} (h : o.request.isSome = true) :
    ItemKept o (itemOf ctx d none) (itemOf ctx d (some o)) := by
  obtain ⟨r, hr⟩ := Option.isSome_iff_exists.1 h
  refine ⟨rfl, rfl, rfl, ⟨r, requestOf ctx d, mergeRequest (requestOf ctx d) r, hr, rfl, ?_, ?_⟩, rfl⟩
  · simp [itemOf, hr]
  · exact requestKept_mergeRequest _ _

end Collection

end ApiDocs
