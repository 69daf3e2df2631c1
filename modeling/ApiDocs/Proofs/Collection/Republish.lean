import ApiDocs.Proofs.Collection.Merge
import ApiDocs.Proofs.Example
import ApiDocs.Proofs.Header
/-!
# Rendering over what was just rendered

A collection that is rendered over itself stays as it is. Each entry takes over the value it has
already, and a body is read back as the fields it was written from, so that they too take over their
own values.
-/
namespace ApiDocs.Collection

/-! ## Entries -/

/-- Entries that were merged with old ones stay as they are when they are merged with themselves. Of
fresh entries with one key, each has to be as the others as far as they are taken over. -/
theorem merge_merge {α κ : Type} [BEq κ] [LawfulBEq κ] (key : α → κ) (take : α → α → α)
    {merge : List α → List α → List α} {fresh : List α} (old : List α)
    (hmerge : ∀ old, merge fresh old = fresh.map fun f => ((old.find? fun o => key o == key f).map (take f)).getD f)
    (hkey : ∀ f o, key (take f o) = key f) (htake : ∀ f g o, take f (take g o) = take f o)
    (hsame : ∀ f ∈ fresh, ∀ g ∈ fresh, key f = key g → take f g = f) :
    merge fresh (merge fresh old) = merge fresh old := by
  let kept (f : α) : α := ((old.find? fun o => key o == key f).map (take f)).getD f
  have hkept : ∀ f, key (kept f) = key f := by
    intro f
    simp only [kept]
    cases old.find? fun o => key o == key f with
    | none => rfl
    | some o => exact hkey f o
  rw [hmerge, hmerge]
  refine List.map_congr_left fun f hf => ?_
  -- The entry that is found is one that was merged, of the same key.
  obtain ⟨g, hg⟩ : ∃ g, (fresh.find? fun g => key g == key f) = some g :=
    Option.isSome_iff_exists.1 (List.find?_isSome.2 ⟨f, hf, beq_self_eq_true _⟩)
  have hgf : key g = key f := by simpa using List.find?_some hg
  have hfind : ((fresh.map kept).find? fun o => key o == key f) = some (kept g) := by
    rw [List.find?_map]
    simp only [Function.comp_def, hkept, hg, Option.map_some]
  rw [hfind]
  simp only [kept, hgf, Option.map_some, Option.getD_some]
  cases old.find? fun o => key o == key f with
  | some o => exact htake f g o
  | none => exact hsame f hf g (List.mem_of_find?_eq_some hg) hgf.symm

theorem mergeHeaders_mergeHeaders {fresh : List HeaderEntry} (old : List HeaderEntry)
    (h : (fresh.map HeaderEntry.key).Nodup) :
    mergeHeaders fresh (mergeHeaders fresh old) = mergeHeaders fresh old := by
  refine merge_merge HeaderEntry.key (fun f o => { f with value := o.value }) old (fun old => ?_)
    (fun _ _ => rfl) (fun _ _ _ => rfl) fun f hf g hg hk => ?_
  · refine List.map_congr_left fun f _ => ?_
    cases old.find? fun o => o.key == f.key <;> rfl
  · rw [List.inj_on_of_nodup_map h hg hf hk.symm]

theorem mergeQuery_mergeQuery {fresh : List QueryEntry} (old : List QueryEntry)
    (h : (fresh.map QueryEntry.key).Nodup) :
    mergeQuery fresh (mergeQuery fresh old) = mergeQuery fresh old := by
  refine merge_merge QueryEntry.key (fun f o => { f with value := o.value }) old (fun old => ?_)
    (fun _ _ => rfl) (fun _ _ _ => rfl) fun f hf g hg hk => ?_
  · refine List.map_congr_left fun f _ => ?_
    cases old.find? fun o => o.key == f.key <;> rfl
  · rw [List.inj_on_of_nodup_map h hg hf hk.symm]

/-- Path variables may share a key, as they are all generated with the same value. -/
theorem mergePathEntries_mergePathEntries {fresh : List PathEntry} (old : List PathEntry)
    (h : ∀ f ∈ fresh, f.value = "") :
    mergePathEntries fresh (mergePathEntries fresh old) = mergePathEntries fresh old := by
  refine merge_merge PathEntry.key (fun f o => { f with value := o.value }) old (fun old => ?_)
    (fun _ _ => rfl) (fun _ _ _ => rfl) fun f hf g hg hk => ?_
  · refine List.map_congr_left fun f _ => ?_
    cases old.find? fun o => o.key == f.key <;> rfl
  · rw [h g hg, ← h f hf]

theorem mergeMembers_mergeMembers {fresh : List (String × Json)} (old : List (String × Json))
    (h : (Pairs.keys fresh).Nodup) : mergeMembers fresh (mergeMembers fresh old) = mergeMembers fresh old := by
  refine merge_merge Prod.fst (fun f o => (f.1, o.2)) old (fun old => ?_)
    (fun _ _ => rfl) (fun _ _ _ => rfl) fun f hf g hg hk => ?_
  · refine List.map_congr_left fun f _ => ?_
    simp only [Pairs.get?_eq_find?]
    cases old.find? fun o => o.1 == f.1 <;> rfl
  · rw [List.inj_on_of_nodup_map h hg hf hk.symm]

/-! ## Bodies -/

theorem keys_mergeMembers (fresh old : List (String × Json)) :
    Pairs.keys (mergeMembers fresh old) = Pairs.keys fresh :=
  Pairs.keys_map (fun k v => (Pairs.get? k old).getD v) fresh

/-- A member of merged members is a member of one of the two. -/
theorem mem_mergeMembers {fresh old : List (String × Json)} {m : String × Json} (h : m ∈ mergeMembers fresh old) :
    m ∈ old ∨ m ∈ fresh := by
  obtain ⟨⟨k, v⟩, hm, rfl⟩ := List.mem_map.1 h
  cases hget : Pairs.get? k old with
  | some w => exact .inl (by simpa [hget] using Pairs.mem_of_get? hget)
  | none => exact .inr (by simpa [hget] using hm)

theorem mergeMembers_self {members : List (String × Json)} (h : (Pairs.keys members).Nodup) :
    mergeMembers members members = members := by
  refine (List.map_congr_left fun m hm => ?_).trans (List.map_id members)
  simp [Pairs.get?_of_mem h hm]

theorem objectMembers?_eq_some_iff {text : String} {members : List (String × Json)} :
    objectMembers? text = some members ↔ Json.value? text = some (.obj members) := by
  unfold objectMembers?
  split
  case h_1 ms h => simp [h]
  case h_2 h => simpa using h members

/-- Members that a text spells can be written and read back, merged with others like them. -/
theorem objectMembers?_pretty_mergeMembers {fresh old : String} {fm om : List (String × Json)}
    (hf : objectMembers? fresh = some fm) (ho : objectMembers? old = some om) :
    objectMembers? (Json.obj (mergeMembers fm om)).pretty = some (mergeMembers fm om) := by
  obtain ⟨hfc, hfh⟩ := Json.canonical_of_value? (objectMembers?_eq_some_iff.1 hf)
  obtain ⟨hoc, hoh⟩ := Json.canonical_of_value? (objectMembers?_eq_some_iff.1 ho)
  cases hfc with
  | obj hfn hfc =>
  cases hoc with
  | obj hon hoc =>
  have hc : (Json.obj (mergeMembers fm om)).Canonical := by
    refine .obj (by rwa [keys_mergeMembers]) fun m hm => ?_
    exact (mem_mergeMembers hm).elim (hoc m) (hfc m)
  have hh : (Json.obj (mergeMembers fm om)).height ≤ Json.maxDepth := by
    simp only [Json.height] at hfh hoh ⊢
    have hle : Json.heightMembers (mergeMembers fm om) ≤ Json.maxDepth - 1 := by
      refine Json.heightMembers_le_iff.2 fun m hm => (mem_mergeMembers hm).elim (fun hm => ?_) fun hm => ?_
      · exact Json.heightMembers_le_iff.1 (Nat.le_sub_one_of_lt hoh) m hm
      · exact Json.heightMembers_le_iff.1 (Nat.le_sub_one_of_lt hfh) m hm
    have hpos : 0 < Json.maxDepth := by decide
    omega
  rw [objectMembers?_eq_some_iff, hc.value?_pretty, if_pos hh]

theorem mergeBodies_of_some {fresh o : Body} {raw : String} (h : mergeBody? fresh.raw o.raw = some raw) :
    mergeBodies fresh (some o) = { fresh with raw } := by
  simp [mergeBodies, h]

theorem mergeBodies_of_none {fresh : Body} {old : Option Body}
    (h : (old.bind fun o => mergeBody? fresh.raw o.raw) = none) : mergeBodies fresh old = fresh := by
  simp [mergeBodies, h]

theorem mergeBody?_of_some {fresh old : String} {fm om : List (String × Json)} (hf : objectMembers? fresh = some fm)
    (ho : objectMembers? old = some om) : mergeBody? fresh old = some (Json.obj (mergeMembers fm om)).pretty := by
  simp [mergeBody?, hf, ho]

/-- A body that was written from a value takes nothing new over from itself. -/
theorem mergeBodies_self {fresh : Body} {v : Json} (hv : v.Canonical) (hraw : fresh.raw = v.pretty) :
    mergeBodies fresh (some fresh) = fresh := by
  cases hf : objectMembers? fresh.raw with
  | none => exact mergeBodies_of_none (by simp [mergeBody?, hf])
  | some fm =>
    have hspelled := objectMembers?_eq_some_iff.1 hf
    rw [hraw, hv.value?_pretty, Option.ite_none_right_eq_some, Option.some.injEq] at hspelled
    obtain ⟨-, rfl⟩ := hspelled
    cases hv with
    | obj hn =>
    rw [mergeBodies_of_some (mergeBody?_of_some hf hf), mergeMembers_self hn, ← hraw]

/-- A body that was written from a value stays when it is merged with what it was merged to. -/
theorem mergeBodies_mergeBodies {fresh : Body} {v : Json} (hv : v.Canonical) (hraw : fresh.raw = v.pretty)
    (old : Option Body) : mergeBodies fresh (some (mergeBodies fresh old)) = mergeBodies fresh old := by
  cases hold : old.bind fun o => mergeBody? fresh.raw o.raw with
  | some raw =>
    obtain ⟨o, rfl, hm⟩ := Option.bind_eq_some_iff.1 hold
    obtain ⟨om, fm, ho, hf, rfl⟩ := mergeBody?_eq_some hm
    have hn : (Pairs.keys fm).Nodup := by
      obtain ⟨hc, -⟩ := Json.canonical_of_value? (objectMembers?_eq_some_iff.1 hf)
      cases hc with
      | obj hn => exact hn
    have hagain := mergeBody?_of_some hf (objectMembers?_pretty_mergeMembers hf ho)
    rw [mergeMembers_mergeMembers om hn] at hagain
    rw [mergeBodies_of_some hm]
    exact mergeBodies_of_some (o := { fresh with raw := _ }) hagain
  | none =>
    rw [mergeBodies_of_none hold]
    exact mergeBodies_self hv hraw

/-! ## Requests -/

variable (ctx : Context) {d : Definition}

theorem nodup_headers_requestOf : ((requestOf ctx d).headers.map HeaderEntry.key).Nodup := by
  have h := Header.nodup_firstOfName (d.headers ++ ctx.service.headers) []
  simpa [requestOf, headerEntry, Function.comp_def, Header.merge, Header.names] using h

theorem value_pathEntries_urlOf : ∀ f ∈ (urlOf ctx d).pathEntries, f.value = "" := by
  simp [urlOf, pathEntry]

/-- The body that is generated is written from the example of a parameter. -/
theorem body_requestOf {b : Body} (h : (requestOf ctx d).body = some b) :
    ∃ v : Json, v.Canonical ∧ b.raw = v.pretty := by
  obtain ⟨p, -, rfl⟩ := Option.map_eq_some_iff.1 h
  exact ⟨_, Example.canonical_parameterValue ctx.conventions ctx.models p, rfl⟩

/-- A request without anything that could be taken over. -/
def bare (r : Request) : Request :=
  { r with headers := [], body := none, url := { r.url with query := [], pathEntries := [] } }

theorem mergeRequest_bare (fresh : Request) : mergeRequest fresh (bare fresh) = fresh := by
  obtain ⟨method, headers, body, url, description⟩ := fresh
  cases body <;> simp [mergeRequest, bare, mergeHeaders, mergeQuery, mergePathEntries, mergeBodies]

section
variable (hq : ((urlOf ctx d).query.map QueryEntry.key).Nodup)

include hq

/-- A request that was merged stays as it is when it is merged with itself. -/
theorem mergeRequest_mergeRequest (old : Request) :
    mergeRequest (requestOf ctx d) (mergeRequest (requestOf ctx d) old) = mergeRequest (requestOf ctx d) old := by
  have hheaders := mergeHeaders_mergeHeaders old.headers (nodup_headers_requestOf ctx (d := d))
  have hquery := mergeQuery_mergeQuery old.url.query hq
  have hpath := mergePathEntries_mergePathEntries old.url.pathEntries (value_pathEntries_urlOf ctx (d := d))
  have hbody : ((requestOf ctx d).body.map fun b =>
      mergeBodies b ((requestOf ctx d).body.map fun b => mergeBodies b old.body)) =
      (requestOf ctx d).body.map fun b => mergeBodies b old.body := by
    cases hb : (requestOf ctx d).body with
    | none => rfl
    | some b =>
      obtain ⟨v, hv, hraw⟩ := body_requestOf ctx hb
      exact congrArg some (mergeBodies_mergeBodies hv hraw old.body)
  have hurl : (requestOf ctx d).url = urlOf ctx d := rfl
  simp only [mergeRequest, hurl, hheaders, hquery, hpath, hbody]

/-- The same for a request that was not merged: it is as if nothing had been there. -/
theorem mergeRequest_self : mergeRequest (requestOf ctx d) (requestOf ctx d) = requestOf ctx d := by
  have h := mergeRequest_mergeRequest ctx hq (bare (requestOf ctx d))
  rwa [mergeRequest_bare] at h

theorem itemOf_itemOf (old : Option Item) : itemOf ctx d (some (itemOf ctx d old)) = itemOf ctx d old := by
  cases old with
  | none => simp [itemOf, mergeRequest_self ctx hq]
  | some o =>
    cases hr : o.request with
    | none => simp [itemOf, hr, mergeRequest_self ctx hq]
    | some r => simp [itemOf, hr, mergeRequest_mergeRequest ctx hq r]

end

/-! ## Collections -/

variable {ds : List Definition}

/-- A rendered collection has folders, and in them the items of the definitions. -/
theorem mem_everyItem_render {previous : Option Collection} {i : Item} :
    i ∈ (render ctx ds previous).everyItem ↔
      i ∈ (render ctx ds previous).items ∨ ∃ d ∈ ds, i = itemOf ctx d (saved? previous d.id) := by
  rw [everyItem, items_render, Item.mem_flattenAll]
  constructor
  · rintro ⟨j, hj, hi⟩
    obtain ⟨group, hg, rfl⟩ := List.mem_map.1 hj
    rw [Item.flatten_eq, List.mem_cons, Item.children_folder, flattenAll_items] at hi
    rcases hi with rfl | hi
    · exact .inl hj
    · obtain ⟨d, hd, rfl⟩ := List.mem_map.1 hi
      exact .inr ⟨d, (List.mem_filter.1 hd).1, rfl⟩
  · rintro (hi | ⟨d, hd, rfl⟩)
    · exact ⟨i, hi, by simp [Item.flatten_eq]⟩
    · refine ⟨_, List.mem_map_of_mem (List.mem_eraseDups.2 (List.mem_map_of_mem hd)), ?_⟩
      rw [Item.flatten_eq, List.mem_cons, Item.children_folder, flattenAll_items]
      exact .inr (List.mem_map_of_mem (List.mem_filter.2 ⟨hd, by simp⟩))

/-- A rendered collection has saved the item of each definition, if their ids are distinct. -/
theorem saved?_render (hn : (ds.map (·.id)).Nodup) (previous : Option Collection) (hd : d ∈ ds) :
    saved? (some (render ctx ds previous)) d.id = some (itemOf ctx d (saved? previous d.id)) := by
  have hall : ∀ i ∈ (render ctx ds previous).requests, i.id = some d.id →
      i = itemOf ctx d (saved? previous d.id) := by
    intro i hi hid
    obtain ⟨d', hd', rfl⟩ := (mem_requests_render ctx).1 hi
    have hdd : d' = d := List.inj_on_of_nodup_map hn hd' hd (Option.some.inj hid)
    rw [hdd]
  have hmem : itemOf ctx d (saved? previous d.id) ∈ (render ctx ds previous).requests :=
    (mem_requests_render ctx).2 ⟨d, hd, rfl⟩
  cases hs : saved? (some (render ctx ds previous)) d.id with
  | none =>
    rw [requests_eq] at hmem
    obtain ⟨hmem, hr⟩ := List.mem_filter.1 hmem
    exact absurd rfl (saved?_eq_none_iff.1 hs _ hmem hr)
  | some i =>
    obtain ⟨before, after, he, hr, hid, -⟩ := saved?_eq_some_iff.1 hs
    refine congrArg some (hall i ?_ hid)
    rw [requests_eq]
    exact List.mem_filter.2 ⟨he ▸ by simp, hr⟩

/-- A collection that is rendered over what was just rendered is the same collection. -/
theorem render_render (ctx : Context) (ds : List Definition) (previous : Option Collection)
    (hids : (ds.map (·.id)).Nodup) (hquery : ∀ d ∈ ds, ((urlOf ctx d).query.map QueryEntry.key).Nodup) :
    render ctx ds (some (render ctx ds previous)) = render ctx ds previous := by
  have hitems : (render ctx ds (some (render ctx ds previous))).items = (render ctx ds previous).items := by
    rw [items_render, items_render, foldersOf, foldersOf]
    refine List.map_congr_left fun group _ => ?_
    congr 1
    refine List.map_congr_left fun d hd => ?_
    have hd := (List.mem_filter.1 hd).1
    rw [saved?_render ctx hids previous hd, itemOf_itemOf ctx (hquery d hd)]
  calc render ctx ds (some (render ctx ds previous))
      = ⟨(render ctx ds previous).info, (render ctx ds (some (render ctx ds previous))).items,
          (render ctx ds previous).auth⟩ := rfl
    _ = render ctx ds previous := by rw [hitems]

/-- A service with a model of orders. -/
def ordering : Context where
  service := Service.ofId "shop"
  conventions := .default
  models := Keyed.ofList
    [("a.Order", ⟨"Order", .object, "",
      [⟨"id", .scalar "Long", "java.lang.Long", "", false, none⟩,
       ⟨"next", .object, "a.Order", "", true, none⟩]⟩)]

/-- A definition that takes a number from the query and an order from the body. -/
def changing : Definition where
  id := "change"
  name := "Change"
  className := ""
  description := ""
  group := "orders"
  groupId := ""
  method := "put"
  urlMapping := "/orders/\x7bid\x7d"
  parameters :=
    [⟨"id", "Long", "java.lang.Long", "", false, none, .path, false, false⟩,
     ⟨"retries", "Integer", "java.lang.Integer", "", true, some "3", .query, false, false⟩,
     ⟨"order", "Object", "a.Order", "", false, none, .body, false, false⟩]
  headers := [Header.ofText "X-Trace" ""]
  returnClass := some "a.Order"
  returnDescription := ""
  returnShape := .array
  needsSession := false
  responses := Sorted.empty.put "200" "OK"
  errors := []

/-- A collection in which a user has set a header, a path variable and a field of the body. -/
def edited : Collection where
  info := ⟨some "published", "shop", "", schemaUrl, some "v1.0"⟩
  items :=
    [⟨some "change", "Change", none,
      some
        { method := "PUT"
          headers := [⟨"X-Trace", "on", "text", none⟩]
          body := some (Body.ofJsonText "\x7b\"id\": 7\x7d")
          url := ⟨"", [], [], [⟨"retries", some "5", none, false⟩], [⟨"id", "42", none⟩]⟩
          description := none },
      [.str "an answer"]⟩]
  auth := none

theorem edited_render_render :
    ([changing].map (·.id)).Nodup ∧ (∀ d ∈ [changing], ((urlOf ordering d).query.map QueryEntry.key).Nodup) ∧
      render ordering [changing] (some (render ordering [changing] (some edited))) =
        render ordering [changing] (some edited) :=
  ⟨by decide, by decide, render_render ordering [changing] (some edited) (by decide) (by decide)⟩

end ApiDocs.Collection
