import ApiDocs.Proofs.Collection.Republish
import ApiDocs.Proofs.Json.Restore
/-!
# Collections read back

A collection holds values that are kept just as they were: saved responses and the options of bodies. Where
all of them can be spelled, the collection is read back from its value (`ofNode_toJson`). So it is in all that
is read from a text (`restorable_of_read`), and rendering over such a collection brings in no other values
(`restorable_render`).
-/
namespace ApiDocs.Collection

open Json

/-! ## Entries -/

namespace HeaderEntry

theorem toJson_eq (h : HeaderEntry) : h.toJson = .record
    [("key", some (.str h.key)), ("value", some (.str h.value)), ("type", some (.str h.type)),
     ("description", h.description.map .str)] := by
  simp [toJson, Json.record, Slots.members]

theorem ofNode_toJson (h : HeaderEntry) : ofNode (.ofJson h.toJson) = .ok h := by
  rw [toJson_eq, ofNode, Record.ofNode_record ["key", "value", "type", "description"] rfl (by decide)]
  simp

theorem canonical_toJson (h : HeaderEntry) : h.toJson.Canonical := by
  rw [toJson_eq]
  exact .record ["key", "value", "type", "description"] rfl (by decide) (by simp [Canonical.str])

end HeaderEntry

namespace QueryEntry

theorem toJson_eq (q : QueryEntry) : q.toJson = .record
    [("key", some (.str q.key)), ("value", some (.text? q.value)), ("description", q.description.map .str),
     ("disabled", Slots.flag q.disabled)] := by
  simp [toJson, Json.record, Slots.members, whenTrue_eq_present]

theorem ofNode_toJson (q : QueryEntry) : ofNode (.ofJson q.toJson) = .ok q := by
  rw [toJson_eq, ofNode, Record.ofNode_record ["key", "value", "description", "disabled"] rfl (by decide)]
  simp

theorem canonical_toJson (q : QueryEntry) : q.toJson.Canonical := by
  rw [toJson_eq]
  exact .record ["key", "value", "description", "disabled"] rfl (by decide)
    (by simp [Canonical.str, Slots.flag, Canonical.bool])

end QueryEntry

namespace PathEntry

theorem toJson_eq (v : PathEntry) : v.toJson = .record
    [("key", some (.str v.key)), ("value", some (.str v.value)), ("description", v.description.map .str)] := by
  simp [toJson, Json.record, Slots.members]

theorem ofNode_toJson (v : PathEntry) : ofNode (.ofJson v.toJson) = .ok v := by
  rw [toJson_eq, ofNode, Record.ofNode_record ["key", "value", "description"] rfl (by decide)]
  simp

theorem canonical_toJson (v : PathEntry) : v.toJson.Canonical := by
  rw [toJson_eq]
  exact .record ["key", "value", "description"] rfl (by decide) (by simp [Canonical.str])

end PathEntry

/-! ## Requests -/

namespace Url

theorem toJson_eq (u : Url) : u.toJson = .record
    [("raw", some (.str u.raw)), ("host", some (.texts u.host)), ("path", some (.texts u.path)),
     ("query", Slots.list QueryEntry.toJson u.query), ("variable", Slots.list PathEntry.toJson u.pathEntries)] := by
  simp [toJson, Json.record, Slots.members, nonempty_eq_present]

theorem canonical_toJson (u : Url) : u.toJson.Canonical := by
  have hquery := Canonical.slotList fun q (_ : q ∈ u.query) => q.canonical_toJson
  have hpath := Canonical.slotList fun v (_ : v ∈ u.pathEntries) => v.canonical_toJson
  rw [toJson_eq]
  exact .record ["raw", "host", "path", "query", "variable"] rfl (by decide)
    (by simpa [Canonical.str] using ⟨hquery, hpath⟩)

/-- A URL is always written as an object, so it is never taken for its own text. -/
theorem ofNode_toJson (u : Url) : ofNode (.ofJson u.toJson) = .ok u := by
  have hquery := Reading.list_slot fun q (_ : q ∈ u.query) => q.ofNode_toJson
  have hpath := Reading.list_slot fun v (_ : v ∈ u.pathEntries) => v.ofNode_toJson
  have hjson := Reading.json_ofJson u.canonical_toJson
  rw [toJson_eq] at hjson ⊢
  rw [ofNode, hjson, Record.byName_record ["raw", "host", "path", "query", "variable"] rfl (by decide)]
  · simp [hquery, hpath]
  · simp [Json.record, Node.ofJson]

end Url

namespace Body

/-- Whether the options of a body can be written and read back; null is the same as none. -/
def Restorable (b : Body) : Prop :=
  ∀ v ∈ b.options, v.Canonical ∧ v ≠ .null

theorem toJson_eq (b : Body) : b.toJson = .record
    [("mode", some (.str b.mode)), ("raw", some (.str b.raw)), ("options", b.options)] := by
  simp [toJson, Json.record, Slots.members]

theorem toJson_ne_null (b : Body) : b.toJson ≠ .null := nofun

variable {b : Body}

theorem ofNode_toJson (h : b.Restorable) : ofNode (.ofJson b.toJson) = .ok b := by
  have hoptions : Reading.slot (.ok none) (Reading.nullable Reading.json) (b.options.map id) = .ok b.options :=
    Reading.nullable_slot fun v hv => ⟨(h v hv).2, Reading.json_ofJson (h v hv).1⟩
  rw [toJson_eq, ofNode, Record.ofNode_record ["mode", "raw", "options"] rfl (by decide)]
  simp only [Option.map_id, id] at hoptions
  simp [hoptions]

theorem canonical_toJson (h : b.Restorable) : b.toJson.Canonical := by
  rw [toJson_eq]
  exact .record ["mode", "raw", "options"] rfl (by decide) (by simpa [Canonical.str] using fun v hv => (h v hv).1)

end Body

namespace Request

def Restorable (r : Request) : Prop :=
  ∀ b ∈ r.body, b.Restorable

theorem toJson_eq (r : Request) : r.toJson = .record
    [("method", some (.str r.method)), ("header", some (.list (r.headers.map HeaderEntry.toJson))),
     ("body", r.body.map Body.toJson), ("url", some r.url.toJson), ("description", r.description.map .str)] := by
  simp [toJson, Json.record, Slots.members]

theorem toJson_ne_null (r : Request) : r.toJson ≠ .null := nofun

variable {r : Request}

theorem ofNode_toJson (h : r.Restorable) : ofNode (.ofJson r.toJson) = .ok r := by
  have hheaders := Reading.list_ofJson fun e (_ : e ∈ r.headers) => e.ofNode_toJson
  have hbody := Reading.nullable_slot fun b hb => ⟨b.toJson_ne_null, Body.ofNode_toJson (h b hb)⟩
  have hurl := r.url.ofNode_toJson
  rw [toJson_eq, ofNode, Record.ofNode_record ["method", "header", "body", "url", "description"] rfl (by decide)]
  simp [hheaders, hbody, hurl]

theorem canonical_toJson (h : r.Restorable) : r.toJson.Canonical := by
  have hheaders : (Json.list (r.headers.map HeaderEntry.toJson)).Canonical := .listOf fun e _ => e.canonical_toJson
  have hbody : ∀ b ∈ r.body, b.toJson.Canonical := fun b hb => Body.canonical_toJson (h b hb)
  rw [toJson_eq]
  exact .record ["method", "header", "body", "url", "description"] rfl (by decide)
    (by simpa [Canonical.str, hheaders, r.url.canonical_toJson] using hbody)

end Request

/-! ## Items -/

namespace Item

theorem listToJson_eq (items : List Item) : listToJson items = items.map toJson := by
  induction items with
  | nil => rfl
  | cons i rest ih => rw [listToJson, ih, List.map_cons]

theorem toJson_eq (i : Item) : i.toJson = .record
    [("id", i.id.map .str), ("name", some (.str i.name)), ("item", i.items.map fun is => .list (is.map toJson)),
     ("request", i.request.map Request.toJson), ("response", Slots.list (fun v => v) i.responses)] := by
  obtain ⟨id, name, items, request, responses⟩ := i
  cases items <;> simp [toJson, itemsMember, listToJson_eq, Json.record, Slots.members, nonempty_eq_present, present]

/-- Whether the request and the saved responses of an item can be written and read back. -/
structure Restorable (i : Item) : Prop where
  request : ∀ r ∈ i.request, r.Restorable
  responses : ∀ v ∈ i.responses, v.Canonical

theorem count_le_of_mem {i : Item} {items : List Item} (h : i ∈ items) : i.count ≤ countAll items := by
  induction items with
  | nil => cases h
  | cons j rest ih =>
    rw [countAll]
    rcases List.mem_cons.1 h with rfl | h
    · exact Nat.le_add_right ..
    · exact (ih h).trans (Nat.le_add_left ..)

/-- What holds of an item as soon as it holds of its children holds of every item. -/
theorem of_children {P : Item → Prop} (step : ∀ i, (∀ c ∈ i.children, P c) → P i) (i : Item) : P i := by
  induction hn : i.count using Nat.strong_induction_on generalizing i with
  | _ n ih =>
    refine step i fun c hc => ih c.count ?_ c rfl
    have hle := count_le_of_mem hc
    have hcount := i.count_eq
    omega

/-- All that is in a child of an item is in the item. -/
theorem mem_flatten_of_child {i c j : Item} (hc : c ∈ i.children) (hj : j ∈ c.flatten) : j ∈ i.flatten := by
  rw [flatten_eq, List.mem_cons, mem_flattenAll]
  exact .inr ⟨c, hc, hj⟩

theorem self_mem_flatten (i : Item) : i ∈ i.flatten := by
  rw [flatten_eq]
  exact List.mem_cons_self

theorem canonical_toJson : ∀ i : Item, (∀ j ∈ i.flatten, j.Restorable) → i.toJson.Canonical := by
  refine of_children fun i ih h => ?_
  have hself := h i i.self_mem_flatten
  have hitems : ∀ is ∈ i.items, (Json.list (is.map toJson)).Canonical := by
    intro is his
    refine .listOf fun c hc => ?_
    have hc : c ∈ i.children := by rwa [children, Option.mem_def.1 his]
    exact ih c hc fun j hj => h j (mem_flatten_of_child hc hj)
  have hrequest : ∀ r ∈ i.request, r.toJson.Canonical := fun r hr => Request.canonical_toJson (hself.request r hr)
  have hresponses : ∀ v ∈ Slots.list (fun v => v) i.responses, v.Canonical := Canonical.slotList hself.responses
  rw [toJson_eq]
  refine .record ["id", "name", "item", "request", "response"] rfl (by decide) ?_
  simpa [Canonical.str] using ⟨hitems, hrequest, hresponses⟩

/-- An item is read back with fuel for all the levels of its value. -/
theorem ofNodeWithin_toJson : ∀ i : Item, (∀ j ∈ i.flatten, j.Restorable) → ∀ fuel, i.toJson.height < fuel →
    ofNodeWithin fuel (.ofJson i.toJson) = .ok i := by
  refine of_children fun i ih h fuel hfuel => ?_
  obtain ⟨fuel, rfl⟩ : ∃ f, fuel = f + 1 := ⟨fuel - 1, by omega⟩
  have hself := h i i.self_mem_flatten
  have hitems : Reading.slot (.ok none) (Reading.nullable (Reading.list (ofNodeWithin fuel)))
      (i.items.map fun is => .list (is.map toJson)) = .ok i.items :=
    Reading.nullable_slot fun is his => by
      refine ⟨nofun, Reading.list_ofJson fun c hc => ?_⟩
      have hc' : c ∈ i.children := by rwa [children, Option.mem_def.1 his]
      refine ih c hc' (fun j hj => h j (mem_flatten_of_child hc' hj)) fuel ?_
      -- A child stands in a list that is a member of the item.
      have hlist : c.toJson.height < (Json.list (is.map toJson)).height := height_lt_list (List.mem_map_of_mem hc)
      have hrecord : (Json.list (is.map toJson)).height < i.toJson.height := by
        rw [toJson_eq]
        exact height_lt_record "item" (by simp [Option.mem_def.1 his])
      omega
  have hrequest := Reading.nullable_slot fun r hr => ⟨r.toJson_ne_null, Request.ofNode_toJson (hself.request r hr)⟩
  have hresponses : Reading.slot (.ok []) (Reading.list Reading.json) (Slots.list (fun v => v) i.responses) =
      .ok i.responses := Reading.list_slot fun v hv => Reading.json_ofJson (hself.responses v hv)
  have heta : (⟨i.id, i.name, i.items, i.request, i.responses⟩ : Item) = i := by
    cases i
    rfl
  rw [toJson_eq, ofNodeWithin, Record.ofNode_record ["id", "name", "item", "request", "response"] rfl (by decide)]
  simp [hitems, hrequest, hresponses, heta]

end Item

/-! ## Collections -/

namespace AuthEntry

theorem toJson_eq (a : AuthEntry) : a.toJson = .record
    [("key", some (.str a.key)), ("value", some (.str a.value)), ("type", some (.str a.type))] := rfl

theorem ofNode_toJson (a : AuthEntry) : ofNode (.ofJson a.toJson) = .ok a := by
  rw [toJson_eq, ofNode, Record.ofNode_record ["key", "value", "type"] rfl (by decide)]
  simp

theorem canonical_toJson (a : AuthEntry) : a.toJson.Canonical := by
  rw [toJson_eq]
  exact .record ["key", "value", "type"] rfl (by decide) (by simp [Canonical.str])

end AuthEntry

namespace Auth

theorem toJson_eq (a : Auth) : a.toJson = .record
    [("type", some (.str a.type)), ("apikey", some (.list (a.entries.map AuthEntry.toJson)))] := rfl

theorem ofNode_toJson (a : Auth) : ofNode (.ofJson a.toJson) = .ok a := by
  have hentries := Reading.list_ofJson fun e (_ : e ∈ a.entries) => e.ofNode_toJson
  rw [toJson_eq, ofNode, Record.ofNode_record ["type", "apikey"] rfl (by decide)]
  simp [hentries]

theorem canonical_toJson (a : Auth) : a.toJson.Canonical := by
  have hentries : (Json.list (a.entries.map AuthEntry.toJson)).Canonical := .listOf fun e _ => e.canonical_toJson
  rw [toJson_eq]
  exact .record ["type", "apikey"] rfl (by decide) (by simp [Canonical.str, hentries])

end Auth

namespace Info

theorem toJson_eq (i : Info) : i.toJson = .record
    [("_postman_id", i.id.map .str), ("name", some (.str i.name)), ("description", some (.str i.description)),
     ("schema", some (.str i.schema)), ("version", i.version.map .str)] := by
  simp [toJson, Json.record, Slots.members]

theorem ofNode_toJson (i : Info) : ofNode (.ofJson i.toJson) = .ok i := by
  rw [toJson_eq, ofNode,
    Record.ofNode_record ["_postman_id", "name", "description", "schema", "version"] rfl (by decide)]
  simp

theorem canonical_toJson (i : Info) : i.toJson.Canonical := by
  rw [toJson_eq]
  exact .record ["_postman_id", "name", "description", "schema", "version"] rfl (by decide) (by simp [Canonical.str])

theorem within_toJson (i : Info) : i.toJson.Within 1 := by
  rw [toJson_eq]
  exact .record ["_postman_id", "name", "description", "schema", "version"] rfl (by decide) (by simp)

end Info

/-- Whether all that a collection keeps as it was can be written and read back. -/
def Restorable (c : Collection) : Prop :=
  ∀ i ∈ c.everyItem, i.Restorable

theorem toJson_eq (c : Collection) : c.toJson = .record
    [("info", some c.info.toJson), ("item", some (.list (c.items.map Item.toJson))),
     ("auth", c.auth.map Auth.toJson)] := by
  simp [toJson, Item.listToJson_eq, Json.record, Slots.members]

variable {c : Collection}

theorem Restorable.of_item (h : c.Restorable) {i : Item} (hi : i ∈ c.items) : ∀ j ∈ i.flatten, j.Restorable :=
  fun j hj => h j (Item.mem_flattenAll.2 ⟨i, hi, hj⟩)

theorem canonical_toJson (h : c.Restorable) : c.toJson.Canonical := by
  have hitems : (Json.list (c.items.map Item.toJson)).Canonical :=
    .listOf fun i hi => i.canonical_toJson (h.of_item hi)
  have hauth : ∀ a ∈ c.auth, a.toJson.Canonical := fun a _ => a.canonical_toJson
  rw [toJson_eq]
  exact .record ["info", "item", "auth"] rfl (by decide) (by simpa [hitems, c.info.canonical_toJson] using hauth)

theorem ofNode_toJson (h : c.Restorable) : ofNode (.ofJson c.toJson) = .ok c := by
  have hinfo := c.info.ofNode_toJson
  have hitems : Reading.list (Item.ofNodeWithin (Node.ofJson c.toJson).height)
      (.ofJson (.list (c.items.map Item.toJson))) = .ok c.items := Reading.list_ofJson fun i hi => by
    refine i.ofNodeWithin_toJson (h.of_item hi) _ ?_
    have hlist : i.toJson.height < (Json.list (c.items.map Item.toJson)).height :=
      height_lt_list (List.mem_map_of_mem hi)
    have hrecord : (Json.list (c.items.map Item.toJson)).height < c.toJson.height := by
      rw [toJson_eq]
      exact height_lt_record "item" (by simp)
    have hnode := Node.height_le_ofJson (canonical_toJson h)
    omega
  have hauth : Reading.slot (.ok none) (Reading.nullable Auth.ofNode) (c.auth.map Auth.toJson) = .ok c.auth :=
    Reading.nullable_slot fun a _ => ⟨nofun, a.ofNode_toJson⟩
  rw [ofNode]
  -- The fuel is the height of the whole node, which is not to be rewritten with it.
  generalize (Node.ofJson c.toJson).height = fuel at hitems ⊢
  rw [toJson_eq, Record.ofNode_record ["info", "item", "auth"] rfl (by decide)]
  simp [hinfo, hitems, hauth]

/-- What is said about a collection makes it no deeper. -/
theorem height_toJson_of_info {depth : Nat} (c : Collection) (i : Info) (h : c.toJson.height ≤ depth + 2) :
    { c with info := i }.toJson.height ≤ depth + 2 := by
  rw [toJson_eq] at h ⊢
  refine Nat.succ_le_succ (heightMembers_le_iff.2 fun m hm => ?_)
  have hm := Slots.mem_members.1 hm
  by_cases hinfo : (m.1, some m.2) = ("info", some i.toJson)
  · obtain ⟨-, hv⟩ := Prod.mk.inj hinfo
    rw [Option.some.inj hv]
    exact i.within_toJson.height_le.trans (Nat.le_add_left 1 depth)
  · have hold : (m.1, some m.2) ∈ [("info", some c.info.toJson), ("item", some (.list (c.items.map Item.toJson))),
        ("auth", c.auth.map Auth.toJson)] := List.mem_cons_of_mem _ ((List.mem_cons.1 hm).resolve_left hinfo)
    exact Nat.le_of_lt_succ ((height_lt_record m.1 hold).trans_le h)

/-! ## Environments -/

namespace EnvironmentEntry

theorem toJson_eq (v : EnvironmentEntry) : v.toJson = .record
    [("key", some (.str v.key)), ("value", some (.str v.value)), ("type", some (.str v.type)),
     ("enabled", some (.bool v.enabled))] := rfl

theorem ofNode_toJson (v : EnvironmentEntry) : ofNode (.ofJson v.toJson) = .ok v := by
  rw [toJson_eq, ofNode, Record.ofNode_record ["key", "value", "type", "enabled"] rfl (by decide)]
  simp

theorem within_toJson (v : EnvironmentEntry) : v.toJson.Within 1 := by
  rw [toJson_eq]
  exact .record ["key", "value", "type", "enabled"] rfl (by decide) (by simp)

end EnvironmentEntry

namespace Environment

theorem toJson_eq (e : Environment) : e.toJson = .record
    [("id", e.id.map .str), ("name", some (.str e.name)),
     ("values", some (.list (e.values.map EnvironmentEntry.toJson)))] := by
  simp [toJson, Json.record, Slots.members]

theorem ofNode_toJson (e : Environment) : ofNode (.ofJson e.toJson) = .ok e := by
  have hvalues := Reading.list_ofJson fun v (_ : v ∈ e.values) => v.ofNode_toJson
  rw [toJson_eq, ofNode, Record.ofNode_record ["id", "name", "values"] rfl (by decide)]
  simp [hvalues]

theorem within_toJson (e : Environment) : e.toJson.Within 3 := by
  have hvalues : (Json.list (e.values.map EnvironmentEntry.toJson)).Within 2 := .listOf fun v _ => v.within_toJson
  rw [toJson_eq]
  exact .record ["id", "name", "values"] rfl (by decide) (by simp [hvalues])

end Environment

/-! ## What is read -/

variable {n : Node} {depth : Nat}

theorem Body.restorable_of_read {b : Body} (hs : Spelled depth n) (h : Body.ofNode n = .ok b) : b.Restorable := by
  obtain ⟨r, hr, h⟩ := Reading.bind_eq_ok.1 h
  obtain ⟨mode, -, h⟩ := Reading.bind_eq_ok.1 h
  obtain ⟨raw, -, h⟩ := Reading.bind_eq_ok.1 h
  obtain ⟨options, hoptions, h⟩ := Reading.bind_eq_ok.1 h
  cases h
  intro v hv
  obtain ⟨m, hm, hne, hjson⟩ := (Record.spelled_ofNode hs hr).of_optional hoptions v hv
  have hvalue := Reading.json_eq_ok_iff.1 hjson
  refine ⟨(hm.sound v hvalue).1, ?_⟩
  rintro rfl
  exact hne (Node.json?_eq_null hvalue)

theorem Request.restorable_of_read {r : Request} (hs : Spelled depth n) (h : Request.ofNode n = .ok r) :
    r.Restorable := by
  obtain ⟨rec, hrec, h⟩ := Reading.bind_eq_ok.1 h
  obtain ⟨method, -, h⟩ := Reading.bind_eq_ok.1 h
  obtain ⟨headers, -, h⟩ := Reading.bind_eq_ok.1 h
  obtain ⟨body, hbody, h⟩ := Reading.bind_eq_ok.1 h
  obtain ⟨url, -, h⟩ := Reading.bind_eq_ok.1 h
  obtain ⟨description, -, h⟩ := Reading.bind_eq_ok.1 h
  cases h
  intro b hb
  obtain ⟨m, hm, -, hread⟩ := (Record.spelled_ofNode hs hrec).of_optional hbody b hb
  exact Body.restorable_of_read hm hread

/-- All that is in an item that is read from a text can be written and read back: by induction on the fuel, as
every child is read with less. -/
theorem Item.restorable_of_read {fuel : Nat} : ∀ {depth : Nat} {n : Node} {i : Item}, Spelled depth n →
    ofNodeWithin fuel n = .ok i → ∀ j ∈ i.flatten, j.Restorable := by
  induction fuel with
  | zero =>
    intro depth n i hs h
    cases h
  | succ fuel ih =>
    intro depth n i hs h
    obtain ⟨r, hr, h⟩ := Reading.bind_eq_ok.1 h
    obtain ⟨id, -, h⟩ := Reading.bind_eq_ok.1 h
    obtain ⟨name, -, h⟩ := Reading.bind_eq_ok.1 h
    obtain ⟨items, hitems, h⟩ := Reading.bind_eq_ok.1 h
    obtain ⟨request, hrequest, h⟩ := Reading.bind_eq_ok.1 h
    obtain ⟨responses, hresponses, h⟩ := Reading.bind_eq_ok.1 h
    cases h
    have hmembers := Record.spelled_ofNode hs hr
    intro j hj
    rw [flatten_eq, List.mem_cons, mem_flattenAll] at hj
    -- It is the item itself, or is in one of the items that were read inside it.
    rcases hj with rfl | ⟨c, hc, hj⟩
    · refine ⟨fun r' hr' => ?_, fun v hv => ?_⟩
      · obtain ⟨m, hm, -, hread⟩ := hmembers.of_optional hrequest r' hr'
        exact Request.restorable_of_read hm hread
      · obtain ⟨m, hm, hread⟩ := hmembers.of_listOrEmpty hresponses v hv
        exact (hm.sound v (Reading.json_eq_ok_iff.1 hread)).1
    · cases items with
      | none => cases hc
      | some is =>
        obtain ⟨m, hm, -, hlist⟩ := hmembers.of_optional hitems is rfl
        obtain ⟨m', hm', hread⟩ := Reading.of_list hm hlist c hc
        exact ih hm' hread j hj

theorem restorable_of_read (hs : Spelled depth n) (h : ofNode n = .ok c) : c.Restorable := by
  obtain ⟨r, hr, h⟩ := Reading.bind_eq_ok.1 h
  obtain ⟨info, -, h⟩ := Reading.bind_eq_ok.1 h
  obtain ⟨items, hitems, h⟩ := Reading.bind_eq_ok.1 h
  obtain ⟨auth, -, h⟩ := Reading.bind_eq_ok.1 h
  cases h
  intro j hj
  obtain ⟨i, hi, hj⟩ := Item.mem_flattenAll.1 hj
  obtain ⟨m, hm, hread⟩ := (Record.spelled_ofNode hs hr).of_listOrEmpty hitems i hi
  exact Item.restorable_of_read hm hread j hj

/-! ## What is rendered -/

variable (ctx : Context) (d : Definition)

theorem restorable_ofJsonText (raw : String) : (Body.ofJsonText raw).Restorable := by
  intro v hv
  cases hv
  have hraw : Canonical (.obj [("language", .str "json")]) := .obj (by decide) (by simp [Canonical.str])
  exact ⟨.obj (by decide) (by simp [hraw]), nofun⟩

theorem restorable_requestOf : (requestOf ctx d).Restorable := by
  intro b hb
  obtain ⟨p, -, rfl⟩ := Option.map_eq_some_iff.1 hb
  exact restorable_ofJsonText _

/-- A body that takes fields over keeps its own options. -/
theorem options_mergeBodies (fresh : Body) (old : Option Body) : (mergeBodies fresh old).options = fresh.options := by
  unfold mergeBodies
  split <;> rfl

theorem restorable_mergeRequest {fresh : Request} (h : fresh.Restorable) (old : Request) :
    (mergeRequest fresh old).Restorable := by
  intro b hb
  obtain ⟨b', hb', rfl⟩ := Option.map_eq_some_iff.1 hb
  rw [Body.Restorable, options_mergeBodies]
  exact h b' hb'

theorem codeNumber?_lt {code : String} {n : Nat} (h : codeNumber? code = some n) : n < Nat.pow 2 16 := by
  unfold codeNumber? at h
  simp only [Option.ite_none_left_eq_some, Option.ite_none_right_eq_some, Option.some.injEq] at h
  obtain ⟨-, hlt, rfl⟩ := h
  exact hlt

theorem canonical_successResponse {request : Request} (h : request.Restorable) :
    (successResponse ctx d request).Canonical := by
  have hcode : ∀ code, Canonical (.int ((codeNumber? code).getD 200)) := by
    intro code
    have hlt : (codeNumber? code).getD 200 < Nat.pow 2 16 := by
      cases hn : codeNumber? code with
      | none => decide
      | some n => exact codeNumber?_lt hn
    refine .int ?_
    have hpow : Nat.pow 2 16 = 65536 := rfl
    simp only [Json.Fits]
    omega
  have hheader : Canonical (.list [.obj [("key", .str "Content-Type"), ("value", .str "application/json")]]) := by
    refine .list fun v hv => ?_
    obtain rfl := List.mem_singleton.1 hv
    exact .obj (by decide) (by simp [Canonical.str])
  refine .obj (by simp [Pairs.keys]) ?_
  simp [Canonical.str, hcode, hheader, Request.canonical_toJson h]

theorem restorable_itemOf {old : Option Item} (h : ∀ o ∈ old, ∀ v ∈ o.responses, v.Canonical) :
    (itemOf ctx d old).Restorable := by
  have hfresh := restorable_requestOf ctx d
  cases old with
  | none =>
    refine ⟨fun r hr => ?_, fun v hv => ?_⟩
    · cases hr
      exact hfresh
    · obtain rfl := List.mem_singleton.1 hv
      exact canonical_successResponse ctx d hfresh
  | some o =>
    -- Saved responses stay as they were, and the request keeps its own options.
    refine ⟨fun r hr => ?_, h o rfl⟩
    cases hr
    cases hold : o.request with
    | none => simpa [hold] using hfresh
    | some r => simpa [hold] using restorable_mergeRequest hfresh r

variable {ctx} {ds : List Definition} {previous : Option Collection}

/-- A collection that is rendered over one that can be read back can itself be read back. -/
theorem restorable_render (h : ∀ p ∈ previous, p.Restorable) : (render ctx ds previous).Restorable := by
  intro i hi
  rcases (mem_everyItem_render ctx).1 hi with hfolder | ⟨d, -, rfl⟩
  · -- A folder has neither a request nor responses.
    rw [items_render] at hfolder
    obtain ⟨group, -, rfl⟩ := List.mem_map.1 hfolder
    exact ⟨nofun, by simp [Item.folder]⟩
  · refine restorable_itemOf ctx d fun o ho => ?_
    obtain ⟨p, hp, -⟩ := Option.bind_eq_some_iff.1 ho
    subst hp
    obtain ⟨before, after, he, -⟩ := saved?_eq_some_iff.1 ho
    exact (h p rfl o (he ▸ by simp)).responses

/-! ## From text to text -/

/-- The text of a collection. -/
def text (c : Collection) : String :=
  c.toJson.pretty

/-- The text of the collection that a text is read as. -/
def rewrite? (source : String) : Option String :=
  (parse? ofNode source).map text

theorem restorable_of_parse? {source : String} (h : parse? ofNode source = some c) : c.Restorable := by
  obtain ⟨n, hn, hc⟩ := parse?_eq_some_iff.1 h
  exact restorable_of_read (spelled_of_read hn) hc

theorem parse?_text (h : c.Restorable) (hheight : c.toJson.height ≤ maxDepth) : parse? ofNode c.text = some c :=
  parse?_pretty ⟨canonical_toJson h, hheight⟩ (ofNode_toJson h)

/-- A rendered collection is read back from its text as it was, also if it keeps what an earlier text had, and a
collection that was read from any text is written the second time as it was the first. -/
theorem text_settled :
    (∀ (ctx : Context) (ds : List Definition) (previous : Option Collection),
      (∀ p ∈ previous, ∃ source, parse? ofNode source = some p) →
      (render ctx ds previous).toJson.height ≤ maxDepth →
      parse? ofNode (render ctx ds previous).text = some (render ctx ds previous)) ∧
    ∀ (source : String) (c : Collection), parse? ofNode source = some c → c.toJson.height ≤ maxDepth →
      rewrite? source = some c.text ∧ rewrite? c.text = some c.text := by
  refine ⟨fun ctx ds previous hprevious hheight => ?_, fun source c hc hheight => ⟨?_, ?_⟩⟩
  · refine parse?_text (restorable_render fun p hp => ?_) hheight
    obtain ⟨source, hsource⟩ := hprevious p hp
    exact restorable_of_parse? hsource
  · rw [rewrite?, hc, Option.map_some]
  · rw [rewrite?, parse?_text (restorable_of_parse? hc) hheight, Option.map_some]

/-- A definition without parameters, for which a user has set a header and saved an answer. -/
def pinging : Definition :=
  { changing with parameters := [], returnClass := none }

theorem edited_settled :
    parse? ofNode edited.text = some edited ∧
      parse? ofNode (render ordering [pinging] (some edited)).text = some (render ordering [pinging] (some edited)) ∧
      rewrite? edited.text = some edited.text := by
  have hedited : edited.Restorable := by
    intro i hi
    obtain rfl := List.mem_singleton.1 hi
    refine ⟨fun r hr => ?_, fun v hv => ?_⟩
    · cases hr
      intro b hb
      cases hb
      exact restorable_ofJsonText _
    · obtain rfl := List.mem_singleton.1 hv
      exact .str _
  have hread : parse? ofNode edited.text = some edited := parse?_text hedited (by decide +kernel)
  refine ⟨hread, ?_, ?_⟩
  · refine text_settled.1 ordering [pinging] (some edited) (fun p hp => ?_) (by decide +kernel)
    cases hp
    exact ⟨edited.text, hread⟩
  · exact (text_settled.2 edited.text edited hread (by decide +kernel)).2

end ApiDocs.Collection
