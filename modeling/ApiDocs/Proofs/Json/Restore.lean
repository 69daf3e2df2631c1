import ApiDocs.Proofs.Json.RoundTrip
/-!
# Reading records back

A document type is written as a value and read from a node. Between the two stands the text, and the text
of a value that is canonical and not too deep is read as the node of that value (`read_pretty`). What is
left to show of a type is that its reader takes back what its writer puts into the members; for that, a
record is seen as a list of slots, one for each member that it may have.
-/
namespace ApiDocs

/-! ## Nodes of values -/

namespace Node

@[simp] theorem ofItems_eq (vs : List Json) : ofItems vs = vs.map ofJson := by
  induction vs with
  | nil => rfl
  | cons v rest ih => simp [ofItems, ih]

@[simp] theorem ofMembers_eq (ms : List (String × Json)) : ofMembers ms = ms.map fun m => (m.1, ofJson m.2) := by
  induction ms with
  | nil => rfl
  | cons m rest ih => simp [ofMembers, ih]

/-- No value is read as the node of null but null. -/
@[simp] theorem ofJson_eq_null {v : Json} : ofJson v = .null ↔ v = .null := by
  cases v <;> simp [ofJson]

theorem jsonItems?_map {vs : List Json} (h : ∀ v ∈ vs, (ofJson v).json? = some v) :
    jsonItems? (vs.map ofJson) = some vs := by
  induction vs with
  | nil => rfl
  | cons v rest ih =>
    have hv := h v List.mem_cons_self
    have hrest := ih fun w hw => h w (List.mem_cons_of_mem _ hw)
    simp only [List.map_cons, jsonItems?, hv, hrest]

theorem jsonMembers?_map {ms : List (String × Json)} (h : ∀ m ∈ ms, (ofJson m.2).json? = some m.2) :
    ∀ taken : List (String × Json), (Pairs.keys (taken ++ ms)).Nodup →
      jsonMembers? taken (ms.map fun m => (m.1, ofJson m.2)) = some (taken ++ ms) := by
  induction ms with
  | nil => intro taken _; simp [jsonMembers?]
  | cons m rest ih =>
    obtain ⟨k, v⟩ := m
    intro taken hn
    have hput : Pairs.put k v taken ++ rest = taken ++ (k, v) :: rest := Pairs.put_append_of_nodup hn
    have hv : (ofJson v).json? = some v := h (k, v) List.mem_cons_self
    have hrest := ih (fun w hw => h w (List.mem_cons_of_mem _ hw)) (Pairs.put k v taken) (hput ▸ hn)
    simp only [List.map_cons, jsonMembers?, hv, hrest, hput]

/-- A canonical value is the value of its node. -/
theorem json?_ofJson {v : Json} (h : v.Canonical) : (ofJson v).json? = some v := by
  induction h with
  | null | bool | int | float | str => rfl
  | list h ih => simp [ofJson, json?, jsonItems?_map ih]
  | obj hn h ih => simp [ofJson, json?, jsonMembers?_map ih [] hn]

/-- No node has the value null but null. -/
theorem json?_eq_null {n : Node} (h : n.json? = some .null) : n = .null := by
  cases n with
  | null => rfl
  | list | sequence | obj =>
    rw [json?, Option.map_eq_some_iff] at h
    obtain ⟨_, _, h⟩ := h
    cases h
  | bool | int | float | str | bare | unreadable => cases h

theorem height_le_heightItems {items : List Node} {n : Node} (h : n ∈ items) : n.height ≤ heightItems items := by
  induction items with
  | nil => cases h
  | cons m rest ih =>
    rw [heightItems]
    rcases List.mem_cons.1 h with rfl | h
    · exact Nat.le_max_left ..
    · exact (ih h).trans (Nat.le_max_right ..)

theorem height_le_heightMembers {members : List (String × Node)} {m : String × Node} (h : m ∈ members) :
    m.2.height ≤ heightMembers members := by
  induction members with
  | nil => cases h
  | cons m' rest ih =>
    obtain ⟨k, n⟩ := m'
    rw [heightMembers]
    rcases List.mem_cons.1 h with rfl | h
    · exact Nat.le_max_left ..
    · exact (ih h).trans (Nat.le_max_right ..)

/-- The node of a value has all the levels that the value has. -/
theorem height_le_ofJson {v : Json} (h : v.Canonical) : v.height ≤ (ofJson v).height := by
  induction h with
  | null | bool | int | float | str => exact Nat.zero_le _
  | list h ih =>
    refine Nat.succ_le_succ (Json.heightItems_le_iff.2 fun v hv => (ih v hv).trans (height_le_heightItems ?_))
    rw [ofItems_eq]
    exact List.mem_map_of_mem hv
  | @obj members hn h ih =>
    refine Nat.succ_le_succ (Json.heightMembers_le_iff.2 fun m hm => (ih m hm).trans ?_)
    have hm' : (m.1, ofJson m.2) ∈ ofMembers members := by
      rw [ofMembers_eq]
      exact List.mem_map_of_mem hm
    exact height_le_heightMembers hm'

end Node

namespace Json

/-! ## Values that a text can spell -/

namespace Canonical

theorem listOf {α : Type} {toJson : α → Json} {as : List α} (h : ∀ a ∈ as, (toJson a).Canonical) :
    Canonical (.list (as.map toJson)) := by
  refine list fun v hv => ?_
  obtain ⟨a, ha, rfl⟩ := List.mem_map.1 hv
  exact h a ha

@[simp] theorem texts (ss : List String) : Canonical (.texts ss) :=
  listOf fun s _ => str s

@[simp] theorem text? (s : Option String) : Canonical (.text? s) := by
  cases s with
  | none => exact null
  | some s => exact str s

end Canonical

/-- Whether a value can be spelled with at most `depth` containers inside each other. -/
structure Within (depth : Nat) (v : Json) : Prop where
  canonical : v.Canonical
  height_le : v.height ≤ depth

namespace Within

variable {depth : Nat}

theorem mono {depth' : Nat} {v : Json} (h : v.Within depth) (hle : depth ≤ depth') : v.Within depth' :=
  ⟨h.canonical, h.height_le.trans hle⟩

@[simp] theorem null : Within depth .null := ⟨.null, Nat.zero_le _⟩

@[simp] theorem bool (b : Bool) : Within depth (.bool b) := ⟨.bool b, Nat.zero_le _⟩

@[simp] theorem str (s : String) : Within depth (.str s) := ⟨.str s, Nat.zero_le _⟩

theorem int {i : Int} (h : Fits i) : Within depth (.int i) := ⟨.int h, Nat.zero_le _⟩

theorem float {x : Decimal} (h : x.IsKept) : Within depth (.float x) := ⟨.float h, Nat.zero_le _⟩

theorem list {vs : List Json} (h : ∀ v ∈ vs, v.Within depth) : Within (depth + 1) (.list vs) where
  canonical := .list fun v hv => (h v hv).canonical
  height_le := Nat.succ_le_succ (heightItems_le_iff.2 fun v hv => (h v hv).height_le)

theorem listOf {α : Type} {toJson : α → Json} {as : List α} (h : ∀ a ∈ as, (toJson a).Within depth) :
    Within (depth + 1) (.list (as.map toJson)) := by
  refine list fun v hv => ?_
  obtain ⟨a, ha, rfl⟩ := List.mem_map.1 hv
  exact h a ha

@[simp] theorem texts (ss : List String) : Within (depth + 1) (.texts ss) :=
  listOf fun s _ => str s

theorem obj {ms : List (String × Json)} (hn : (Pairs.keys ms).Nodup) (h : ∀ m ∈ ms, m.2.Within depth) :
    Within (depth + 1) (.obj ms) where
  canonical := .obj hn fun m hm => (h m hm).canonical
  height_le := Nat.succ_le_succ (heightMembers_le_iff.2 fun m hm => (h m hm).height_le)

theorem objOf {α : Type} {toJson : α → Json} {entries : List (String × α)} (hn : (Pairs.keys entries).Nodup)
    (h : ∀ e ∈ entries, (toJson e.2).Within depth) : Within (depth + 1) (.obj (entries.map fun e => (e.1, toJson e.2))) := by
  refine obj ?_ fun m hm => ?_
  · rwa [Pairs.keys_map fun _ => toJson]
  · obtain ⟨e, he, rfl⟩ := List.mem_map.1 hm
    exact h e he

theorem ofKeyed {α : Type} {toJson : α → Json} {m : Keyed α} (h : ∀ e ∈ m.entries, (toJson e.2).Within depth) :
    Within (depth + 1) (.ofKeyed toJson m) :=
  objOf m.distinct h

theorem ofSorted {α : Type} {toJson : α → Json} {m : Sorted α} (h : ∀ e ∈ m.entries, (toJson e.2).Within depth) :
    Within (depth + 1) (.ofSorted toJson m) :=
  objOf m.nodup_keys h

end Within

/-! ## From a value to its text and back -/

theorem nodesAt_eq_map {depth : Nat} {vs : List Json} (h : ∀ v ∈ vs, nodeAt depth v = .ofJson v) :
    nodesAt depth vs = vs.map .ofJson := by
  induction vs with
  | nil => rfl
  | cons v rest ih =>
    have hv := h v List.mem_cons_self
    have hrest := ih fun w hw => h w (List.mem_cons_of_mem _ hw)
    simp only [nodesAt, hv, hrest, List.map_cons]

theorem membersAt_eq_map {depth : Nat} {ms : List (String × Json)} (h : ∀ m ∈ ms, nodeAt depth m.2 = .ofJson m.2) :
    membersAt depth ms = ms.map fun m => (m.1, .ofJson m.2) := by
  induction ms with
  | nil => rfl
  | cons m rest ih =>
    have hm := h m List.mem_cons_self
    have hrest := ih fun w hw => h w (List.mem_cons_of_mem _ hw)
    simp only [membersAt, hm, hrest, List.map_cons]

/-- Where all containers fit, the text of a value is read as the node of the value. -/
theorem nodeAt_eq_ofJson {v : Json} (h : v.Canonical) :
    ∀ {depth : Nat}, v.height + depth ≤ maxDepth → nodeAt depth v = .ofJson v := by
  induction h with
  | null | bool | int | float | str => intros; rfl
  | @list vs h ih =>
    intro depth hd
    simp only [height] at hd
    have hle := heightItems_le_iff.1 (Nat.le_refl (heightItems vs))
    have hitems : nodesAt (depth + 1) vs = vs.map .ofJson := nodesAt_eq_map fun v hv =>
      ih v hv (by have := hle v hv; omega)
    rw [nodeAt, hitems, container, if_pos (by omega), Node.ofJson, Node.ofItems_eq]
  | @obj ms hn h ih =>
    intro depth hd
    simp only [height] at hd
    have hle := heightMembers_le_iff.1 (Nat.le_refl (heightMembers ms))
    have hmembers : membersAt (depth + 1) ms = ms.map fun m => (m.1, .ofJson m.2) := membersAt_eq_map fun m hm =>
      ih m hm (by have := hle m hm; omega)
    rw [nodeAt, hmembers, container, if_pos (by omega), Node.ofJson, Node.ofMembers_eq]

/-- The text of a value that is canonical and not too deep is read as the node of the value, also with blanks
behind it. -/
theorem read_pretty_append {v : Json} (h : v.Within maxDepth) (blanks : String) (hs : Stops blanks.toList)
    (hb : dropSpace blanks.toList = []) : read (v.pretty ++ blanks) = some (.ofJson v) := by
  have hread := h.canonical.readsBack 0 0 ((v.pretty ++ blanks).toList.length + 1) hs (by
    rw [String.toList_append, List.length_append, pretty, String.toList_ofList]
    omega)
  rw [nodeAt_eq_ofJson h.canonical h.height_le] at hread
  have htext : (v.pretty ++ blanks).toList = prettyChars 0 v ++ blanks.toList := by
    rw [String.toList_append, pretty, String.toList_ofList]
  rw [← htext] at hread
  simp only [read, readChars, hread, hb]
  rfl

theorem read_pretty {v : Json} (h : v.Within maxDepth) : read v.pretty = some (.ofJson v) := by
  have hread := read_pretty_append h "" stops_nil rfl
  rwa [String.append_empty] at hread

/-- A document ends with a line feed. -/
theorem read_document {v : Json} (h : v.Within maxDepth) : read (v.pretty ++ "\n") = some (.ofJson v) :=
  read_pretty_append h "\n" (by simp [Stops]) rfl

/-- What a text is read as. -/
def parse? {α : Type} (read : Node → Reading α) (text : String) : Option α :=
  match (Json.read text).map read with
  | some (.ok a) => some a
  | _ => none

theorem parse?_eq_some_iff {α : Type} {read : Node → Reading α} {text : String} {a : α} :
    parse? read text = some a ↔ ∃ n, Json.read text = some n ∧ read n = .ok a := by
  unfold parse?
  cases Json.read text with
  | none => simp
  | some n => cases hn : read n <;> simp [hn]

theorem parse?_pretty {α : Type} {read : Node → Reading α} {v : Json} (h : v.Within maxDepth) {a : α}
    (ha : read (.ofJson v) = .ok a) : parse? read v.pretty = some a :=
  parse?_eq_some_iff.2 ⟨_, read_pretty h, ha⟩

/-! ## Slots -/

/-- The members that a record may have, each with its value if it is there. -/
abbrev Slots := List (String × Option Json)

namespace Slots

/-- The members that are there. -/
def members (slots : Slots) : List (String × Json) :=
  slots.flatMap fun s => present s.1 s.2

/-- The value of a member, if it is there. -/
@[simp] def find (name : String) : Slots → Option Json
  | [] => none
  | (k, v) :: rest => if k = name then v.or (find name rest) else find name rest

/-- The slot of a list that is left out when it is empty. -/
def list {α : Type} (toJson : α → Json) (as : List α) : Option Json :=
  if as.isEmpty then none else some (.list (as.map toJson))

/-- The slot of a flag that is left out when it is off. -/
def flag (b : Bool) : Option Json :=
  if b then some (.bool true) else none

/-- The slot of a text that is left out when it is empty. -/
def text (s : String) : Option Json :=
  if s.isEmpty then none else some (.str s)

/-- The slot of a keyed list that is left out when it is empty. -/
def keyed {α : Type} (toJson : α → Json) (m : Keyed α) : Option Json :=
  if m.isEmpty then none else some (.ofKeyed toJson m)

/-- A slot that may be left out holds nothing else than its value. -/
theorem forall_mem_unless {c : Prop} [Decidable c] {v : Json} {P : Json → Prop} (h : P v) :
    ∀ w ∈ (if c then none else some v), P w := by
  intro w hw
  split at hw
  · cases hw
  · cases hw
    exact h

theorem keys_members_sublist (slots : Slots) : (Pairs.keys slots.members).Sublist (Pairs.keys slots) := by
  induction slots with
  | nil => exact .slnil
  | cons s rest ih =>
    obtain ⟨k, v⟩ := s
    cases v with
    | none => exact ih.cons k
    | some v => exact ih.cons_cons k

theorem mem_members {slots : Slots} {m : String × Json} : m ∈ slots.members ↔ (m.1, some m.2) ∈ slots := by
  obtain ⟨k, v⟩ := m
  simp only [members, present, List.mem_flatMap, List.mem_map, Option.mem_toList, Prod.mk.injEq]
  constructor
  · rintro ⟨s, hs, v', hv', rfl, rfl⟩
    rwa [← hv']
  · intro h
    exact ⟨_, h, v, rfl, rfl, rfl⟩

theorem get?_members (name : String) (slots : Slots) : Pairs.get? name slots.members = slots.find name := by
  induction slots with
  | nil => rfl
  | cons s rest ih =>
    obtain ⟨k, v⟩ := s
    have hcons : members ((k, v) :: rest) = present k v ++ members rest := rfl
    rw [hcons, find, ← ih]
    cases v with
    | none => simp [present]
    | some v => simp [present, Pairs.get?]

end Slots

/-- The object with the members that are there. -/
def record (slots : Slots) : Json := .obj slots.members

@[simp] theorem present_some (name : String) (v : Json) : present name (some v) = [(name, v)] := rfl

theorem nonempty_eq_present {α : Type} (name : String) (toJson : α → Json) (as : List α) :
    nonempty name toJson as = present name (Slots.list toJson as) := by
  cases as <;> rfl

theorem whenTrue_eq_present (name : String) (b : Bool) : whenTrue name b = present name (Slots.flag b) := by
  cases b <;> rfl

theorem Canonical.record (names : List String) {slots : Slots} (hk : Pairs.keys slots = names) (hn : names.Nodup)
    (h : ∀ s ∈ slots, ∀ v ∈ s.2, v.Canonical) : (record slots).Canonical :=
  .obj (slots.keys_members_sublist.nodup (hk ▸ hn)) fun m hm => h _ (Slots.mem_members.1 hm) m.2 rfl

theorem Canonical.slotList {α : Type} {toJson : α → Json} {as : List α} (h : ∀ a ∈ as, (toJson a).Canonical) :
    ∀ v ∈ Slots.list toJson as, v.Canonical :=
  Slots.forall_mem_unless (listOf h)

/-- The value in a slot is less high than the record. -/
theorem height_lt_record (name : String) {slots : Slots} {v : Json} (h : (name, some v) ∈ slots) :
    v.height < (record slots).height := by
  have hle := heightMembers_le_iff.1 (Nat.le_refl (heightMembers slots.members))
  exact Nat.lt_succ_of_le (hle (name, v) (Slots.mem_members.2 h))

/-- An item is less high than the list. -/
theorem height_lt_list {vs : List Json} {v : Json} (h : v ∈ vs) : v.height < (list vs).height :=
  Nat.lt_succ_of_le (heightItems_le_iff.1 (Nat.le_refl (heightItems vs)) v h)

theorem unlessEmpty_eq_present (name s : String) :
    (if s.isEmpty then [] else [(name, Json.str s)]) = present name (Slots.text s) := by
  unfold Slots.text
  split <;> rfl

theorem unlessNone_eq_present {α : Type} (name : String) (toJson : α → Json) (m : Keyed α) :
    (if m.isEmpty then [] else [(name, ofKeyed toJson m)]) = present name (Slots.keyed toJson m) := by
  unfold Slots.keyed
  split <;> rfl

namespace Within

variable {depth : Nat}

theorem record (names : List String) {slots : Slots} (hk : Pairs.keys slots = names) (hn : names.Nodup)
    (h : ∀ s ∈ slots, ∀ v ∈ s.2, v.Within depth) : (record slots).Within (depth + 1) :=
  obj (slots.keys_members_sublist.nodup (hk ▸ hn)) fun m hm => h _ (Slots.mem_members.1 hm) m.2 rfl

theorem slotList {α : Type} {toJson : α → Json} {as : List α} (h : ∀ a ∈ as, (toJson a).Within depth) :
    ∀ v ∈ Slots.list toJson as, v.Within (depth + 1) :=
  Slots.forall_mem_unless (listOf h)

@[simp] theorem slotText (s : String) : ∀ v ∈ Slots.text s, v.Within depth :=
  Slots.forall_mem_unless (str s)

theorem slotKeyed {α : Type} {toJson : α → Json} {m : Keyed α} (h : ∀ e ∈ m.entries, (toJson e.2).Within depth) :
    ∀ v ∈ Slots.keyed toJson m, v.Within (depth + 1) :=
  Slots.forall_mem_unless (ofKeyed h)

end Within

end Json

/-! ## Readers -/

namespace Reading

-- These steps are not marked as definitional, so that no reader is unfolded where one of them is checked.
@[simp] theorem ok_bind {α β : Type} (a : α) (f : α → Reading β) : (Except.ok a >>= f : Reading β) = f a := (rfl)

@[simp] theorem pure_eq_ok {α : Type} (a : α) : (pure a : Reading α) = .ok a := (rfl)

variable {α : Type} {read : Node → Reading α}

/-- What a reader makes of the value in a slot; `absent` if there is none. -/
def slot (absent : Reading α) (read : Node → Reading α) : Option Json → Reading α
  | none => absent
  | some v => read (.ofJson v)

@[simp] theorem slot_some (absent : Reading α) (v : Json) : slot absent read (some v) = read (.ofJson v) := (rfl)

/-! ### Scalars -/

@[simp] theorem text_ofJson (s : String) : text (.ofJson (.str s)) = .ok s := rfl

@[simp] theorem boolean_ofJson (b : Bool) : boolean (.ofJson (.bool b)) = .ok b := rfl

@[simp] theorem boolean_slot (b : Bool) : slot (.ok false) boolean (Json.Slots.flag b) = .ok b := by
  cases b <;> rfl

theorem json_ofJson {v : Json} (h : v.Canonical) : json (.ofJson v) = .ok v := by
  rw [json, Node.json?_ofJson h]
  rfl

theorem natBelow_ofJson {bound n : Nat} (h : n < bound) : natBelow bound (.ofJson (.int n)) = .ok n := by
  have hn : (0 : Int) ≤ n ∧ (n : Int) < bound := by omega
  simp [natBelow, Node.ofJson, hn]

theorem nullable_ofJson {v : Json} (h : v ≠ .null) : nullable read (.ofJson v) = (read (.ofJson v)).map some := by
  cases v <;> first | rfl | exact absurd rfl h

theorem nullable_slot_map {β : Type} {toJson : β → Json} {back : β → α} {b? : Option β}
    (h : ∀ b ∈ b?, toJson b ≠ .null ∧ read (.ofJson (toJson b)) = .ok (back b)) :
    slot (.ok none) (nullable read) (b?.map toJson) = .ok (b?.map back) := by
  cases b? with
  | none => rfl
  | some b =>
    obtain ⟨hne, hread⟩ := h b rfl
    rw [Option.map_some, slot_some, nullable_ofJson hne, hread]
    rfl

theorem nullable_slot {toJson : α → Json} {a? : Option α}
    (h : ∀ a ∈ a?, toJson a ≠ .null ∧ read (.ofJson (toJson a)) = .ok a) :
    slot (.ok none) (nullable read) (a?.map toJson) = .ok a? := by
  have hmap : slot (.ok none) (nullable read) (a?.map toJson) = .ok (a?.map id) := nullable_slot_map h
  rw [hmap, Option.map_id, id]

@[simp] theorem nullable_text_slot (s : Option String) :
    slot (.ok none) (nullable text) (s.map .str) = .ok s :=
  nullable_slot fun s _ => ⟨nofun, text_ofJson s⟩

@[simp] theorem text_slot (s : String) : slot (.ok "") text (Json.Slots.text s) = .ok s := by
  unfold Json.Slots.text
  split
  case isTrue hnil => rw [String.isEmpty_iff.1 hnil]; rfl
  case isFalse => rfl

@[simp] theorem nullable_text? (s : Option String) : nullable text (.ofJson (.text? s)) = .ok s := by
  cases s <;> rfl

/-! ### Lists and objects -/

/-- A list is read item by item. -/
theorem mapM_map {β γ : Type} {f : α → β} {read : β → Reading γ} {back : α → γ} {as : List α}
    (h : ∀ a ∈ as, read (f a) = .ok (back a)) : (as.map f).mapM read = .ok (as.map back) := by
  induction as with
  | nil => rfl
  | cons a rest ih =>
    have ha := h a List.mem_cons_self
    have hrest := ih fun b hb => h b (List.mem_cons_of_mem _ hb)
    simp [ha, hrest]

theorem list_map_ofJson {β : Type} {toJson : β → Json} {back : β → α} {bs : List β}
    (h : ∀ b ∈ bs, read (.ofJson (toJson b)) = .ok (back b)) :
    list read (.ofJson (.list (bs.map toJson))) = .ok (bs.map back) := by
  rw [Node.ofJson, Node.ofItems_eq, List.map_map, list]
  exact mapM_map h

theorem list_ofJson {toJson : α → Json} {as : List α} (h : ∀ a ∈ as, read (.ofJson (toJson a)) = .ok a) :
    list read (.ofJson (.list (as.map toJson))) = .ok as := by
  rw [list_map_ofJson h, List.map_id']

theorem list_slot_map {β : Type} {toJson : β → Json} {back : β → α} {bs : List β}
    (h : ∀ b ∈ bs, read (.ofJson (toJson b)) = .ok (back b)) :
    slot (.ok []) (list read) (Json.Slots.list toJson bs) = .ok (bs.map back) := by
  unfold Json.Slots.list
  split
  case isTrue hnil => rw [List.isEmpty_iff.1 hnil]; rfl
  case isFalse => exact list_map_ofJson h

theorem list_slot {toJson : α → Json} {as : List α} (h : ∀ a ∈ as, read (.ofJson (toJson a)) = .ok a) :
    slot (.ok []) (list read) (Json.Slots.list toJson as) = .ok as := by
  rw [list_slot_map h, List.map_id']

@[simp] theorem list_texts (ss : List String) : list text (.ofJson (.texts ss)) = .ok ss :=
  list_ofJson fun s _ => text_ofJson s

theorem members_map_ofJson {β : Type} {toJson : β → Json} {back : β → α} {ms : List (String × β)}
    (h : ∀ m ∈ ms, read (.ofJson (toJson m.2)) = .ok (back m.2)) :
    members read (.ofJson (.obj (ms.map fun m => (m.1, toJson m.2)))) = .ok (ms.map fun m => (m.1, back m.2)) := by
  rw [Node.ofJson, Node.ofMembers_eq, List.map_map, members]
  refine mapM_map fun m hm => ?_
  simp [h m hm, Except.map]

theorem keyed_map_ofJson {β : Type} {toJson : β → Json} {back : β → α} {m : Keyed β}
    (h : ∀ e ∈ m.entries, read (.ofJson (toJson e.2)) = .ok (back e.2)) :
    keyed read (.ofJson (.ofKeyed toJson m)) = .ok (m.map back) := by
  have hms : members read (.ofJson (.ofKeyed toJson m)) = .ok (m.map back).entries := members_map_ofJson h
  rw [keyed, hms]
  exact congrArg Except.ok (Keyed.ofList_entries (m.map back))

theorem keyed_ofJson {toJson : α → Json} {m : Keyed α} (h : ∀ e ∈ m.entries, read (.ofJson (toJson e.2)) = .ok e.2) :
    keyed read (.ofJson (.ofKeyed toJson m)) = .ok m := by
  have hmap : keyed read (.ofJson (.ofKeyed toJson m)) = .ok (m.map id) := keyed_map_ofJson h
  rw [hmap, Keyed.map_id]

theorem keyed_slot {toJson : α → Json} {m : Keyed α} (h : ∀ e ∈ m.entries, read (.ofJson (toJson e.2)) = .ok e.2) :
    slot (.ok Keyed.empty) (keyed read) (Json.Slots.keyed toJson m) = .ok m := by
  unfold Json.Slots.keyed
  split
  case isTrue hnil => exact congrArg Except.ok (Keyed.ext_entries (List.isEmpty_iff.1 hnil).symm)
  case isFalse => exact keyed_ofJson h

theorem sorted_ofJson {toJson : α → Json} {m : Sorted α} (h : ∀ e ∈ m.entries, read (.ofJson (toJson e.2)) = .ok e.2) :
    sorted read (.ofJson (.ofSorted toJson m)) = .ok m := by
  have hms : members read (.ofJson (.ofSorted toJson m)) = .ok (m.entries.map fun e => (e.1, id e.2)) :=
    members_map_ofJson h
  rw [sorted, hms]
  simp only [id, Prod.mk.eta, List.map_id']
  exact congrArg Except.ok (Sorted.ofList_entries m)

end Reading

/-! ## Records -/

namespace Record

/-- What a record is read as. -/
def ofSlots (slots : Json.Slots) : Record :=
  ⟨true, slots.members.map fun m => (m.1, .ofJson m.2)⟩

theorem byName_record (names : List String) {slots : Json.Slots} (hk : Pairs.keys slots = names) (hn : names.Nodup) :
    byName names (.ofJson (.record slots)) = .ok (ofSlots slots) := by
  subst hk
  have hsub := slots.keys_members_sublist
  have hkeys : Pairs.keys (slots.members.map fun m => (m.1, Node.ofJson m.2)) = Pairs.keys slots.members :=
    Pairs.keys_map (fun _ => Node.ofJson) slots.members
  have hknown : ∀ m ∈ slots.members.map fun m => (m.1, Node.ofJson m.2), (Pairs.keys slots).contains m.1 := by
    intro m hm
    have hm' := List.mem_map_of_mem hm (f := Prod.fst)
    rw [← Pairs.keys, hkeys] at hm'
    simpa using hsub.subset hm'
  rw [Json.record, Node.ofJson, Node.ofMembers_eq, byName, List.filter_eq_self.2 hknown, hkeys,
    if_pos (hsub.nodup hn)]
  rfl

theorem ofNode_record (names : List String) {slots : Json.Slots} (hk : Pairs.keys slots = names) (hn : names.Nodup) :
    Record.ofNode names (.ofJson (.record slots)) = .ok (ofSlots slots) :=
  byName_record names hk hn

theorem byNameAmong_record (names : List String) {slots : Json.Slots} (hk : Pairs.keys slots = names)
    (hn : names.Nodup) : byNameAmong names (.ofJson (.record slots)) = .ok (ofSlots slots) := by
  rw [← byName_record names hk hn, Json.record, Node.ofJson, byNameAmong, if_pos]
  subst hk
  simp only [Node.ofMembers_eq, List.all_map, List.all_eq_true, Function.comp_apply, Bool.or_eq_true]
  intro m hm
  have hm' := slots.keys_members_sublist.subset (List.mem_map_of_mem hm)
  exact .inl (by simpa using hm')

/-- A record has no member of another name. -/
theorem byName_record_of_not_mem (names : List String) {slots : Json.Slots} (h : ∀ k ∈ Pairs.keys slots, k ∉ names) :
    byName names (.ofJson (.record slots)) = .ok ⟨true, []⟩ := by
  have hnone : (slots.members.map fun m => (m.1, Node.ofJson m.2)).filter (fun m => names.contains m.1) = [] := by
    rw [List.filter_eq_nil_iff]
    intro m hm
    obtain ⟨m', hm', rfl⟩ := List.mem_map.1 hm
    have hk := slots.keys_members_sublist.subset (List.mem_map_of_mem hm')
    simpa using h m'.1 hk
  rw [Json.record, Node.ofJson, Node.ofMembers_eq, byName, hnone]
  rfl

theorem get?_ofSlots (name : String) (slots : Json.Slots) :
    Pairs.get? name (ofSlots slots).members = (slots.find name).map .ofJson := by
  rw [← Json.Slots.get?_members]
  exact Pairs.get?_map Node.ofJson name slots.members

variable {α : Type} (slots : Json.Slots) (name : String) (read : Node → Reading α)

@[simp] theorem required_ofSlots :
    (ofSlots slots).required name read = Reading.slot (.error .form) read (slots.find name) := by
  rw [required, get?_ofSlots]
  cases slots.find name <;> rfl

@[simp] theorem withDefault_ofSlots (a : α) :
    (ofSlots slots).withDefault name a read = Reading.slot (.ok a) read (slots.find name) := by
  rw [withDefault, get?_ofSlots]
  cases slots.find name <;> rfl

@[simp] theorem optional_ofSlots :
    (ofSlots slots).optional name read = Reading.slot (.ok none) (Reading.nullable read) (slots.find name) :=
  withDefault_ofSlots slots name _ none

@[simp] theorem textOrEmpty_ofSlots :
    (ofSlots slots).textOrEmpty name = Reading.slot (.ok "") Reading.text (slots.find name) :=
  withDefault_ofSlots slots name _ ""

@[simp] theorem flag_ofSlots :
    (ofSlots slots).flag name = Reading.slot (.ok false) Reading.boolean (slots.find name) :=
  withDefault_ofSlots slots name _ false

@[simp] theorem listOrEmpty_ofSlots :
    (ofSlots slots).listOrEmpty name read = Reading.slot (.ok []) (Reading.list read) (slots.find name) :=
  withDefault_ofSlots slots name _ []

end Record

/-! ## What was read -/

namespace Reading

variable {α β : Type} {read : Node → Reading α} {n : Node} {depth : Nat}

theorem bind_eq_ok {x : Reading α} {f : α → Reading β} {b : β} : x >>= f = .ok b ↔ ∃ a, x = .ok a ∧ f a = .ok b := by
  cases x with
  | error e => simp [bind, Except.bind]
  | ok a => simp

theorem json_eq_ok_iff {v : Json} : json n = .ok v ↔ n.json? = some v := by
  unfold json
  cases n.json? <;> simp [ofOption]

theorem of_nullable {a : α} (h : nullable read n = .ok (some a)) : n ≠ .null ∧ read n = .ok a := by
  have hread : ∀ {m : Node}, (read m).map some = .ok (some a) → read m = .ok a := by
    intro m hm
    cases hr : read m with
    | error e => simp [hr, Except.map] at hm
    | ok b => simpa [hr, Except.map] using hm
  unfold nullable at h
  split at h
  case h_1 => cases h
  case h_2 =>
    split at h
    · cases h
    · exact ⟨nofun, hread h⟩
  case h_3 hne _ => exact ⟨hne, hread h⟩

theorem mem_of_mapM {f : β → Reading α} {bs : List β} {as : List α} (h : bs.mapM f = .ok as) :
    ∀ a ∈ as, ∃ b ∈ bs, f b = .ok a := by
  induction bs generalizing as with
  | nil =>
    cases h
    simp
  | cons b rest ih =>
    rw [List.mapM_cons, bind_eq_ok] at h
    obtain ⟨a, ha, h⟩ := h
    obtain ⟨as', has', h⟩ := bind_eq_ok.1 h
    cases h
    rw [List.forall_mem_cons]
    refine ⟨⟨b, List.mem_cons_self, ha⟩, fun a' ha' => ?_⟩
    obtain ⟨b', hb', h'⟩ := ih has' a' ha'
    exact ⟨b', List.mem_cons_of_mem _ hb', h'⟩

/-- The items of a list were read from what a text spells inside it. -/
theorem of_list (hs : Json.Spelled depth n) {as : List α} (h : list read n = .ok as) :
    ∀ a ∈ as, ∃ m, Json.Spelled (depth + 1) m ∧ read m = .ok a := by
  intro a ha
  cases hs with
  | list _ hitems =>
    obtain ⟨m, hm, hread⟩ := mem_of_mapM h a ha
    exact ⟨m, hitems m hm, hread⟩
  | null | bool | int | float | str | unreadable | obj => cases h

end Reading

namespace Record

variable {α : Type} {read : Node → Reading α} {n : Node} {depth : Nat} {names : List String} {r : Record} {name : String}

/-- Whether the members of a record are what a text spells. -/
def Spelled (depth : Nat) (r : Record) : Prop :=
  ∀ m ∈ r.members, Json.Spelled depth m.2

theorem spelled_byName (hs : Json.Spelled depth n) (h : byName names n = .ok r) : r.Spelled (depth + 1) := by
  cases hs with
  | obj _ hmembers =>
    simp only [byName] at h
    split at h
    · cases h
      exact fun m hm => hmembers m (List.mem_of_mem_filter hm)
    · cases h
  | null | bool | int | float | str | unreadable | list => cases h

theorem spelled_ofNode (hs : Json.Spelled depth n) (h : Record.ofNode names n = .ok r) : r.Spelled (depth + 1) := by
  cases hs with
  | list _ hitems =>
    simp only [Record.ofNode] at h
    split at h
    · cases h
      exact fun m hm => hitems m.2 (List.of_mem_zip hm).2
    · cases h
  | null | bool | int | float | str | unreadable => cases h
  | obj hd hmembers => exact spelled_byName (.obj hd hmembers) h

theorem Spelled.of_withDefault (hs : r.Spelled depth) {a b : α} (h : r.withDefault name b read = .ok a) :
    a = b ∨ ∃ n, Json.Spelled depth n ∧ read n = .ok a := by
  unfold withDefault at h
  split at h
  case h_1 n hn => exact .inr ⟨n, hs _ (Pairs.mem_of_get? hn), h⟩
  case h_2 =>
    cases h
    exact .inl rfl

/-- A value that an optional member has was read from what a text spells there. -/
theorem Spelled.of_optional (hs : r.Spelled depth) {a? : Option α} (h : r.optional name read = .ok a?) :
    ∀ a ∈ a?, ∃ n, Json.Spelled depth n ∧ n ≠ .null ∧ read n = .ok a := by
  intro a ha
  obtain rfl := Option.mem_def.1 ha
  rcases hs.of_withDefault h with hnone | ⟨n, hn, hread⟩
  · cases hnone
  · exact ⟨n, hn, Reading.of_nullable hread⟩

theorem Spelled.of_listOrEmpty (hs : r.Spelled depth) {as : List α} (h : r.listOrEmpty name read = .ok as) :
    ∀ a ∈ as, ∃ n, Json.Spelled (depth + 1) n ∧ read n = .ok a := by
  rcases hs.of_withDefault h with rfl | ⟨n, hn, hlist⟩
  · simp
  · exact Reading.of_list hn hlist

end Record

end ApiDocs
