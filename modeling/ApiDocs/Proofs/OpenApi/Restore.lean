import ApiDocs.OpenApi.Document
import ApiDocs.Proofs.Json.Restore
/-!
# Documents of schemas read back

A schema is read back part by part. The one value that does not survive is a default that is null, which is
read as no default at all: `SchemaRef.reread` is what becomes of the schema of a parameter, and
`Document.reread` of a document. All other parts are read back as they were.
-/
namespace ApiDocs.OpenApi

open Json

/-! ## Writing schemas -/

theorem SchemaRef.toJson_ne_null (r : SchemaRef) : r.toJson ≠ .null := by
  cases r with
  | ref target => nofun
  | inline s => cases s; nofun

namespace Schema

theorem propertiesToJson_eq (ps : List (String × SchemaRef)) :
    propertiesToJson ps = ps.map fun p => (p.1, SchemaRef.toJson p.2) := by
  induction ps with
  | nil => rfl
  | cons p rest ih =>
    rw [propertiesToJson, ih]
    rfl

theorem listToJson_eq (rs : List SchemaRef) : listToJson rs = rs.map SchemaRef.toJson := by
  induction rs with
  | nil => rfl
  | cons r rest ih =>
    rw [listToJson, ih]
    rfl

/-- The slot of the properties, which are left out if there are none. -/
def propertiesSlot (ps : List (String × SchemaRef)) : Option Json :=
  if ps.isEmpty then none else some (.obj (ps.map fun p => (p.1, SchemaRef.toJson p.2)))

theorem propertiesMember_eq (ps : List (String × SchemaRef)) :
    propertiesMember ps = present "properties" (propertiesSlot ps) := by
  cases ps with
  | nil => rfl
  | cons p rest =>
    rw [propertiesMember, propertiesToJson_eq]
    rfl

theorem itemsMember_eq (r : Option SchemaRef) : itemsMember r = present "items" (r.map SchemaRef.toJson) := by
  cases r <;> rfl

theorem allOfMember_eq (rs : List SchemaRef) : allOfMember rs = present "allOf" (Slots.list SchemaRef.toJson rs) := by
  cases rs with
  | nil => rfl
  | cons r rest =>
    rw [allOfMember, listToJson_eq]
    rfl

def slots (s : Schema) : Slots :=
  [("type", s.type.map .str), ("format", s.format.map .str), ("description", s.description.map .str),
   ("properties", propertiesSlot s.properties), ("required", Slots.list .str s.required),
   ("items", s.items.map SchemaRef.toJson), ("enum", Slots.list (fun v => v) s.constants),
   ("allOf", Slots.list SchemaRef.toJson s.allOf), ("default", s.defaultValue)]

theorem toJson_eq (s : Schema) : s.toJson = .record s.slots := by
  obtain ⟨type, format, description, properties, required, items, constants, allOf, defaultValue⟩ := s
  simp [toJson, slots, propertiesMember_eq, itemsMember_eq, allOfMember_eq, Json.record, Slots.members, nonempty_eq_present]

/-! ## Reading schemas -/

/-- Reads a reference or a schema of at most `fuel` levels. -/
def refWithin (fuel : Nat) (n : Node) : Reading SchemaRef := do
  let _ ← Reading.json n
  match targetOf? n with
  | some target => .ok (.ref target)
  | none => (ofNodeWithin fuel n).map .inline

theorem ofNodeWithin_succ (fuel : Nat) (n : Node) : ofNodeWithin (fuel + 1) n = do
    let r ← Record.ofNode memberNames n
    return {
      type := ← r.optional "type" Reading.text
      format := ← r.optional "format" Reading.text
      description := ← r.optional "description" Reading.text
      properties := (← r.withDefault "properties" Keyed.empty (Reading.keyed (refWithin fuel))).entries
      required := ← r.listOrEmpty "required" Reading.text
      items := ← r.optional "items" (refWithin fuel)
      constants := ← r.listOrEmpty "enum" Reading.json
      allOf := ← r.listOrEmpty "allOf" (refWithin fuel)
      defaultValue := ← r.optional "default" Reading.json } := rfl

/-- A value that is there, and not null. -/
def unlessNull : Option Json → Option Json
  | some .null => none
  | v => v

theorem unlessNull_eq_self_iff {v : Option Json} : unlessNull v = v ↔ v ≠ some .null := by
  unfold unlessNull
  split <;> simp_all

/-- A value of any kind is read back, but null is read as nothing. -/
theorem slot_unlessNull {v? : Option Json} (h : ∀ v ∈ v?, v.Canonical) :
    Reading.slot (.ok none) (Reading.nullable Reading.json) v? = .ok (unlessNull v?) := by
  cases v? with
  | none => rfl
  | some v =>
    by_cases hv : v = .null
    · subst hv
      rfl
    · rw [Reading.slot_some, Reading.nullable_ofJson hv, Reading.json_ofJson (h v rfl),
        unlessNull_eq_self_iff.2 (by simpa using hv)]
      rfl

/-- A schema is no reference, as no member of it is called so. -/
theorem targetOf?_toJson (s : Schema) : targetOf? (.ofJson s.toJson) = none := by
  have hother : Record.byName ["$ref"] (.ofJson (.record s.slots)) = .ok ⟨true, []⟩ :=
    Record.byName_record_of_not_mem ["$ref"] (by simp [slots, Pairs.keys])
  rw [toJson_eq] at *
  rw [Json.record, Node.ofJson] at hother ⊢
  simp only [targetOf?, hother, Reading.ok_bind]
  rfl

/-- The schemas that a schema is put together from. -/
def parts (s : Schema) : List SchemaRef :=
  s.properties.map (·.2) ++ s.items.toList ++ s.allOf

variable {s : Schema} {r : SchemaRef}

theorem mem_parts : r ∈ s.parts ↔ (∃ p ∈ s.properties, p.2 = r) ∨ r ∈ s.items ∨ r ∈ s.allOf := by
  simp [parts]

/-- Whether the values in a schema, its parts among them, can be spelled. -/
structure Spells (depth : Nat) (s : Schema) : Prop where
  distinct : (Pairs.keys s.properties).Nodup
  parts : ∀ r ∈ s.parts, (SchemaRef.toJson r).Within depth
  constants : ∀ v ∈ s.constants, v.Within depth
  defaultValue : ∀ v ∈ s.defaultValue, v.Within depth

variable {depth fuel : Nat}

theorem Spells.within_toJson (h : s.Spells depth) : s.toJson.Within (depth + 2) := by
  have hobject : (Json.obj (s.properties.map fun p => (p.1, SchemaRef.toJson p.2))).Within (depth + 1) :=
    .objOf h.distinct fun p hp => h.parts p.2 (mem_parts.2 (.inl ⟨p, hp, rfl⟩))
  have hproperties : ∀ v ∈ propertiesSlot s.properties, v.Within (depth + 1) := Slots.forall_mem_unless hobject
  have hrequired : ∀ v ∈ Slots.list Json.str s.required, v.Within (depth + 1) := Within.slotList fun t _ => .str t
  have hitems : ∀ r ∈ s.items, (SchemaRef.toJson r).Within (depth + 1) := fun r hr =>
    (h.parts r (mem_parts.2 (.inr (.inl hr)))).mono (Nat.le_succ depth)
  have hconstants : ∀ v ∈ Slots.list (fun v => v) s.constants, v.Within (depth + 1) := Within.slotList h.constants
  have hallOf : ∀ v ∈ Slots.list SchemaRef.toJson s.allOf, v.Within (depth + 1) :=
    Within.slotList fun r hr => h.parts r (mem_parts.2 (.inr (.inr hr)))
  have hdefault : ∀ v ∈ s.defaultValue, v.Within (depth + 1) := fun v hv =>
    (h.defaultValue v hv).mono (Nat.le_succ depth)
  rw [toJson_eq]
  refine .record memberNames rfl (by decide) ?_
  simpa [slots] using ⟨hproperties, hrequired, hitems, hconstants, hallOf, hdefault⟩

/-- The schema with its parts changed. -/
def mapParts (f : SchemaRef → SchemaRef) (s : Schema) : Schema :=
  { s with
    properties := s.properties.map fun p => (p.1, f p.2)
    items := s.items.map f
    allOf := s.allOf.map f }

/-- The schema without a default that is null. -/
def withoutNull (s : Schema) : Schema :=
  { s with defaultValue := unlessNull s.defaultValue }

theorem mapParts_id (s : Schema) : s.mapParts id = s := by
  obtain ⟨type, format, description, properties, required, items, constants, allOf, defaultValue⟩ := s
  simp [mapParts]

theorem withoutNull_eq_self_iff : s.withoutNull = s ↔ s.defaultValue ≠ some .null := by
  obtain ⟨type, format, description, properties, required, items, constants, allOf, defaultValue⟩ := s
  simp [withoutNull, unlessNull_eq_self_iff]

/-- A schema is read back as its parts are, without a default that is null. -/
theorem Spells.ofNodeWithin_toJson (h : s.Spells depth) (back : SchemaRef → SchemaRef)
    (hback : ∀ r ∈ s.parts, refWithin fuel (.ofJson (SchemaRef.toJson r)) = .ok (back r)) :
    ofNodeWithin (fuel + 1) (.ofJson s.toJson) = .ok (s.mapParts back).withoutNull := by
  have hproperties : Reading.slot (.ok Keyed.empty) (Reading.keyed (refWithin fuel)) (propertiesSlot s.properties) =
      .ok (Keyed.map back ⟨s.properties, h.distinct⟩) := by
    unfold propertiesSlot
    split
    case isTrue hnil =>
      have hmap : Keyed.map back ⟨s.properties, h.distinct⟩ = Keyed.empty :=
        Keyed.ext_entries (by simp [Keyed.map, Keyed.empty, List.isEmpty_iff.1 hnil])
      rw [hmap]
      rfl
    case isFalse =>
      exact Reading.keyed_map_ofJson (m := ⟨s.properties, h.distinct⟩) fun p hp =>
        hback p.2 (mem_parts.2 (.inl ⟨p, hp, rfl⟩))
  have hrequired := Reading.list_slot fun t (_ : t ∈ s.required) => Reading.text_ofJson t
  have hitems : Reading.slot (.ok none) (Reading.nullable (refWithin fuel)) (s.items.map SchemaRef.toJson) =
      .ok (s.items.map back) :=
    Reading.nullable_slot_map fun r hr => ⟨r.toJson_ne_null, hback r (mem_parts.2 (.inr (.inl hr)))⟩
  have hconstants : Reading.slot (.ok []) (Reading.list Reading.json) (Slots.list (fun v => v) s.constants) =
      .ok s.constants := Reading.list_slot fun v hv => Reading.json_ofJson (h.constants v hv).canonical
  have hallOf : Reading.slot (.ok []) (Reading.list (refWithin fuel)) (Slots.list SchemaRef.toJson s.allOf) =
      .ok (s.allOf.map back) := Reading.list_slot_map fun r hr => hback r (mem_parts.2 (.inr (.inr hr)))
  have hdefault := slot_unlessNull fun v hv => (h.defaultValue v hv).canonical
  rw [toJson_eq, ofNodeWithin_succ, Record.ofNode_record memberNames rfl (by decide)]
  simp [slots, hproperties, hrequired, hitems, hconstants, hallOf, hdefault, Keyed.map, mapParts, withoutNull]

/-- So it is where a reference could stand. -/
theorem Spells.refWithin_toJson (h : s.Spells depth) (back : SchemaRef → SchemaRef)
    (hback : ∀ r ∈ s.parts, refWithin fuel (.ofJson (SchemaRef.toJson r)) = .ok (back r)) :
    refWithin (fuel + 1) (.ofJson s.toJson) = .ok (.inline (s.mapParts back).withoutNull) := by
  rw [refWithin, Reading.json_ofJson h.within_toJson.canonical, Reading.ok_bind, targetOf?_toJson,
    h.ofNodeWithin_toJson back hback]
  rfl

/-- A part stands below the schema that it is a part of. -/
theorem height_lt_of_mem_parts (hr : r ∈ s.parts) : (SchemaRef.toJson r).height < s.toJson.height := by
  rw [toJson_eq]
  rcases mem_parts.1 hr with ⟨p, hp, rfl⟩ | hr | hr
  · have hne : s.properties.isEmpty = false := List.isEmpty_eq_false_iff.2 (List.ne_nil_of_mem hp)
    have hobj : (SchemaRef.toJson p.2).height < (Json.obj (s.properties.map fun p => (p.1, SchemaRef.toJson p.2))).height :=
      Nat.lt_succ_of_le (heightMembers_le_iff.1 (Nat.le_refl _) (p.1, SchemaRef.toJson p.2) (List.mem_map_of_mem hp))
    refine hobj.trans (height_lt_record "properties" ?_)
    simp [slots, propertiesSlot, hne]
  · refine height_lt_record "items" ?_
    simp [slots, Option.mem_def.1 hr]
  · have hne : s.allOf.isEmpty = false := List.isEmpty_eq_false_iff.2 (List.ne_nil_of_mem hr)
    refine (height_lt_list (List.mem_map_of_mem hr)).trans (height_lt_record "allOf" ?_)
    simp [slots, Slots.list, hne]

theorem height_pos (s : Schema) : 0 < s.toJson.height := by
  rw [toJson_eq]
  exact Nat.succ_pos _

end Schema

open Schema

/-! ## Schemas that are read back as they are -/

/-- Whether a schema can be spelled, and has no default that is null in any part of it. -/
inductive Sound : Nat → SchemaRef → Prop
  | ref {depth : Nat} (target : String) : Sound (depth + 1) (.ref target)
  | inline {depth : Nat} {s : Schema} (distinct : (Pairs.keys s.properties).Nodup) (parts : ∀ r ∈ s.parts, Sound depth r)
      (constants : ∀ v ∈ s.constants, v.Within depth) (defaultValue : ∀ v ∈ s.defaultValue, v.Within depth ∧ v ≠ .null) :
      Sound (depth + 2) (.inline s)

namespace Sound

variable {depth : Nat} {r : SchemaRef}

theorem mono (h : Sound depth r) : ∀ {depth' : Nat}, depth ≤ depth' → Sound depth' r := by
  induction h with
  | ref target =>
    intro depth' hle
    obtain ⟨k, rfl⟩ := Nat.exists_eq_add_of_le' (Nat.le_trans (Nat.succ_le_succ (Nat.zero_le _)) hle)
    exact .ref target
  | inline distinct _ constants defaultValue ih =>
    intro depth' hle
    obtain ⟨k, rfl⟩ := Nat.exists_eq_add_of_le' (Nat.le_trans (Nat.le_add_left 2 _) hle)
    have hk := Nat.le_of_add_le_add_right hle
    refine .inline distinct (fun r hr => ih r hr hk) (fun v hv => (constants v hv).mono hk) fun v hv => ?_
    exact ⟨(defaultValue v hv).1.mono hk, (defaultValue v hv).2⟩

theorem within_toJson (h : Sound depth r) : (SchemaRef.toJson r).Within depth := by
  induction h with
  | ref target => exact .obj (List.nodup_singleton _) (by simp)
  | inline distinct _ constants defaultValue ih =>
    exact Spells.within_toJson ⟨distinct, ih, constants, fun v hv => (defaultValue v hv).1⟩

/-- With fuel for all its levels, a sound schema is read back as it is. -/
theorem refWithin_toJson (h : Sound depth r) : ∀ {fuel : Nat}, (SchemaRef.toJson r).height ≤ fuel →
    refWithin fuel (.ofJson (SchemaRef.toJson r)) = .ok r := by
  induction h with
  | ref target =>
    intro fuel hfuel
    have hwithin : (SchemaRef.toJson (.ref target)).Within 1 := (Sound.ref target).within_toJson
    rw [refWithin, Reading.json_ofJson hwithin.canonical]
    rfl
  | @inline depth s distinct parts constants defaultValue ih =>
    intro fuel hfuel
    have hpos := s.height_pos
    obtain ⟨fuel, rfl⟩ : ∃ f, fuel = f + 1 := Nat.exists_eq_add_one_of_ne_zero (Nat.ne_of_gt (hpos.trans_le hfuel))
    have hspells : s.Spells depth :=
      ⟨distinct, fun r hr => (parts r hr).within_toJson, constants, fun v hv => (defaultValue v hv).1⟩
    -- A part is lower than the schema, so the fuel that is left is enough for it.
    have hparts : ∀ r ∈ s.parts, refWithin fuel (.ofJson (SchemaRef.toJson r)) = .ok (id r) := fun r hr =>
      ih r hr (Nat.le_of_lt_succ ((height_lt_of_mem_parts hr).trans_le hfuel))
    have hread := hspells.refWithin_toJson id hparts
    rw [mapParts_id, withoutNull_eq_self_iff.2 fun hnull => (defaultValue .null hnull).2 rfl] at hread
    exact hread

end Sound

/-! ## Schemas of parameters -/

/-- A reference, or the change of what stands in its place. -/
def OrRef.map {α β : Type} (f : α → β) : OrRef α → OrRef β
  | .ref target => .ref target
  | .inline a => .inline (f a)

namespace Schema

/-- What a schema is read as whose parts, but for its items, have no default: it is without the default of its own
and of its items where that is null. -/
def reread (s : Schema) : Schema :=
  { s.withoutNull with items := s.items.map (OrRef.map withoutNull) }

theorem reread_eq_self_iff {s : Schema} : s.reread = s ↔
    s.defaultValue ≠ some .null ∧ ∀ i, some (.inline i) = s.items → i.defaultValue ≠ some .null := by
  obtain ⟨type, format, description, properties, required, items, constants, allOf, defaultValue⟩ := s
  have hitems : items.map (OrRef.map withoutNull) = items ↔
      ∀ i, some (.inline i) = items → i.defaultValue ≠ some .null := by
    rcases items with _ | target | i
    · simp
    · simp [OrRef.map]
    · simp [OrRef.map, withoutNull_eq_self_iff]
  simp [reread, withoutNull, unlessNull_eq_self_iff, hitems, and_comm]

end Schema

def SchemaRef.reread : SchemaRef → SchemaRef :=
  OrRef.map Schema.reread

/-- The levels that schemas in documents have at most. -/
def schemaLevels : Nat := 12

/-- Whether a schema in a document is read back as another. -/
structure Restores (r r' : SchemaRef) : Prop where
  within : (SchemaRef.toJson r).Within schemaLevels
  read : SchemaRef.ofNode (.ofJson (SchemaRef.toJson r)) = .ok r'

theorem SchemaRef.ofNode_eq (n : Node) : SchemaRef.ofNode n = refWithin n.height n := rfl

theorem Sound.restores {r : SchemaRef} (h : Sound schemaLevels r) : Restores r r where
  within := h.within_toJson
  read := by
    rw [SchemaRef.ofNode_eq]
    exact h.refWithin_toJson (Node.height_le_ofJson h.within_toJson.canonical)

theorem Sound.ofNode_toJson {s : Schema} (h : Sound schemaLevels (.inline s)) :
    Schema.ofNode (.ofJson s.toJson) = .ok s := by
  -- What is read is the schema itself, as it is no reference.
  have hread := h.restores.read
  rw [SchemaRef.ofNode_eq, refWithin] at hread
  obtain ⟨v, -, hread⟩ := Reading.bind_eq_ok.1 hread
  have htarget : targetOf? (.ofJson (SchemaRef.toJson (.inline s))) = none := targetOf?_toJson s
  rw [htarget] at hread
  have hmap : (Schema.ofNode (.ofJson s.toJson)).map OrRef.inline = .ok (OrRef.inline s) := hread
  cases hs : Schema.ofNode (.ofJson s.toJson) with
  | error misfit => simp [hs, Except.map] at hmap
  | ok s' => simpa [hs, Except.map] using hmap

/-- A sound schema loses nothing. -/
theorem Sound.reread {depth : Nat} {r : SchemaRef} (h : Sound depth r) : r.reread = r := by
  cases h with
  | ref target => rfl
  | inline _ parts _ defaultValue =>
    refine congrArg OrRef.inline (reread_eq_self_iff.2 ⟨fun hnull => (defaultValue .null hnull).2 rfl, fun i hi => ?_⟩)
    cases parts (.inline i) (mem_parts.2 (.inr (.inl hi.symm))) with
    | inline _ _ _ defaultValue => exact fun hnull => (defaultValue .null hnull).2 rfl

/-! ## Elements -/

section

variable {s : Schema} (hs : s.Spells 0) (hparts : s.parts = [])

include hs hparts

theorem refWithin_element (fuel : Nat) : refWithin (fuel + 1) (.ofJson s.toJson) = .ok (.inline s.withoutNull) := by
  rw [hs.refWithin_toJson id (by simp [hparts]), mapParts_id]

/-- A schema without parts may have any default. -/
theorem restores_element : Restores (.inline s) (SchemaRef.reread (.inline s)) where
  within := hs.within_toJson.mono (by decide)
  read := by
    have hpos := s.height_pos.trans_le (Node.height_le_ofJson hs.within_toJson.canonical)
    obtain ⟨fuel, hfuel⟩ := Nat.exists_eq_add_one_of_ne_zero (Nat.ne_of_gt hpos)
    have hreread : s.reread = s.withoutNull := by
      simp only [Schema.parts, List.append_eq_nil_iff, Option.toList_eq_nil_iff] at hparts
      simp [Schema.reread, withoutNull, hparts.1.2]
    have hnode : refWithin (Node.ofJson s.toJson).height (.ofJson s.toJson) = .ok (.inline s.reread) := by
      rw [hfuel, refWithin_element hs hparts, hreread]
    exact hnode

/-- So it may as the items of a list. -/
theorem restores_array : Restores (.inline (Schema.array (.inline s))) (SchemaRef.reread (.inline (Schema.array (.inline s)))) := by
  have hmem : ∀ {r}, r ∈ (Schema.array (.inline s)).parts ↔ r = .inline s := by
    simp [Schema.parts, Schema.array, Schema.empty]
  have harray : (Schema.array (.inline s)).Spells 2 := by
    refine ⟨List.nodup_nil, fun r hr => ?_, nofun, nofun⟩
    obtain rfl := hmem.1 hr
    exact hs.within_toJson
  -- Both levels are read: that of the list and that of its items.
  have hlevels : 2 ≤ (Node.ofJson (Schema.array (.inline s)).toJson).height := by
    have hpos := s.height_pos
    have hlt : s.toJson.height < (Schema.array (.inline s)).toJson.height := height_lt_of_mem_parts (hmem.2 rfl)
    have hle := Node.height_le_ofJson harray.within_toJson.canonical
    omega
  obtain ⟨fuel, hfuel⟩ := Nat.exists_eq_add_of_le' hlevels
  have hback := harray.refWithin_toJson (OrRef.map withoutNull) fun r hr => by
    obtain rfl := hmem.1 hr
    exact refWithin_element hs hparts fuel
  have hnode : refWithin (Node.ofJson (Schema.array (.inline s)).toJson).height
      (.ofJson (Schema.array (.inline s)).toJson) = .ok (.inline (Schema.array (.inline s)).reread) := by
    rw [hfuel, hback]
    rfl
  exact ⟨harray.within_toJson.mono (by decide), hnode⟩

theorem restores_listed (isArray : Bool) :
    Restores (SchemaRef.listed (.inline s) isArray) (SchemaRef.listed (.inline s) isArray).reread := by
  cases isArray with
  | false => exact restores_element hs hparts
  | true => exact restores_array hs hparts

end

/-- Only a default that is null is lost. -/
theorem reread_listed_iff {s : Schema} (hparts : s.parts = []) (isArray : Bool) :
    (SchemaRef.listed (.inline s) isArray).reread = SchemaRef.listed (.inline s) isArray ↔
      s.defaultValue ≠ some .null := by
  have hinline : ∀ t : Schema, SchemaRef.reread (.inline t) = .inline t ↔ t.reread = t := fun t => by
    simp [SchemaRef.reread, OrRef.map]
  simp only [Schema.parts, List.append_eq_nil_iff, Option.toList_eq_nil_iff] at hparts
  cases isArray with
  | false => simp [SchemaRef.listed, hinline, reread_eq_self_iff, hparts.1.2]
  | true => simp [SchemaRef.listed, hinline, reread_eq_self_iff, Schema.array, Schema.empty]

/-! ## Bodies and responses -/

/-- The levels that a value around a schema has. -/
abbrev levelsAround (k : Nat) : Nat := schemaLevels + k

/-- Whether all schemas of a content are read back as they are. -/
def Content.Sound (c : Content) : Prop :=
  ∀ e ∈ c.entries, OpenApi.Sound schemaLevels e.2

namespace Content

/-- How the schema of one media type is written. -/
def mediaJson (r : SchemaRef) : Json :=
  .record [("schema", some r.toJson)]

theorem toJson_eq (c : Content) : c.toJson = .ofKeyed mediaJson c := rfl

theorem mediaType_mediaJson {r : SchemaRef} (h : OpenApi.Sound schemaLevels r) :
    mediaType (.ofJson (mediaJson r)) = .ok r := by
  rw [mediaType, mediaJson, Record.ofNode_record ["schema"] rfl (by decide)]
  simp [h.restores.read]

theorem within_mediaJson {r : SchemaRef} (h : OpenApi.Sound schemaLevels r) : (mediaJson r).Within (levelsAround 1) :=
  .record ["schema"] rfl (by decide) (by simpa using h.within_toJson)

variable {c : Content}

theorem ofNode_toJson (h : c.Sound) : ofNode (.ofJson c.toJson) = .ok c :=
  Reading.keyed_ofJson fun e he => mediaType_mediaJson (h e he)

theorem within_toJson (h : c.Sound) : c.toJson.Within (levelsAround 2) :=
  .ofKeyed fun e he => within_mediaJson (h e he)

end Content

namespace RequestBody

theorem toJson_eq (b : RequestBody) : b.toJson = .record
    [("description", b.description.map .str), ("content", some b.content.toJson), ("required", some (.bool b.required))] := by
  simp [toJson, Json.record, Slots.members]

variable {b : RequestBody} (h : b.content.Sound)

include h

theorem ofNode_toJson : ofNode (.ofJson b.toJson) = .ok b := by
  have hcontent := Content.ofNode_toJson h
  rw [toJson_eq, ofNode, Record.ofNode_record ["description", "content", "required"] rfl (by decide)]
  simp [hcontent]

theorem within_toJson : b.toJson.Within (levelsAround 3) := by
  have hcontent := Content.within_toJson h
  rw [toJson_eq]
  exact .record ["description", "content", "required"] rfl (by decide) (by simp [hcontent])

end RequestBody

namespace Response

theorem toJson_eq (r : Response) : r.toJson = .record
    [("description", some (.str r.description)), ("content", Slots.keyed Content.mediaJson r.content)] := by
  have hcontent := unlessNone_eq_present "content" Content.mediaJson r.content
  rw [toJson, Content.toJson_eq, hcontent]
  simp [Json.record, Slots.members]

variable {r : Response} (h : r.content.Sound)

include h

theorem ofNode_toJson : ofNode (.ofJson r.toJson) = .ok r := by
  have hcontent : Reading.slot (.ok Keyed.empty) Content.ofNode (Slots.keyed Content.mediaJson r.content) = .ok r.content :=
    Reading.keyed_slot fun e he => Content.mediaType_mediaJson (h e he)
  rw [toJson_eq, ofNode, Record.ofNode_record ["description", "content"] rfl (by decide)]
  simp [hcontent]

theorem within_toJson : r.toJson.Within (levelsAround 3) := by
  have hcontent : ∀ v ∈ Slots.keyed Content.mediaJson r.content, v.Within (levelsAround 2) :=
    Within.slotKeyed fun e he => Content.within_mediaJson (h e he)
  rw [toJson_eq]
  exact .record ["description", "content"] rfl (by decide) (by simpa using hcontent)

end Response

/-! ## Operations -/

namespace Parameter

/-- What a parameter is read as. -/
def reread (p : Parameter) : Parameter :=
  { p with schema := p.schema.reread }

theorem toJson_eq (p : Parameter) : p.toJson = .record
    [("name", some (.str p.name)), ("in", some (.str p.location)), ("description", p.description.map .str),
     ("required", some (.bool p.required)), ("schema", some p.schema.toJson)] := by
  simp [toJson, Json.record, Slots.members]

variable {p : Parameter} (h : Restores p.schema p.schema.reread)

include h

theorem ofNode_toJson : ofNode (.ofJson p.toJson) = .ok p.reread := by
  rw [toJson_eq, ofNode, Record.ofNode_record ["name", "in", "description", "required", "schema"] rfl (by decide)]
  simp [h.read, reread]

theorem within_toJson : p.toJson.Within (levelsAround 1) := by
  rw [toJson_eq]
  exact .record ["name", "in", "description", "required", "schema"] rfl (by decide) (by simp [h.within])

end Parameter

namespace Operation

/-- What an operation is read as. -/
def reread (o : Operation) : Operation :=
  { o with parameters := o.parameters.map Parameter.reread }

/-- Whether the schemas of an operation are read back: those of its parameters without defaults that are null, and
all others as they are. -/
structure Sound (o : Operation) : Prop where
  parameters : ∀ p ∈ o.parameters, Restores p.schema p.schema.reread
  body : ∀ b ∈ o.body, b.content.Sound
  responses : ∀ e ∈ o.responses.entries, e.2.content.Sound

theorem toJson_eq (o : Operation) : o.toJson = .record
    [("summary", some (.str o.summary)), ("description", Slots.text o.description),
     ("tags", some (.texts o.tags)), ("operationId", some (.str o.id)),
     ("parameters", Slots.list Parameter.toJson o.parameters), ("requestBody", o.body.map RequestBody.toJson),
     ("responses", some (.ofKeyed Response.toJson o.responses)),
     ("security", Slots.list (Json.ofKeyed .texts) o.security)] := by
  rw [toJson, unlessEmpty_eq_present]
  simp [Json.record, Slots.members, nonempty_eq_present]

theorem toJson_ne_null (o : Operation) : o.toJson ≠ .null := nofun

variable {o : Operation} (h : o.Sound)

include h

theorem ofNode_toJson : ofNode (.ofJson o.toJson) = .ok o.reread := by
  have hparameters := Reading.list_slot_map fun p hp => Parameter.ofNode_toJson (h.parameters p hp)
  have hbody : Reading.slot (.ok none) (Reading.nullable RequestBody.ofNode) (o.body.map RequestBody.toJson) = .ok o.body :=
    Reading.nullable_slot fun b hb => ⟨nofun, RequestBody.ofNode_toJson (h.body b hb)⟩
  have hresponses : Reading.keyed Response.ofNode (.ofJson (.ofKeyed Response.toJson o.responses)) = .ok o.responses :=
    Reading.keyed_ofJson fun e he => Response.ofNode_toJson (h.responses e he)
  have hsecurity : Reading.slot (.ok []) (Reading.list (Reading.keyed (Reading.list Reading.text)))
      (Slots.list (Json.ofKeyed .texts) o.security) = .ok o.security :=
    Reading.list_slot fun r _ => Reading.keyed_ofJson fun e _ => Reading.list_texts e.2
  rw [toJson_eq, ofNode, Record.ofNode_record memberNames rfl (by decide)]
  simp [hparameters, hbody, hresponses, hsecurity, reread]

theorem within_toJson : o.toJson.Within (levelsAround 5) := by
  have hparameters : ∀ v ∈ Slots.list Parameter.toJson o.parameters, v.Within (levelsAround 4) :=
    Within.slotList fun p hp => (Parameter.within_toJson (h.parameters p hp)).mono (by decide)
  have hbody : ∀ b ∈ o.body, b.toJson.Within (levelsAround 4) := fun b hb =>
    (RequestBody.within_toJson (h.body b hb)).mono (by decide)
  have hresponses : (Json.ofKeyed Response.toJson o.responses).Within (levelsAround 4) :=
    .ofKeyed fun e he => Response.within_toJson (h.responses e he)
  have hsecurity : ∀ v ∈ Slots.list (Json.ofKeyed .texts) o.security, v.Within (levelsAround 4) :=
    Within.slotList fun r _ => .ofKeyed fun e _ => .texts e.2
  rw [toJson_eq]
  refine .record memberNames rfl (by decide) ?_
  simpa [hresponses] using ⟨Within.slotText o.description, hparameters, hbody, hsecurity⟩

end Operation

/-! ## Documents -/

namespace PathItem

/-- What the operations of a path are read as. -/
def reread (p : PathItem) : PathItem :=
  ⟨p.get.map Operation.reread, p.post.map Operation.reread, p.put.map Operation.reread, p.patch.map Operation.reread,
    p.delete.map Operation.reread, p.head.map Operation.reread, p.options.map Operation.reread⟩

theorem operation?_reread (p : PathItem) (m : Method) : p.reread.operation? m = (p.operation? m).map Operation.reread := by
  cases m <;> rfl

theorem toJson_eq (p : PathItem) : p.toJson = .record
    (Method.all.map fun m => (m.word, (p.operation? m).map Operation.toJson)) := rfl

variable {p : PathItem} (h : ∀ m, ∀ o ∈ p.operation? m, o.Sound)

include h

theorem ofNode_toJson : ofNode (.ofJson p.toJson) = .ok p.reread := by
  have hread : ∀ m, Reading.slot (.ok none) (Reading.nullable Operation.ofNode) ((p.operation? m).map Operation.toJson) =
      .ok ((p.operation? m).map Operation.reread) := fun m =>
    Reading.nullable_slot_map fun o ho => ⟨o.toJson_ne_null, Operation.ofNode_toJson (h m o ho)⟩
  have hget := hread .get
  have hpost := hread .post
  have hput := hread .put
  have hpatch := hread .patch
  have hdelete := hread .delete
  have hhead := hread .head
  have hoptions := hread .options
  rw [toJson_eq, ofNode, Record.ofNode_record (Method.all.map Method.word) rfl (by decide)]
  simp only [operation?] at hget hpost hput hpatch hdelete hhead hoptions
  simp [Method.all, Method.word, operation?, hget, hpost, hput, hpatch, hdelete, hhead, hoptions, reread]

theorem within_toJson : p.toJson.Within (levelsAround 6) := by
  rw [toJson_eq]
  refine .record (Method.all.map Method.word) rfl (by decide) fun s hs v hv => ?_
  obtain ⟨m, -, rfl⟩ := List.mem_map.1 hs
  obtain ⟨o, ho, rfl⟩ := Option.map_eq_some_iff.1 hv
  exact Operation.within_toJson (h m o ho)

end PathItem

namespace SecurityScheme

theorem toJson_eq (s : SecurityScheme) : s.toJson = .record
    [("type", some (.str s.type)), ("in", some (.str s.location)), ("name", some (.str s.name)),
     ("description", s.description.map .str)] := by
  simp [toJson, Json.record, Slots.members]

theorem ofNode_toJson (s : SecurityScheme) : ofNode (.ofJson s.toJson) = .ok s := by
  rw [toJson_eq, ofNode, Record.ofNode_record ["type", "in", "name", "description"] rfl (by decide)]
  simp

theorem within_toJson (s : SecurityScheme) : s.toJson.Within 1 := by
  rw [toJson_eq]
  exact .record ["type", "in", "name", "description"] rfl (by decide) (by simp)

end SecurityScheme

namespace Components

theorem toJson_eq (c : Components) : c.toJson = .record
    [("schemas", some (.ofKeyed Schema.toJson c.schemas)),
     ("securitySchemes", Slots.keyed SecurityScheme.toJson c.securitySchemes)] := by
  rw [toJson, unlessNone_eq_present]
  simp [Json.record, Slots.members]

variable {c : Components} (h : ∀ e ∈ c.schemas.entries, Sound schemaLevels (.inline e.2))

include h

theorem ofNode_toJson : ofNode (.ofJson c.toJson) = .ok c := by
  have hschemas := Reading.keyed_ofJson fun e he => (h e he).ofNode_toJson
  have hschemes := Reading.keyed_slot fun e (_ : e ∈ c.securitySchemes.entries) => e.2.ofNode_toJson
  rw [toJson_eq, ofNode, Record.ofNode_record ["schemas", "securitySchemes"] rfl (by decide)]
  simp [hschemas, hschemes]

theorem within_toJson : c.toJson.Within (levelsAround 2) := by
  have hschemas : (Json.ofKeyed Schema.toJson c.schemas).Within (levelsAround 1) :=
    .ofKeyed fun e he => (h e he).within_toJson
  have hschemes : ∀ v ∈ Slots.keyed SecurityScheme.toJson c.securitySchemes, v.Within (levelsAround 1) :=
    Within.slotKeyed fun e _ => e.2.within_toJson.mono (by decide)
  rw [toJson_eq]
  exact .record ["schemas", "securitySchemes"] rfl (by decide) (by simpa [hschemas] using hschemes)

end Components

namespace Info

theorem toJson_eq (i : Info) : i.toJson = .record
    [("title", some (.str i.title)), ("version", some (.str i.version)), ("description", i.description.map .str)] := by
  simp [toJson, Json.record, Slots.members]

theorem ofNode_toJson (i : Info) : ofNode (.ofJson i.toJson) = .ok i := by
  rw [toJson_eq, ofNode, Record.ofNode_record ["title", "version", "description"] rfl (by decide)]
  simp

theorem within_toJson (i : Info) : i.toJson.Within 1 := by
  rw [toJson_eq]
  exact .record ["title", "version", "description"] rfl (by decide) (by simp)

end Info

namespace Server

theorem toJson_eq (s : Server) : s.toJson = .record
    [("url", some (.str s.url)), ("description", s.description.map .str)] := by
  simp [toJson, Json.record, Slots.members]

theorem ofNode_toJson (s : Server) : ofNode (.ofJson s.toJson) = .ok s := by
  rw [toJson_eq, ofNode, Record.ofNode_record ["url", "description"] rfl (by decide)]
  simp

theorem within_toJson (s : Server) : s.toJson.Within 1 := by
  rw [toJson_eq]
  exact .record ["url", "description"] rfl (by decide) (by simp)

end Server

theorem tagOfNode_tagJson (name : String) : tagOfNode (.ofJson (tagJson name)) = .ok name := by
  have hrecord : tagJson name = .record [("name", some (.str name))] := rfl
  rw [hrecord, tagOfNode, Record.ofNode_record ["name"] rfl (by decide)]
  simp

theorem within_tagJson (name : String) : (tagJson name).Within 1 :=
  .obj (List.nodup_singleton _) (by simp)

namespace Document

/-- What a document is read as. -/
def reread (d : Document) : Document :=
  { d with paths := d.paths.map PathItem.reread }

/-- Whether all schemas of a document are read back. -/
structure Sound (d : Document) : Prop where
  operations : ∀ e ∈ d.paths.entries, ∀ m, ∀ o ∈ e.2.operation? m, o.Sound
  components : ∀ e ∈ d.components.schemas.entries, OpenApi.Sound schemaLevels (.inline e.2)

theorem toJson_eq (d : Document) : d.toJson = .record
    [("openapi", some (.str d.version)), ("info", some d.info.toJson), ("servers", Slots.list Server.toJson d.servers),
     ("tags", Slots.list tagJson d.tags), ("paths", some (.ofKeyed PathItem.toJson d.paths)),
     ("components", some d.components.toJson)] := by
  simp [toJson, Json.record, Slots.members, nonempty_eq_present]

variable {d : Document} (h : d.Sound)

include h

theorem ofNode_toJson : ofNode (.ofJson d.toJson) = .ok d.reread := by
  have hservers := Reading.list_slot fun s (_ : s ∈ d.servers) => s.ofNode_toJson
  have htags := Reading.list_slot fun t (_ : t ∈ d.tags) => tagOfNode_tagJson t
  have hpaths := Reading.keyed_map_ofJson fun e he => PathItem.ofNode_toJson (h.operations e he)
  have hcomponents := Components.ofNode_toJson h.components
  rw [toJson_eq, ofNode,
    Record.ofNode_record ["openapi", "info", "servers", "tags", "paths", "components"] rfl (by decide)]
  simp [d.info.ofNode_toJson, hservers, htags, hpaths, hcomponents, reread]

theorem within_toJson : d.toJson.Within (levelsAround 8) := by
  have hinfo : d.info.toJson.Within (levelsAround 7) := d.info.within_toJson.mono (by decide)
  have hservers : ∀ v ∈ Slots.list Server.toJson d.servers, v.Within (levelsAround 7) :=
    Within.slotList fun s _ => s.within_toJson.mono (by decide)
  have htags : ∀ v ∈ Slots.list tagJson d.tags, v.Within (levelsAround 7) :=
    Within.slotList fun t _ => (within_tagJson t).mono (by decide)
  have hpaths : (Json.ofKeyed PathItem.toJson d.paths).Within (levelsAround 7) :=
    .ofKeyed fun e he => PathItem.within_toJson (h.operations e he)
  have hcomponents : d.components.toJson.Within (levelsAround 7) :=
    (Components.within_toJson h.components).mono (by decide)
  rw [toJson_eq]
  refine .record ["openapi", "info", "servers", "tags", "paths", "components"] rfl (by decide) ?_
  simpa [hinfo, hpaths, hcomponents] using ⟨hservers, htags⟩

end Document

end ApiDocs.OpenApi
