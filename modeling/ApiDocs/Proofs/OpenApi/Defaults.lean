import ApiDocs.Proofs.Literal
import ApiDocs.Proofs.OpenApi.Operations
import ApiDocs.Proofs.OpenApi.References
import ApiDocs.Proofs.OpenApi.Restore
/-!
# Rendered documents read back

A rendered document is put together from schemas that are sound, and from those of parameters, which have the
declared default. So it is read back as it was but for the defaults that are null: those of parameters of a number
type whose default spells no finite number.
-/
namespace ApiDocs.OpenApi

open Json Schema

/-! ## Sound schemas -/

namespace Sound

variable {depth : Nat} {s : Schema} {r : SchemaRef}

/-- Only the parts and the values of a schema count. -/
theorem congr {s' : Schema} (h : Sound depth (.inline s)) (hp : s'.properties = s.properties) (hi : s'.items = s.items)
    (ha : s'.allOf = s.allOf) (hc : s'.constants = s.constants) (hd : s'.defaultValue = s.defaultValue) :
    Sound depth (.inline s') := by
  have hparts : s'.parts = s.parts := by rw [parts, parts, hp, hi, ha]
  cases h with
  | inline distinct parts constants defaultValue =>
    exact .inline (hp ▸ distinct) (hparts ▸ parts) (hc ▸ constants) (hd ▸ defaultValue)

/-- A schema without parts and constants. -/
theorem leaf (hp : s.properties = []) (hi : s.items = none) (ha : s.allOf = []) (hc : s.constants = [])
    (hd : ∀ v ∈ s.defaultValue, v.Within 0 ∧ v ≠ .null) : Sound 2 (.inline s) :=
  .inline (by simp [hp, Pairs.keys]) (by simp [Schema.parts, hp, hi, ha]) (by simp [hc]) hd

theorem scalar (t : Scalar.Schema) : Sound 2 (.inline (Schema.scalar t)) :=
  leaf rfl rfl rfl rfl nofun

theorem ofType (type : String) : Sound 2 (.inline (Schema.ofType type)) :=
  leaf rfl rfl rfl rfl nofun

theorem component (name : String) : Sound 1 (SchemaRef.component name) :=
  .ref _

theorem array (h : Sound depth r) : Sound (depth + 2) (.inline (Schema.array r)) := by
  refine .inline List.nodup_nil (fun r' hr' => ?_) nofun nofun
  obtain rfl : r' = r := by simpa [Schema.parts, Schema.array, Schema.empty] using hr'
  exact h

theorem listed (h : Sound depth r) (isArray : Bool) : Sound (depth + 2) (r.listed isArray) := by
  cases isArray with
  | false => exact h.mono (Nat.le_add_right depth 2)
  | true => exact h.array

theorem object {properties : List (String × SchemaRef)} (h : ∀ p ∈ properties, Sound depth p.2) :
    Sound (depth + 2) (.inline (Schema.object properties)) := by
  refine .inline (Pairs.nodup_keys_foldl_put properties List.nodup_nil) (fun r hr => ?_) nofun nofun
  rcases mem_parts.1 hr with ⟨p, hp, rfl⟩ | hr | hr
  · rcases Pairs.mem_foldl_put hp with hp | hp
    · cases hp
    · exact h p hp
  · cases hr
  · cases hr

theorem enumeration (constants : List String) : Sound 2 (.inline (Schema.enumeration constants)) :=
  .inline List.nodup_nil (by simp [Schema.parts, Schema.enumeration, Schema.empty])
    (by simp [Schema.enumeration]) nofun

theorem describe (h : Sound depth (.inline s)) (text : String) : Sound depth (.inline (s.describe text)) := by
  unfold Schema.describe
  split
  · exact h
  · exact h.congr rfl rfl rfl rfl rfl

/-- A reference is wrapped to carry its description. -/
theorem describe_ref (h : Sound depth r) (text : String) : Sound (depth + 2) (r.describe text) := by
  unfold SchemaRef.describe
  split
  · exact h.mono (Nat.le_add_right depth 2)
  · cases r with
    | inline s => exact (h.describe text).mono (Nat.le_add_right depth 2)
    | ref target =>
      refine .inline List.nodup_nil (fun r hr => ?_) nofun nofun
      obtain rfl : r = .ref target := by simpa [Schema.parts, Schema.empty] using hr
      exact h

end Sound

/-! ## Types -/

variable {c : Conventions} {ctx : Context} {d : Definition} {ds : List Definition}

theorem sound_int32 : Sound 2 int32 := .scalar _

theorem sound_int64 : Sound 2 int64 := .scalar _

theorem sound_boolean : Sound 2 boolean := .ofType _

theorem sound_string : Sound 2 string := .ofType _

theorem sound_sortSchema : Sound 4 (.inline sortSchema) :=
  .object (by simp [sound_boolean])

theorem sound_orderSchema : Sound 4 (.inline orderSchema) :=
  .object (by simp [sound_string])

theorem sound_ordersSchema : Sound 6 ordersSchema :=
  sound_orderSchema.array

theorem sound_carrier {path : String} {s : Schema} (h : carrierSchema? c path = some s) : Sound 8 (.inline s) := by
  have hint : Sound 6 int32 := sound_int32.mono (by decide)
  have hstring : Sound 6 string := sound_string.mono (by decide)
  have hsort : Sound 6 (.inline sortSchema) := sound_sortSchema.mono (by decide)
  unfold carrierSchema? at h
  repeat' split at h
  all_goals cases h
  · exact sound_sortSchema.mono (by decide)
  · exact sound_orderSchema.mono (by decide)
  · exact .object (by simp [hint, hsort])
  · exact .object (by simp [hint, hstring, sound_ordersSchema])

theorem sound_contentSchema (c : Conventions) (path : String) : Sound 8 (contentSchema c path) := by
  unfold contentSchema
  split
  · exact (Sound.scalar _).mono (by decide)
  · cases hc : carrierSchema? c path with
    | some s => exact sound_carrier hc
    | none => exact (Sound.component _).mono (by decide)

theorem sound_pageSchema (kind : PageKind) {content : SchemaRef} (h : Sound 8 content) (label : String) :
    Sound schemaLevels (.inline (pageSchema kind content label)) := by
  have hint32 : Sound 10 int32 := sound_int32.mono (by decide)
  have hint64 : Sound 10 int64 := sound_int64.mono (by decide)
  have hboolean : Sound 10 boolean := sound_boolean.mono (by decide)
  have hstring : Sound 10 string := sound_string.mono (by decide)
  have hsort : Sound 10 (.inline sortSchema) := sound_sortSchema.mono (by decide)
  have horders : Sound 10 ordersSchema := sound_ordersSchema.mono (by decide)
  have hrows := h.array
  cases kind with
  | spring => exact .describe (.object (by simp [hint32, hint64, hboolean, hsort, hrows])) _
  | xpage => exact .describe (.object (by simp [hint32, hint64, hboolean, hstring, horders, hrows])) _

theorem sound_fieldSchema (c : Conventions) (f : Field) : Sound 10 (fieldSchema c f) := by
  have hcontent := sound_contentSchema c f.classPath
  unfold fieldSchema
  split
  · exact ((Sound.scalar _).describe _).mono (by decide)
  · exact hcontent.array.describe _
  · exact ((Sound.component _).describe_ref _).mono (by decide)
  · exact hcontent.describe_ref _

theorem sound_modelSchema (c : Conventions) (m : Model) : Sound schemaLevels (.inline (modelSchema c m)) := by
  unfold modelSchema
  split
  · exact ((Sound.enumeration _).describe _).mono (by decide)
  · have hobject : Sound 12 (.inline (Schema.object (m.fields.map fun f => (f.name, fieldSchema c f)))) := by
      refine .object fun p hp => ?_
      obtain ⟨f, -, rfl⟩ := List.mem_map.1 hp
      exact sound_fieldSchema c f
    exact (hobject.describe _).congr rfl rfl rfl rfl rfl

theorem Owner.sound_schema (c : Conventions) (models : Models) (o : Owner) :
    Sound schemaLevels (.inline (o.schema c models)) := by
  cases o with
  | model path =>
    rw [Owner.schema]
    cases models.get? path with
    | some m => exact sound_modelSchema c m
    | none => exact (Sound.ofType "object").mono (by decide)
  | page kind path => exact sound_pageSchema kind (sound_contentSchema c path) _

/-! ## Parameters -/

/-- Whether the declared default of a parameter is lost: it stands for no finite number where one is wanted. -/
def LosesDefault (ctx : Context) (p : ApiDocs.Parameter) : Prop :=
  p.isEnum = false ∧ ctx.conventions.isScalar p.classPath = true ∧ (Scalar.schemaOf p.classPath).type = "number" ∧
    ∃ text, p.defaultValue = some text ∧ Literal.number? text = some .null

/-- The schema of an element has no parts and the declared default, or is that of its class. -/
theorem elementSchema_cases (ctx : Context) (p : ApiDocs.Parameter) :
    (∃ s : Schema, elementSchema ctx p = .inline s ∧ s.Spells 0 ∧ s.parts = [] ∧
        (s.defaultValue = some .null ↔ LosesDefault ctx p)) ∨
      elementSchema ctx p = contentSchema ctx.conventions p.classPath ∧ ¬ LosesDefault ctx p := by
  unfold elementSchema LosesDefault
  cases he : p.isEnum with
  | true =>
    refine .inl ⟨_, if_pos rfl, ⟨List.nodup_nil, nofun, by simp [enumeration], fun v hv => ?_⟩, rfl, by simp⟩
    obtain ⟨text, -, rfl⟩ := Option.map_eq_some_iff.1 hv
    exact .str text
  | false =>
    rw [if_neg nofun]
    cases hs : ctx.conventions.isScalar p.classPath with
    | true =>
      refine .inl ⟨_, if_pos rfl, ⟨List.nodup_nil, nofun, nofun, fun v hv => ?_⟩, rfl, ?_⟩
      · obtain ⟨text, -, rfl⟩ := Option.map_eq_some_iff.1 hv
        exact Literal.within_valueOf _ text
      · -- Of all literals only a number that is not finite is null.
        simp only [Option.map_eq_some_iff, Literal.valueOf_eq_null_iff, true_and]
        constructor
        · rintro ⟨text, ht, hn, hnull⟩
          exact ⟨hn, text, ht, hnull⟩
        · rintro ⟨hn, text, ht, hnull⟩
          exact ⟨text, ht, hn, hnull⟩
    | false => exact .inr ⟨if_neg nofun, by simp⟩

theorem restores_parameterSchema (ctx : Context) (p : ApiDocs.Parameter) :
    Restores (parameterSchema ctx p) (parameterSchema ctx p).reread := by
  rw [parameterSchema]
  rcases elementSchema_cases ctx p with ⟨s, hs, hspells, hparts, -⟩ | ⟨hs, -⟩
  · rw [hs]
    exact restores_listed hspells hparts p.isArray
  · have hsound := (sound_contentSchema ctx.conventions p.classPath).listed p.isArray
    rw [hs, hsound.reread]
    exact (hsound.mono (by decide)).restores

/-- Nothing but a default that is lost is different. -/
theorem reread_parameterSchema_iff (ctx : Context) (p : ApiDocs.Parameter) :
    (parameterSchema ctx p).reread = parameterSchema ctx p ↔ ¬ LosesDefault ctx p := by
  rw [parameterSchema]
  rcases elementSchema_cases ctx p with ⟨s, hs, -, hparts, hnull⟩ | ⟨hs, hkept⟩
  · rw [hs, reread_listed_iff hparts, Ne, hnull]
  · rw [hs]
    exact iff_of_true ((sound_contentSchema ctx.conventions p.classPath).listed p.isArray).reread hkept

/-- A header is sent as a text, and so is its default. -/
theorem sound_headerParameter (h : Header) : Sound 2 (headerParameter h).schema := by
  refine .leaf rfl rfl rfl rfl fun v hv => ?_
  obtain ⟨text, -, rfl⟩ := Option.map_eq_some_iff.1 hv
  exact ⟨.str text, nofun⟩

theorem sound_pagingParameters : ∀ p ∈ pagingParameters, Sound 2 p.schema := by
  intro p hp
  have hint : ∀ i : Int, Fits i → ∀ name description, Sound 2 (pagingParameter name description i).schema :=
    fun i hi name description => .leaf rfl rfl rfl rfl fun v hv => by
      cases hv
      exact ⟨.int hi, nofun⟩
  simp only [pagingParameters, List.mem_cons, List.not_mem_nil, or_false] at hp
  rcases hp with rfl | rfl
  · exact hint 10 (by simp [Fits]) _ _
  · exact hint 1 (by simp [Fits]) _ _

/-! ## Operations -/

/-- A parameter of an operation has the schema of one that is declared, or a sound one. -/
theorem schema_of_mem_parameters {p : Parameter} (hp : p ∈ (operationOf ctx d).parameters) :
    (∃ q ∈ d.parameters, IsListed ctx q ∧ p.schema = parameterSchema ctx q) ∨ Sound 2 p.schema := by
  simp only [operationOf, List.mem_append, List.mem_map, List.mem_flatMap] at hp
  rcases hp with (⟨q, hq, rfl⟩ | ⟨q, hq, hp⟩) | ⟨h, -, rfl⟩
  · obtain ⟨hq, hl⟩ := mem_parametersIn.1 hq
    exact .inl ⟨q, hq, .inl hl, rfl⟩
  · obtain ⟨hq, hl⟩ := mem_parametersIn.1 hq
    unfold queryParameters isPagingRequest at hp
    split at hp
    case isTrue => exact .inr (sound_pagingParameters p hp)
    case isFalse hx =>
      obtain rfl := List.mem_singleton.1 hp
      exact .inl ⟨q, hq, .inr ⟨hl, by simpa using hx⟩, rfl⟩
  · exact .inr (sound_headerParameter h)

/-- Every parameter that is listed is one of the operation. -/
theorem exists_parameter {q : ApiDocs.Parameter} (hq : q ∈ d.parameters) (hl : IsListed ctx q) :
    ∃ p ∈ (operationOf ctx d).parameters, p.schema = parameterSchema ctx q := by
  simp only [operationOf, List.mem_append, List.mem_map, List.mem_flatMap]
  rcases hl with hl | ⟨hl, hx⟩
  · exact ⟨_, .inl (.inl ⟨q, mem_parametersIn.2 ⟨hq, hl⟩, rfl⟩), rfl⟩
  · refine ⟨⟨q.name, "query", shown q.description, !q.isOptional, parameterSchema ctx q⟩,
      .inl (.inr ⟨q, mem_parametersIn.2 ⟨hq, hl⟩, ?_⟩), rfl⟩
    have hb : isPagingRequest ctx q = false := by simpa [isPagingRequest] using hx
    rw [queryParameters, hb]
    exact List.mem_singleton_self _

theorem sound_json {r : SchemaRef} (h : Sound schemaLevels r) : (Content.json r).Sound := by
  intro e he
  obtain rfl := List.mem_singleton.1 he
  exact h

theorem sound_returnSchema (shape : ReturnShape) (path : String) :
    Sound schemaLevels (returnSchema ctx shape path) := by
  have hcontent := sound_contentSchema ctx.conventions path
  cases shape with
  | plain => exact hcontent.mono (by decide)
  | array => exact hcontent.array.mono (by decide)
  | paged kind => exact (Sound.component _).mono (by decide)

theorem sound_responseContent (code : String) : (responseContent ctx d code).Sound := by
  have hempty : Content.Sound Keyed.empty := nofun
  unfold responseContent
  split
  · split
    · exact sound_json (sound_returnSchema _ _)
    · exact hempty
  · exact hempty

theorem sound_operationOf (ctx : Context) (d : Definition) : (operationOf ctx d).Sound where
  parameters := by
    intro p hp
    rcases schema_of_mem_parameters hp with ⟨q, -, -, hq⟩ | hsound
    · rw [hq]
      exact restores_parameterSchema ctx q
    · rw [hsound.reread]
      exact (hsound.mono (by decide)).restores
  body := by
    intro b hb
    obtain ⟨p, -, rfl⟩ := Option.map_eq_some_iff.1 hb
    exact sound_json (((sound_contentSchema _ _).listed _).mono (by decide))
  responses := by
    intro e he
    obtain ⟨r, -, rfl⟩ := List.mem_map.1 (Keyed.mem_of_mem_ofList he)
    exact sound_responseContent r.1

theorem Operation.reread_eq_self_iff {o : Operation} : o.reread = o ↔ ∀ p ∈ o.parameters, p.schema.reread = p.schema := by
  have hparameters : o.reread = o ↔ o.parameters.map Parameter.reread = o.parameters.map fun p => p := by
    rw [List.map_id']
    exact ⟨congrArg Operation.parameters, fun h => by rw [Operation.reread, h]⟩
  rw [hparameters, List.map_inj_left]
  refine forall₂_congr fun p _ => ⟨congrArg Parameter.schema, fun h => ?_⟩
  rw [Parameter.reread, h]

theorem reread_operationOf_iff : (operationOf ctx d).reread = operationOf ctx d ↔
    ∀ q ∈ d.parameters, IsListed ctx q → ¬ LosesDefault ctx q := by
  rw [Operation.reread_eq_self_iff]
  constructor
  · intro h q hq hl
    obtain ⟨p, hp, hschema⟩ := exists_parameter hq hl
    have hp := h p hp
    rwa [hschema, reread_parameterSchema_iff] at hp
  · intro h p hp
    rcases schema_of_mem_parameters hp with ⟨q, hq, hl, hschema⟩ | hsound
    · rw [hschema, reread_parameterSchema_iff]
      exact h q hq hl
    · exact hsound.reread

/-! ## Documents -/

/-- The operations of a rendered document are those of the definitions. -/
theorem operation_of_render {doc : Document} (h : render ctx ds = .ok doc) {e : String × PathItem}
    (he : e ∈ doc.paths.entries) {m : Method} {o : Operation} (ho : e.2.operation? m = some o) :
    ∃ d ∈ ds, o = operationOf ctx d := by
  obtain ⟨-, -, draft, claims, rfl, hwritten, -, -⟩ := render_ok h
  exact hwritten.operations e.1 e.2 m o (Keyed.mem_entries_iff.1 he) ho

theorem sound_render {doc : Document} (h : render ctx ds = .ok doc) : doc.Sound where
  operations := by
    intro e he m o ho
    obtain ⟨d, -, rfl⟩ := operation_of_render h he ho
    exact sound_operationOf ctx d
  components := by
    intro e he
    obtain ⟨-, -, draft, claims, rfl, -, hnamed, -⟩ := render_ok h
    obtain ⟨o, -, -, hs⟩ := (get?_schemas hnamed).1 (Sorted.mem_entries_iff.1 he)
    rw [hs]
    exact o.sound_schema ctx.conventions ctx.models

theorem PathItem.ext_operation? {p p' : PathItem} (h : ∀ m, p.operation? m = p'.operation? m) : p = p' := by
  obtain ⟨get, post, put, patch, delete, head, options⟩ := p
  obtain ⟨get', post', put', patch', delete', head', options'⟩ := p'
  obtain rfl : get = get' := h .get
  obtain rfl : post = post' := h .post
  obtain rfl : put = put' := h .put
  obtain rfl : patch = patch' := h .patch
  obtain rfl : delete = delete' := h .delete
  obtain rfl : head = head' := h .head
  obtain rfl : options = options' := h .options
  rfl

theorem PathItem.reread_eq_self_iff {p : PathItem} : p.reread = p ↔ ∀ m, ∀ o ∈ p.operation? m, o.reread = o := by
  have hoption : ∀ o? : Option Operation, o?.map Operation.reread = o? ↔ ∀ o ∈ o?, o.reread = o := by
    intro o?
    cases o? <;> simp
  simp only [← hoption, ← operation?_reread]
  exact ⟨fun h m => by rw [h], PathItem.ext_operation?⟩

theorem parse?_of_render {doc : Document} (h : render ctx ds = .ok doc) :
    parse? Document.ofNode doc.toJson.pretty = some doc.reread := by
  have hsound := sound_render h
  exact parse?_pretty ((Document.within_toJson hsound).mono (by decide)) (Document.ofNode_toJson hsound)

theorem reread_of_render_iff {doc : Document} (h : render ctx ds = .ok doc) :
    doc.reread = doc ↔ ∀ d ∈ ds, ∀ p ∈ d.parameters, IsListed ctx p → ¬ LosesDefault ctx p := by
  have hpaths : doc.reread = doc ↔ doc.paths.map PathItem.reread = doc.paths :=
    ⟨congrArg Document.paths, fun h => by rw [Document.reread, h]⟩
  rw [hpaths, Keyed.map_eq_self_iff]
  constructor
  · -- Each definition has its operation in the document, so what its parameters lose is seen there.
    intro hself d hd
    obtain ⟨m, -, ho⟩ := operationAt_render h hd
    obtain ⟨item, hitem, ho⟩ := Option.bind_eq_some_iff.1 ho
    have hitem := hself _ (Keyed.mem_entries_iff.2 hitem)
    exact reread_operationOf_iff.1 (PathItem.reread_eq_self_iff.1 hitem m _ ho)
  · intro hkept e he
    refine PathItem.reread_eq_self_iff.2 fun m o ho => ?_
    obtain ⟨d, hd, rfl⟩ := operation_of_render h he ho
    exact reread_operationOf_iff.2 (hkept d hd)

/-- A rendered document is read back from its text as it was, but without defaults that are null; so it is read back
as it was exactly if no listed parameter loses its default. -/
theorem render_reread {ctx : Context} {ds : List Definition} {doc : Document} (h : render ctx ds = .ok doc) :
    parse? Document.ofNode doc.toJson.pretty = some doc.reread ∧
      (parse? Document.ofNode doc.toJson.pretty = some doc ↔
        ∀ d ∈ ds, ∀ p ∈ d.parameters, IsListed ctx p → ¬ LosesDefault ctx p) := by
  refine ⟨parse?_of_render h, ?_⟩
  rw [parse?_of_render h, Option.some.injEq]
  exact reread_of_render_iff h

/-- A definition with a number in its query, which has a default. -/
def limited (value : String) : Definition :=
  { returning "GET" "/orders" "a.Order" .array with
    parameters := [⟨"limit", "Double", "java.lang.Double", "", true, some value, .query, false, false⟩] }

theorem limited_reread : ∃ doc, render shop [limited "0.5"] = .ok doc ∧
    parse? Document.ofNode doc.toJson.pretty = some doc := by
  have hnumber : Literal.number? "0.5" = some (.float ⟨false, 5, -1⟩) := rfl
  have hok : (render shop [limited "0.5"]).toOption.isSome = true := by decide
  obtain ⟨doc, hdoc⟩ := exists_document hok
  refine ⟨doc, hdoc, (render_reread hdoc).2.2 ?_⟩
  rintro d hd p hp - ⟨-, -, -, text, htext, hnull⟩
  obtain rfl := List.mem_singleton.1 hd
  obtain rfl := List.mem_singleton.1 hp
  cases htext
  rw [hnumber] at hnull
  cases hnull

/-- A default that spells no finite number is written as null, and not read again. -/
theorem notFinite_lost : ¬ ∀ (ctx : Context) (ds : List Definition) (doc : Document), render ctx ds = .ok doc →
    parse? Document.ofNode doc.toJson.pretty = some doc := by
  intro hall
  have hok : (render shop [limited "NaN"]).toOption.isSome = true := by decide
  obtain ⟨doc, hdoc⟩ := exists_document hok
  have hread := hall shop [limited "NaN"] doc hdoc
  rw [parse?_of_render hdoc, Option.some.injEq, reread_of_render_iff hdoc] at hread
  refine hread _ (List.mem_singleton_self _) _ (List.mem_singleton_self _) (.inr ⟨rfl, by decide⟩) ?_
  exact ⟨rfl, by decide, by decide, "NaN", rfl, rfl⟩

end ApiDocs.OpenApi
