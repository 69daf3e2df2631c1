import ApiDocs.Proofs.OpenApi.Render
/-!
# References of a document

Every reference in a document, at any depth, is to one of its components, and the components are
those of the reached owners. What a schema refers to is found constructor by constructor in
`Mentions`; that it is an owner that was reached follows from how each schema is put together.
-/
namespace ApiDocs.OpenApi

/-- The targets that a schema refers to, at any depth. -/
inductive Mentions (target : String) : SchemaRef → Prop
  | here : Mentions target (.ref target)
  | property {s : Schema} {name r} : (name, r) ∈ s.properties → Mentions target r → Mentions target (.inline s)
  | items {s : Schema} {r} : s.items = some r → Mentions target r → Mentions target (.inline s)
  | allOf {s : Schema} {r} : r ∈ s.allOf → Mentions target r → Mentions target (.inline s)

/-- Whether an operation stands under some path and method. -/
def Document.HasOperation (doc : Document) (op : Operation) : Prop :=
  ∃ path item m, doc.paths.get? path = some item ∧ item.operation? m = some op

/-- The targets that a document refers to: in the parameters, bodies and responses of its operations,
and in its components. -/
inductive Document.Refers (doc : Document) (target : String) : Prop
  | parameter {op p} : doc.HasOperation op → p ∈ op.parameters → Mentions target p.schema → doc.Refers target
  | body {op b media s} : doc.HasOperation op → op.body = some b → (media, s) ∈ b.content.entries →
      Mentions target s → doc.Refers target
  | response {op code r media s} : doc.HasOperation op → (code, r) ∈ op.responses.entries →
      (media, s) ∈ r.content.entries → Mentions target s → doc.Refers target
  | component {name s} : (name, s) ∈ doc.components.schemas.entries → Mentions target (.inline s) →
      doc.Refers target

variable {t : String}

/-! ## Schemas -/

@[simp] theorem mentions_ref {target : String} : Mentions t (.ref target) ↔ t = target := by
  refine ⟨fun h => ?_, fun h => h ▸ .here⟩
  cases h
  rfl

theorem mentions_inline {s : Schema} :
    Mentions t (.inline s) ↔ (∃ p ∈ s.properties, Mentions t p.2) ∨ (∃ r, s.items = some r ∧ Mentions t r) ∨
      ∃ r ∈ s.allOf, Mentions t r := by
  refine ⟨fun h => ?_, ?_⟩
  · cases h with
    | property hp hm => exact .inl ⟨_, hp, hm⟩
    | items hi hm => exact .inr (.inl ⟨_, hi, hm⟩)
    | allOf ha hm => exact .inr (.inr ⟨_, ha, hm⟩)
  · rintro (⟨p, hp, hm⟩ | ⟨r, hi, hm⟩ | ⟨r, ha, hm⟩)
    · exact .property hp hm
    · exact .items hi hm
    · exact .allOf ha hm

/-- Schemas with the same parts mention the same. -/
theorem mentions_congr {s s' : Schema} (hp : s'.properties = s.properties) (hi : s'.items = s.items)
    (ha : s'.allOf = s.allOf) : Mentions t (.inline s') ↔ Mentions t (.inline s) := by
  rw [mentions_inline, mentions_inline, hp, hi, ha]

theorem mentions_required {s : Schema} {names : List String} :
    Mentions t (.inline { s with required := names }) ↔ Mentions t (.inline s) :=
  mentions_congr rfl rfl rfl

/-- A schema without parts mentions nothing. -/
theorem not_mentions {s : Schema} (hp : s.properties = []) (hi : s.items = none) (ha : s.allOf = []) :
    ¬ Mentions t (.inline s) := by
  simp [mentions_inline, hp, hi, ha]

@[simp] theorem mentions_describe {s : Schema} {text : String} :
    Mentions t (.inline (s.describe text)) ↔ Mentions t (.inline s) := by
  unfold Schema.describe
  split
  · rfl
  · exact mentions_congr rfl rfl rfl

@[simp] theorem mentions_describe_ref {r : SchemaRef} {text : String} :
    Mentions t (r.describe text) ↔ Mentions t r := by
  unfold SchemaRef.describe
  split
  · rfl
  · cases r with
    | inline s => exact mentions_describe
    | ref target => simp [mentions_inline, Schema.empty]

@[simp] theorem mentions_array {r : SchemaRef} : Mentions t (.inline (Schema.array r)) ↔ Mentions t r := by
  simp [mentions_inline, Schema.array, Schema.empty]

@[simp] theorem mentions_listed {r : SchemaRef} {isArray : Bool} :
    Mentions t (r.listed isArray) ↔ Mentions t r := by
  cases isArray <;> simp [SchemaRef.listed]

/-- An object mentions what its properties do. -/
theorem mentions_object {properties : List (String × SchemaRef)}
    (h : Mentions t (.inline (Schema.object properties))) : ∃ p ∈ properties, Mentions t p.2 := by
  rcases mentions_inline.1 h with ⟨p, hp, hm⟩ | ⟨r, hi, -⟩ | ⟨r, ha, -⟩
  · rcases Pairs.mem_foldl_put hp with hp | hp
    · cases hp
    · exact ⟨p, hp, hm⟩
  · cases hi
  · cases ha

/-! ## Types -/

variable {c : Conventions} {ctx : Context} {d : Definition} {ds : List Definition}

@[simp] theorem not_mentions_int32 : ¬ Mentions t int32 := not_mentions rfl rfl rfl

@[simp] theorem not_mentions_int64 : ¬ Mentions t int64 := not_mentions rfl rfl rfl

@[simp] theorem not_mentions_boolean : ¬ Mentions t boolean := not_mentions rfl rfl rfl

@[simp] theorem not_mentions_string : ¬ Mentions t string := not_mentions rfl rfl rfl

@[simp] theorem not_mentions_sortSchema : ¬ Mentions t (.inline sortSchema) := fun h => by
  simpa using mentions_object h

@[simp] theorem not_mentions_orderSchema : ¬ Mentions t (.inline orderSchema) := fun h => by
  simpa using mentions_object h

@[simp] theorem not_mentions_ordersSchema : ¬ Mentions t ordersSchema := by
  simp [ordersSchema]

/-- A page mentions what its content does. -/
theorem mentions_pageSchema {kind : PageKind} {content : SchemaRef} {label : String}
    (h : Mentions t (.inline (pageSchema kind content label))) : Mentions t content := by
  cases kind with
  | spring | xpage =>
    rw [pageSchema, mentions_describe] at h
    simpa using mentions_object h

theorem not_mentions_carrier {path : String} {s : Schema} (h : carrierSchema? c path = some s) :
    ¬ Mentions t (.inline s) := by
  unfold carrierSchema? at h
  repeat' split at h
  all_goals cases h
  · exact not_mentions_sortSchema
  · exact not_mentions_orderSchema
  · exact fun hm => by simpa using mentions_object hm
  · exact fun hm => by simpa using mentions_object hm

theorem mentions_contentSchema {path : String} (h : Mentions t (contentSchema c path)) :
    IsComponent c path ∧ t = componentPath (Owner.model path).name := by
  unfold contentSchema at h
  cases hs : c.isScalar path with
  | true =>
    rw [hs] at h
    exact absurd h (not_mentions rfl rfl rfl)
  | false =>
    simp only [hs, Bool.false_eq_true, if_false] at h
    cases hc : carrierSchema? c path with
    | some s =>
      rw [hc] at h
      exact absurd h (not_mentions_carrier hc)
    | none =>
      rw [hc] at h
      exact ⟨⟨hs, carrierSchema?_eq_none_iff.1 hc⟩, mentions_ref.1 h⟩

theorem mentions_fieldSchema {f : Field} (h : Mentions t (fieldSchema c f)) :
    ∃ o, Held c f o ∧ t = componentPath o.name := by
  unfold fieldSchema at h
  cases hk : f.kind with
  | scalar name =>
    rw [hk] at h
    exact absurd (mentions_describe.1 h) (not_mentions rfl rfl rfl)
  | array =>
    simp only [hk, mentions_describe, mentions_array] at h
    obtain ⟨hc, rfl⟩ := mentions_contentSchema h
    exact ⟨_, .content (by rw [hk]; rfl) hc, rfl⟩
  | object | enum =>
    cases hp : f.page with
    | none =>
      simp only [hk, hp, mentions_describe_ref] at h
      obtain ⟨hc, rfl⟩ := mentions_contentSchema h
      exact ⟨_, .content (by rw [hk]; rfl) hc, rfl⟩
    | some kind =>
      simp only [hk, hp, mentions_describe_ref] at h
      exact ⟨_, .page (by rw [hk]; rfl) (by simp [hk]) hp, mentions_ref.1 h⟩

theorem mentions_modelSchema {m : Model} (h : Mentions t (.inline (modelSchema c m))) :
    m.isEnum = false ∧ ∃ f ∈ m.fields, ∃ o, Held c f o ∧ t = componentPath o.name := by
  unfold modelSchema at h
  cases he : m.isEnum with
  | true =>
    rw [he] at h
    exact absurd (mentions_describe.1 h) (not_mentions rfl rfl rfl)
  | false =>
    simp only [he, Bool.false_eq_true, if_false] at h
    obtain ⟨p, hp, hm⟩ := mentions_object (mentions_describe.1 (mentions_required.1 h))
    obtain ⟨f, hf, rfl⟩ := List.mem_map.1 hp
    exact ⟨rfl, f, hf, mentions_fieldSchema hm⟩

/-- The schema of a reached owner refers to reached owners. -/
theorem Reached.mentions {o : Owner} (h : Reached ctx ds o)
    (hm : Mentions t (.inline (o.schema ctx.conventions ctx.models))) :
    ∃ p, Reached ctx ds p ∧ t = componentPath p.name := by
  cases o with
  | model path =>
    unfold Owner.schema at hm
    cases hg : ctx.models.get? path with
    | none =>
      simp only [hg] at hm
      exact absurd hm (not_mentions rfl rfl rfl)
    | some m =>
      simp only [hg] at hm
      obtain ⟨he, f, hf, o, hh, rfl⟩ := mentions_modelSchema hm
      exact ⟨o, .field h hg he hf hh, rfl⟩
  | page kind path =>
    obtain ⟨hc, rfl⟩ := mentions_contentSchema (mentions_pageSchema hm)
    exact ⟨_, h.content hc, rfl⟩

/-! ## Operations -/

/-- The schema of a listed parameter mentions what the operation refers to. -/
theorem mentions_parameterSchema {p : ApiDocs.Parameter} (hp : p ∈ d.parameters) (hl : IsListed ctx p)
    (h : Mentions t (parameterSchema ctx p)) : ∃ o, Referred ctx d o ∧ t = componentPath o.name := by
  rw [parameterSchema, mentions_listed] at h
  unfold elementSchema at h
  cases he : p.isEnum with
  | true =>
    rw [he] at h
    exact absurd h (not_mentions rfl rfl rfl)
  | false =>
    simp only [he, Bool.false_eq_true, if_false] at h
    split at h
    · exact absurd h (not_mentions rfl rfl rfl)
    · obtain ⟨hc, rfl⟩ := mentions_contentSchema h
      exact ⟨_, .parameter hp hl he hc, rfl⟩

theorem mentions_parameter {p : Parameter} (hp : p ∈ (operationOf ctx d).parameters) (h : Mentions t p.schema) :
    ∃ o, Referred ctx d o ∧ t = componentPath o.name := by
  simp only [operationOf, List.mem_append, List.mem_map, List.mem_flatMap] at hp
  rcases hp with (⟨q, hq, rfl⟩ | ⟨q, hq, hp⟩) | ⟨q, hq, rfl⟩
  · obtain ⟨hq, hl⟩ := mem_parametersIn.1 hq
    exact mentions_parameterSchema hq (.inl hl) h
  · obtain ⟨hq, hl⟩ := mem_parametersIn.1 hq
    unfold queryParameters isPagingRequest at hp
    by_cases hx : q.classPath = ctx.conventions.xpageNation
    · simp only [hx, beq_self_eq_true, if_true, pagingParameters, List.mem_cons, List.not_mem_nil, or_false] at hp
      rcases hp with rfl | rfl
      · exact absurd h (not_mentions rfl rfl rfl)
      · exact absurd h (not_mentions rfl rfl rfl)
    · have hb : (q.classPath == ctx.conventions.xpageNation) = false := by simpa using hx
      simp only [hb, Bool.false_eq_true, if_false, List.mem_singleton] at hp
      subst hp
      exact mentions_parameterSchema hq (.inr ⟨hl, hx⟩) h
  · exact absurd h (not_mentions rfl rfl rfl)

theorem mentions_json {r s : SchemaRef} {media : String} (h : (media, s) ∈ (Content.json r).entries)
    (hm : Mentions t s) : Mentions t r := by
  have he : (media, s) = ("application/json", r) := List.mem_singleton.1 h
  obtain ⟨-, rfl⟩ := Prod.mk.injEq .. ▸ he
  exact hm

theorem mentions_body {b : RequestBody} (hb : (operationOf ctx d).body = some b) {media : String} {s : SchemaRef}
    (hs : (media, s) ∈ b.content.entries) (h : Mentions t s) :
    ∃ o, Referred ctx d o ∧ t = componentPath o.name := by
  obtain ⟨p, hp, rfl⟩ := Option.map_eq_some_iff.1 hb
  obtain ⟨hc, rfl⟩ := mentions_contentSchema (mentions_listed.1 (mentions_json hs h))
  exact ⟨_, .body hp hc, rfl⟩

theorem mentions_returnSchema {path : String} (hr : Returns d path)
    (h : Mentions t (returnSchema ctx d.returnShape path)) :
    ∃ o, Referred ctx d o ∧ t = componentPath o.name := by
  cases hs : d.returnShape with
  | plain =>
    rw [hs] at h
    obtain ⟨hc, rfl⟩ := mentions_contentSchema h
    exact ⟨_, .returned hr hc, rfl⟩
  | array =>
    rw [hs] at h
    obtain ⟨hc, rfl⟩ := mentions_contentSchema (mentions_array.1 h)
    exact ⟨_, .returned hr hc, rfl⟩
  | paged kind =>
    rw [hs] at h
    exact ⟨_, .page hr hs, mentions_ref.1 h⟩

theorem mentions_response {code : String} {r : Response} (hr : (code, r) ∈ (operationOf ctx d).responses.entries)
    {media : String} {s : SchemaRef} (hs : (media, s) ∈ r.content.entries) (h : Mentions t s) :
    ∃ o, Referred ctx d o ∧ t = componentPath o.name := by
  obtain ⟨⟨code, description⟩, hcode, he⟩ := List.mem_map.1 (Keyed.mem_of_mem_ofList hr)
  obtain ⟨rfl, rfl⟩ := Prod.mk.injEq .. ▸ he
  unfold responseContent at hs
  cases hp : d.returnClass with
  | none => simp [hp, Keyed.empty] at hs
  | some path =>
    simp only [hp] at hs
    split at hs
    case isTrue hsucc =>
      exact mentions_returnSchema ⟨hp, _, hcode, hsucc⟩ (mentions_json hs h)
    case isFalse => cases hs

/-! ## Documents -/

/-- In the component schemas every owner has its own schema under its name, and nothing else is. -/
theorem get?_schemas {claims : Claims} {models : Models} (hn : (claims.owners.map Owner.name).Nodup)
    {name : String} {s : Schema} : (claims.schemas c models).get? name = some s ↔
      ∃ o ∈ claims.owners, o.name = name ∧ s = o.schema c models := by
  have hkeys : (Pairs.keys (claims.owners.map fun o => (o.name, o.schema c models))).Nodup := by
    simpa [Pairs.keys, Function.comp_def] using hn
  rw [Claims.schemas, Sorted.get?_ofList hkeys, Pairs.get?_eq_some_iff hkeys]
  simp [eq_comm]

/-- Component schemas depend on which owners there are, not on the order of their claims. -/
theorem schemas_congr {claims claims' : Claims} {models models' : Models}
    (hn : (claims.owners.map Owner.name).Nodup) (hn' : (claims'.owners.map Owner.name).Nodup)
    (ho : ∀ o, o ∈ claims'.owners ↔ o ∈ claims.owners) (hm : ∀ path, models'.get? path = models.get? path) :
    claims'.schemas c models' = claims.schemas c models := by
  have hsame : ∀ o : Owner, o.schema c models' = o.schema c models := by
    intro o
    cases o with
    | model path => rw [Owner.schema, Owner.schema, hm]
    | page kind path => rfl
  refine Sorted.ext_get? fun k => Option.ext fun s => ?_
  rw [get?_schemas hn, get?_schemas hn']
  simp only [ho, hsame]

/-- What an operation requires is declared. -/
theorem security_declared {r : Requirement} (hr : r ∈ securityOf ctx d) {key : String} (hk : key ∈ r.keys) :
    key ∈ (securitySchemes ctx.service).keys := by
  unfold securityOf at hr
  split at hr
  case isTrue h =>
    obtain ⟨a, ha⟩ := Option.isSome_iff_exists.1 (Bool.and_eq_true_iff.1 h).2
    rw [List.mem_singleton.1 hr] at hk
    have hkey : key = keyScheme := by simpa [Keyed.mem_keys_put] using hk
    simp [securitySchemes, ha, hkey, Keyed.mem_keys_put]
  case isFalse => cases hr

theorem Draft.Written.refers {draft : Draft} {claims : Claims} (h : Draft.Written ctx ds draft)
    (hn : (claims.owners.map Owner.name).Nodup) (hmem : ∀ o, o ∈ claims.owners ↔ Reached ctx ds o)
    (hr : (draft.document ctx claims).Refers t) : ∃ o, Reached ctx ds o ∧ t = componentPath o.name := by
  have hop : ∀ op, (draft.document ctx claims).HasOperation op → ∃ d ∈ ds, op = operationOf ctx d :=
    fun op ⟨path, item, m, hp, hi⟩ => h.operations path item m op hp hi
  cases hr with
  | parameter ho hp hm =>
    obtain ⟨d, hd, rfl⟩ := hop _ ho
    obtain ⟨o, hr, ht⟩ := mentions_parameter hp hm
    exact ⟨o, .operation hd hr, ht⟩
  | body ho hb hs hm =>
    obtain ⟨d, hd, rfl⟩ := hop _ ho
    obtain ⟨o, hr, ht⟩ := mentions_body hb hs hm
    exact ⟨o, .operation hd hr, ht⟩
  | response ho hr hs hm =>
    obtain ⟨d, hd, rfl⟩ := hop _ ho
    obtain ⟨o, hr, ht⟩ := mentions_response hr hs hm
    exact ⟨o, .operation hd hr, ht⟩
  | component hs hm =>
    obtain ⟨o, ho, -, rfl⟩ := (get?_schemas hn).1 (Sorted.mem_entries_iff.1 hs)
    exact ((hmem o).1 ho).mentions hm

/-- The definitions in another order, with the models in another order, make the same components. -/
theorem render_perm {doc : Document} (h : render ctx ds = .ok doc) {ds' : List Definition} {models : Models}
    (hd : ds'.Perm ds) (hm : models.entries.Perm ctx.models.entries) :
    ∃ doc', render { ctx with models := models } ds' = .ok doc' ∧
      doc'.components.schemas = doc.components.schemas := by
  have hget : ∀ path, models.get? path = ctx.models.get? path := Keyed.get?_perm hm
  have hreach : ∀ o, Reached { ctx with models := models } ds' o ↔ Reached ctx ds o := fun o =>
    ⟨fun ho => ho.congr rfl (fun path => (hget path).symm) fun d hd' => hd.subset hd',
      fun ho => ho.congr rfl hget fun d hd' => hd.symm.subset hd'⟩
  obtain ⟨hn, hs, hinj⟩ := render_ok_iff.1 ⟨doc, h⟩
  have hok : ∃ doc', render { ctx with models := models } ds' = .ok doc' := by
    refine render_ok_iff.2 ⟨(hd.map _).nodup_iff.2 hn, fun d hd' => hs d (hd.subset hd'), fun o p ho hp => ?_⟩
    exact hinj o p ((hreach o).1 ho) ((hreach p).1 hp)
  obtain ⟨doc', h'⟩ := hok
  obtain ⟨-, -, draft, claims, rfl, -, hnamed, hmem⟩ := render_ok h
  obtain ⟨-, -, draft', claims', rfl, -, hnamed', hmem'⟩ := render_ok h'
  refine ⟨_, h', ?_⟩
  have howners : ∀ o, o ∈ claims'.owners ↔ o ∈ claims.owners := fun o => by rw [hmem, hmem', hreach]
  exact congrArg keyedOfSorted (schemas_congr hnamed hnamed' howners hget)

/-- A document that is made is closed and holds nothing that is not needed: every reference in it, at
any depth, is to a component; the components are those of the reached owners, in the order of their
names, each with the schema of the one owner of its name; what operations require is declared and how
they are tagged is listed. Neither the order of the definitions nor that of the models changes the
components. -/
theorem render_closed {ctx : Context} {ds : List Definition} {doc : Document} (h : render ctx ds = .ok doc) :
    (∀ target, doc.Refers target → ∃ name ∈ doc.components.schemas.keys, target = componentPath name) ∧
    (∀ name, name ∈ doc.components.schemas.keys ↔ ∃ o, Reached ctx ds o ∧ o.name = name) ∧
    doc.components.schemas.keys.Pairwise (· < ·) ∧
    (∀ o, Reached ctx ds o →
      doc.components.schemas.get? o.name = some (o.schema ctx.conventions ctx.models) ∧
        ∀ p, Reached ctx ds p → p.name = o.name → p = o) ∧
    (∀ op, doc.HasOperation op →
      (∀ r ∈ op.security, ∀ key ∈ r.keys, key ∈ doc.components.securitySchemes.keys) ∧
        ∀ tag ∈ op.tags, tag ∈ doc.tags) ∧
    ∀ (ds' : List Definition) (models : Models), ds'.Perm ds → models.entries.Perm ctx.models.entries →
      ∃ doc', render { ctx with models := models } ds' = .ok doc' ∧
        doc'.components.schemas = doc.components.schemas := by
  have hperm := @render_perm ctx ds doc h
  obtain ⟨-, -, draft, claims, rfl, hwritten, hnamed, hmem⟩ := render_ok h
  have hget : ∀ {name s}, (draft.document ctx claims).components.schemas.get? name = some s ↔
      ∃ o, Reached ctx ds o ∧ o.name = name ∧ s = o.schema ctx.conventions ctx.models := by
    intro name s
    simp only [← hmem]
    exact get?_schemas hnamed
  have hkeys : ∀ name, name ∈ (draft.document ctx claims).components.schemas.keys ↔
      ∃ o, Reached ctx ds o ∧ o.name = name := by
    intro name
    rw [Keyed.mem_keys_iff]
    refine ⟨fun ⟨s, hs⟩ => ?_, fun ⟨o, ho, hn⟩ => ⟨_, hget.2 ⟨o, ho, hn, rfl⟩⟩⟩
    obtain ⟨o, ho, hn, -⟩ := hget.1 hs
    exact ⟨o, ho, hn⟩
  refine ⟨fun target hr => ?_, hkeys, (claims.schemas ctx.conventions ctx.models).ordered, fun o ho => ?_,
    fun op hop => ?_, fun ds' models => hperm⟩
  · obtain ⟨o, ho, ht⟩ := hwritten.refers hnamed hmem hr
    exact ⟨o.name, (hkeys _).2 ⟨o, ho, rfl⟩, ht⟩
  · refine ⟨hget.2 ⟨o, ho, rfl, rfl⟩, fun p hp hn => ?_⟩
    exact List.inj_on_of_nodup_map hnamed ((hmem p).2 hp) ((hmem o).2 ho) hn
  · obtain ⟨path, item, m, hp, hi⟩ := hop
    obtain ⟨d, hd, rfl⟩ := hwritten.operations path item m op hp hi
    refine ⟨fun r hr key => security_declared hr, fun tag ht => ?_⟩
    rw [List.mem_singleton.1 ht]
    exact hwritten.groups d hd

/-- Definitions that return a page of orders, and a user, whose models refer to each other in a circle. -/
def circling : List Definition :=
  [returning "GET" "/orders" "a.Order" (.paged .xpage), returning "GET" "/user" "b.User" .plain]

theorem shop_closed : ∃ doc, render shop circling = .ok doc ∧
    doc.components.schemas.keys = ["Order", "SpringPage_Order", "User", "XPage_Order"] ∧
    ∀ target, doc.Refers target → ∃ name ∈ doc.components.schemas.keys, target = componentPath name := by
  have hkeys : (render shop circling).toOption.map (fun doc => doc.components.schemas.keys) =
      some ["Order", "SpringPage_Order", "User", "XPage_Order"] := by decide
  cases h : render shop circling with
  | error fault =>
    rw [h] at hkeys
    cases hkeys
  | ok doc =>
    rw [h] at hkeys
    exact ⟨doc, rfl, Option.some.inj hkeys, (render_closed h).1⟩

end ApiDocs.OpenApi
