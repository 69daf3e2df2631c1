import ApiDocs.Proofs.Example
import ApiDocs.Proofs.ModelGraph
import ApiDocs.Proofs.OpenApi.Operations
import ApiDocs.Proofs.OpenApi.References
/-!
# Examples conform to schemas

Examples and schemas are made of the same models by two recursions that do not know each other: one
writes classes out in place and stops where a class stands inside itself, the other refers to
components. `Conforms` reads a schema against a value, with the classes whose components the value
stands inside of, and every example is shown to conform by induction on how it was made.
-/
namespace ApiDocs.OpenApi

/-- Whether a value has the form that a schema says, inside the classes of `outer`. -/
inductive Conforms (ctx : Context) (ds : List Definition) (doc : Document) :
    List String → SchemaRef → Json → Prop
  /-- An object has the properties of its schema in their order, and nothing else. -/
  | object {outer} {s : Schema} {members} : s.type = some "object" → s.allOf = [] →
      Pairs.keys members = Pairs.keys s.properties →
      (∀ q ∈ s.properties.zip members, Conforms ctx ds doc outer q.1.2 q.2.2) →
      Conforms ctx ds doc outer (.inline s) (.obj members)
  /-- A list has one element. -/
  | array {outer} {s : Schema} {items v} : s.type = some "array" → s.allOf = [] → s.items = some items →
      Conforms ctx ds doc outer items v → Conforms ctx ds doc outer (.inline s) (.list [v])
  /-- A scalar or a constant is written as a text. -/
  | text {outer} {s : Schema} {type t} : s.type = some type → type ∉ ["object", "array"] → s.allOf = [] →
      Conforms ctx ds doc outer (.inline s) (.str t)
  /-- A described reference is the reference. -/
  | described {outer} {s : Schema} {r v} : s.type = none → s.allOf = [r] → Conforms ctx ds doc outer r v →
      Conforms ctx ds doc outer (.inline s) v
  /-- The component of a page is that of the page wherever it stands. -/
  | page {outer kind path s v} : Reached ctx ds (.page kind path) →
      doc.components.schemas.get? (Owner.page kind path).name = some s →
      Conforms ctx ds doc outer (.inline s) v →
      Conforms ctx ds doc outer (.component (Owner.page kind path).name) v
  /-- A value of the component of a model stands inside the class. -/
  | model {outer path s v} : Reached ctx ds (.model path) →
      doc.components.schemas.get? (Owner.model path).name = some s →
      Conforms ctx ds doc (path :: outer) (.inline s) v →
      Conforms ctx ds doc outer (.component (Owner.model path).name) v
  /-- Inside itself a class is an object without members. -/
  | inside {outer path} : path ∈ outer → Reached ctx ds (.model path) →
      Conforms ctx ds doc outer (.component (Owner.model path).name) (.obj [])

/-- Whether fields with a page are objects, as the fields are that members become. -/
def PagesAreObjects (models : Models) : Prop :=
  ∀ path m, models.get? path = some m → ∀ f ∈ m.fields, f.page.isSome = true → f.kind = .object

variable {ctx : Context} {ds : List Definition} {doc : Document} {outer : List String}

/-! ## Schemas in place -/

/-- A schema only counts with its form. -/
theorem Conforms.congr {s s' : Schema} {v : Json} (h : Conforms ctx ds doc outer (.inline s) v)
    (ht : s'.type = s.type) (hp : s'.properties = s.properties) (hi : s'.items = s.items)
    (ha : s'.allOf = s.allOf) : Conforms ctx ds doc outer (.inline s') v := by
  cases h with
  | object h₁ h₂ h₃ h₄ => exact .object (ht.trans h₁) (ha.trans h₂) (hp ▸ h₃) (hp ▸ h₄)
  | array h₁ h₂ h₃ h₄ => exact .array (ht.trans h₁) (ha.trans h₂) (hi.trans h₃) h₄
  | text h₁ h₂ h₃ => exact .text (ht.trans h₁) h₂ (ha.trans h₃)
  | described h₁ h₂ h₃ => exact .described (ht.trans h₁) (ha.trans h₂) h₃

theorem Conforms.describe {s : Schema} {v : Json} (h : Conforms ctx ds doc outer (.inline s) v) (text : String) :
    Conforms ctx ds doc outer (.inline (s.describe text)) v := by
  unfold Schema.describe
  split
  · exact h
  · exact h.congr rfl rfl rfl rfl

/-- So it is with a reference, which is wrapped to carry the description. -/
theorem Conforms.describe_ref {r : SchemaRef} {v : Json} (h : Conforms ctx ds doc outer r v) (text : String) :
    Conforms ctx ds doc outer (r.describe text) v := by
  unfold SchemaRef.describe
  split
  · exact h
  · cases r with
    | inline s => exact h.describe text
    | ref target => exact .described rfl rfl h

theorem Conforms.listed {r : SchemaRef} {v : Json} (h : Conforms ctx ds doc outer r v) :
    Conforms ctx ds doc outer (.inline (Schema.array r)) (.list [v]) :=
  .array rfl rfl rfl h

/-- Whether members are the values of some properties, in their order. -/
def MembersConform (ctx : Context) (ds : List Definition) (doc : Document) (outer : List String)
    (properties : List (String × SchemaRef)) (members : List (String × Json)) : Prop :=
  Pairs.keys members = Pairs.keys properties ∧
    ∀ q ∈ properties.zip members, Conforms ctx ds doc outer q.1.2 q.2.2

theorem membersConform_nil {members : List (String × Json)} :
    MembersConform ctx ds doc outer [] members ↔ members = [] := by
  simp [MembersConform, Pairs.keys]

theorem membersConform_cons {p : String × SchemaRef} {m : String × Json} {properties : List (String × SchemaRef)}
    {members : List (String × Json)} : MembersConform ctx ds doc outer (p :: properties) (m :: members) ↔
      m.1 = p.1 ∧ Conforms ctx ds doc outer p.2 m.2 ∧ MembersConform ctx ds doc outer properties members := by
  simp only [MembersConform, Pairs.keys, List.map_cons, List.cons.injEq, List.zip_cons_cons, List.forall_mem_cons]
  exact ⟨fun ⟨⟨hk, hks⟩, hm, hms⟩ => ⟨hk, hm, hks, hms⟩, fun ⟨hk, hm, hks, hms⟩ => ⟨⟨hk, hks⟩, hm, hms⟩⟩

theorem MembersConform.exists_cons {p : String × SchemaRef} {properties : List (String × SchemaRef)}
    {members : List (String × Json)} (h : MembersConform ctx ds doc outer (p :: properties) members) :
    ∃ m rest, members = m :: rest := by
  cases members with
  | nil => simp [MembersConform, Pairs.keys] at h
  | cons m rest => exact ⟨m, rest, rfl⟩

theorem membersConform_map {α : Type} {name : α → String} {schema : α → SchemaRef} {value : α → Json} {fs : List α}
    (h : ∀ f ∈ fs, Conforms ctx ds doc outer (schema f) (value f)) :
    MembersConform ctx ds doc outer (fs.map fun f => (name f, schema f)) (fs.map fun f => (name f, value f)) := by
  induction fs with
  | nil => exact membersConform_nil.2 rfl
  | cons f rest ih =>
    obtain ⟨hf, hrest⟩ := List.forall_mem_cons.1 h
    exact membersConform_cons.2 ⟨rfl, hf, ih hrest⟩

/-- A property and its value that are written under one name. -/
theorem MembersConform.put {name : String} {r : SchemaRef} {v : Json} (hv : Conforms ctx ds doc outer r v)
    {properties : List (String × SchemaRef)} : ∀ {members : List (String × Json)},
      MembersConform ctx ds doc outer properties members →
      MembersConform ctx ds doc outer (Pairs.put name r properties) (Pairs.put name v members) := by
  induction properties with
  | nil =>
    intro members h
    rw [membersConform_nil.1 h]
    exact membersConform_cons.2 ⟨rfl, hv, membersConform_nil.2 rfl⟩
  | cons p properties ih =>
    intro members h
    obtain ⟨m, members, rfl⟩ := h.exists_cons
    obtain ⟨hk, hm, h⟩ := membersConform_cons.1 h
    simp only [Pairs.put, hk]
    split
    · exact membersConform_cons.2 ⟨rfl, hv, h⟩
    · exact membersConform_cons.2 ⟨rfl, hm, ih h⟩

/-- A repeated name keeps its place among the properties and among the members, and takes the last
schema and the last value. -/
theorem MembersConform.foldl_put {ps : List (String × SchemaRef)} :
    ∀ {ms : List (String × Json)}, MembersConform ctx ds doc outer ps ms →
      ∀ {properties : List (String × SchemaRef)} {members : List (String × Json)},
        MembersConform ctx ds doc outer properties members →
        MembersConform ctx ds doc outer (ps.foldl (fun taken p => Pairs.put p.1 p.2 taken) properties)
          (ms.foldl (fun taken m => Pairs.put m.1 m.2 taken) members) := by
  induction ps with
  | nil =>
    intro ms hms properties members h
    rw [membersConform_nil.1 hms]
    exact h
  | cons p ps ih =>
    intro ms hms properties members h
    obtain ⟨m, ms, rfl⟩ := hms.exists_cons
    obtain ⟨hk, hm, hms⟩ := membersConform_cons.1 hms
    rw [List.foldl_cons, List.foldl_cons, hk]
    exact ih hms (h.put hm)

/-- An object of some properties is conformed to by the object of their values. -/
theorem MembersConform.objectOf {properties : List (String × SchemaRef)} {members : List (String × Json)}
    (h : MembersConform ctx ds doc outer properties members) :
    Conforms ctx ds doc outer (.inline (Schema.object properties)) (Example.objectOf members) := by
  obtain ⟨hk, hq⟩ := h.foldl_put (membersConform_nil.2 rfl)
  exact .object rfl rfl hk hq

theorem MembersConform.obj {properties : List (String × SchemaRef)} {members : List (String × Json)}
    (hn : (Pairs.keys members).Nodup) (h : MembersConform ctx ds doc outer properties members) :
    Conforms ctx ds doc outer (.inline (Schema.object properties)) (.obj members) := by
  have hobj : Example.objectOf members = .obj members := congrArg Json.obj (Pairs.foldl_put_of_nodup hn)
  exact hobj ▸ h.objectOf

theorem conforms_scalar {s : Scalar.Schema} (hs : s.type ∉ ["object", "array"]) (t : String) :
    Conforms ctx ds doc outer (.inline (Schema.scalar s)) (.str t) :=
  .text rfl hs rfl

theorem conforms_int32 (t : String) : Conforms ctx ds doc outer int32 (.str t) :=
  conforms_scalar (by decide) t

theorem conforms_int64 (t : String) : Conforms ctx ds doc outer int64 (.str t) :=
  conforms_scalar (by decide) t

theorem conforms_boolean (t : String) : Conforms ctx ds doc outer boolean (.str t) :=
  .text rfl (by decide) rfl

theorem conforms_string (t : String) : Conforms ctx ds doc outer string (.str t) :=
  .text rfl (by decide) rfl

/-- No scalar is an object or a list. -/
theorem type_schemaOf (name : String) : (Scalar.schemaOf name).type ∉ ["object", "array"] := by
  unfold Scalar.schemaOf
  split
  case h_1 row hrow =>
    have hall : ∀ row ∈ Scalar.schemaTable, row.2.type ∉ ["object", "array"] := by decide
    exact hall row (List.mem_of_find?_eq_some hrow)
  case h_2 => decide

theorem conforms_sortValue : Conforms ctx ds doc outer (.inline sortSchema) Example.sortValue := by
  refine MembersConform.obj (by decide) ?_
  simp [membersConform_cons, membersConform_nil, conforms_boolean, Example.boolean]

theorem conforms_orderValue : Conforms ctx ds doc outer (.inline orderSchema) Example.orderValue := by
  refine MembersConform.obj (by decide) ?_
  simp [membersConform_cons, membersConform_nil, conforms_string, Example.text]

theorem conforms_orders : Conforms ctx ds doc outer ordersSchema (.list [Example.orderValue]) :=
  conforms_orderValue.listed

theorem conforms_pageValue (kind : PageKind) {content : SchemaRef} {v : Json}
    (h : Conforms ctx ds doc outer content v) (label : String) :
    Conforms ctx ds doc outer (.inline (pageSchema kind content label)) (Example.pageValue kind v) := by
  cases kind with
  | spring =>
    refine Conforms.describe (MembersConform.obj (by simp [Pairs.keys]) ?_) _
    simp [membersConform_cons, membersConform_nil, h.listed, conforms_int32, conforms_int64, conforms_boolean,
      conforms_sortValue, Example.integer, Example.long, Example.boolean]
  | xpage =>
    refine Conforms.describe (MembersConform.obj (by simp [Pairs.keys]) ?_) _
    simp [membersConform_cons, membersConform_nil, h.listed, conforms_int32, conforms_int64, conforms_boolean,
      conforms_string, conforms_orders, Example.integer, Example.long, Example.boolean, Example.text]

/-- What is a carrier for examples is one for schemas. -/
theorem carrier_cases (c : Conventions) (path : String) :
    (carrierSchema? c path = none ∧ Example.carrierValue? c path = none) ∨
      ∃ s v, carrierSchema? c path = some s ∧ Example.carrierValue? c path = some v ∧
        ∀ ctx ds doc outer, Conforms ctx ds doc outer (.inline s) v := by
  unfold carrierSchema? Example.carrierValue?
  split
  · exact .inr ⟨_, _, rfl, rfl, fun _ _ _ _ => conforms_sortValue⟩
  split
  · exact .inr ⟨_, _, rfl, rfl, fun _ _ _ _ => conforms_orderValue⟩
  split
  · refine .inr ⟨_, _, rfl, rfl, fun _ _ _ _ => MembersConform.obj (by decide) ?_⟩
    simp [membersConform_cons, membersConform_nil, conforms_int32, conforms_sortValue, Example.integer]
  split
  · refine .inr ⟨_, _, rfl, rfl, fun _ _ _ _ => MembersConform.obj (by decide) ?_⟩
    simp [membersConform_cons, membersConform_nil, conforms_int32, conforms_string, conforms_orders,
      Example.integer, Example.text]
  · exact .inl ⟨rfl, rfl⟩

/-! ## Classes -/

/-- What is known of a rendered document: every reached owner has its own schema as a component. -/
def HasComponents (ctx : Context) (ds : List Definition) (doc : Document) : Prop :=
  ∀ o, Reached ctx ds o → doc.components.schemas.get? o.name = some (o.schema ctx.conventions ctx.models)

/-- The schema of a field that is expanded in place of its class, and the value of the field. -/
theorem conforms_fieldValue (hdoc : HasComponents ctx ds doc) {f : Field} (hpage : f.page.isSome = true → f.kind = .object)
    (hheld : ∀ o, Held ctx.conventions f o → Reached ctx ds o) {inner : String → Json}
    (hinner : f.IsExpanded → (IsComponent ctx.conventions f.classPath → Reached ctx ds (.model f.classPath)) →
      Conforms ctx ds doc outer (contentSchema ctx.conventions f.classPath) (inner f.classPath)) :
    Conforms ctx ds doc outer (fieldSchema ctx.conventions f) (Example.fieldValue inner f) := by
  unfold fieldSchema Example.fieldValue
  cases hp : f.page with
  | some kind =>
    have hk : f.kind = .object := hpage (by rw [hp]; rfl)
    have hr : f.kind.isReference = true := by rw [hk]; rfl
    have hcontent := hinner (.inr hr) fun hc => hheld _ (.content hr hc)
    have howner : Reached ctx ds (.page kind f.classPath) := hheld _ (.page hr (by simp [hk]) hp)
    simp only [hk]
    exact Conforms.describe_ref (.page howner (hdoc _ howner) (conforms_pageValue kind hcontent _)) _
  | none =>
    cases hk : f.kind with
    | scalar name => exact Conforms.describe (conforms_scalar (type_schemaOf _) _) _
    | array =>
      have hr : f.kind.isReference = true := by rw [hk]; rfl
      exact Conforms.describe (hinner (.inr hr) fun hc => hheld _ (.content hr hc)).listed _
    | object | enum =>
      have hr : f.kind.isReference = true := by rw [hk]; rfl
      exact Conforms.describe_ref (hinner (.inr hr) fun hc => hheld _ (.content hr hc)) _

/-- A class whose example is not written in place has a component. -/
theorem isComponent_of_carrierValue? {c : Conventions} {path : String} (hs : c.isScalar path = false)
    (hv : Example.carrierValue? c path = none) :
    contentSchema c path = .component (Owner.model path).name ∧ IsComponent c path := by
  rcases carrier_cases c path with ⟨hc, -⟩ | ⟨s, v, -, hv', -⟩
  · exact ⟨by simp [contentSchema, hs, hc], hs, carrierSchema?_eq_none_iff.1 hc⟩
  · rw [hv] at hv'
    cases hv'

/-- The example of a class conforms to the schema of the class, inside the same classes. -/
theorem conforms_of_expands (hdoc : HasComponents ctx ds doc) (hpages : PagesAreObjects ctx.models)
    {path : String} {v : Json} (h : Example.Expands ctx.conventions ctx.models outer path v)
    (hreached : IsComponent ctx.conventions path → Reached ctx ds (.model path)) :
    Conforms ctx ds doc outer (contentSchema ctx.conventions path) v := by
  induction h with
  | @scalar outer path hs =>
    rw [contentSchema, if_pos hs]
    exact conforms_scalar (type_schemaOf _) _
  | @carrier outer path v hs hv =>
    rcases carrier_cases ctx.conventions path with ⟨-, hv'⟩ | ⟨s, v', hc, hv', hconf⟩
    · rw [hv] at hv'
      cases hv'
    · rw [hv, Option.some.injEq] at hv'
      subst hv'
      simpa [contentSchema, hs, hc] using hconf ctx ds doc outer
  | @unknown outer path hs hv hg =>
    obtain ⟨hschema, hc⟩ := isComponent_of_carrierValue? hs hv
    have hr := hreached hc
    rw [hschema]
    refine .model hr (hdoc _ hr) ?_
    simp only [Owner.schema, hg]
    exact .object rfl rfl rfl (by simp [Schema.ofType, Schema.empty])
  | @constants outer path m hs hv hg he =>
    obtain ⟨hschema, hc⟩ := isComponent_of_carrierValue? hs hv
    have hr := hreached hc
    rw [hschema]
    refine .model hr (hdoc _ hr) ?_
    simp only [Owner.schema, hg, modelSchema, he, if_true]
    exact Conforms.describe (.text rfl (by decide) rfl) _
  | @inside outer path m hs hv hg he ho =>
    obtain ⟨hschema, hc⟩ := isComponent_of_carrierValue? hs hv
    rw [hschema]
    exact .inside ho (hreached hc)
  | @fields outer path m inner hs hv hg he ho hinner ih =>
    obtain ⟨hschema, hc⟩ := isComponent_of_carrierValue? hs hv
    have hr := hreached hc
    have hmembers : MembersConform ctx ds doc (path :: outer)
        (m.fields.map fun f => (f.name, fieldSchema ctx.conventions f))
        (m.fields.map fun f => (f.name, Example.fieldValue inner f)) := by
      refine membersConform_map fun f hf => ?_
      exact conforms_fieldValue hdoc (hpages path m hg f hf) (fun o hh => .field hr hg he hf hh) (ih f hf)
    rw [hschema]
    refine .model hr (hdoc _ hr) ?_
    simp only [Owner.schema, hg, modelSchema, he, Bool.false_eq_true, if_false]
    exact (hmembers.objectOf.describe m.description).congr rfl rfl rfl rfl

theorem conforms_value (hdoc : HasComponents ctx ds doc) (hpages : PagesAreObjects ctx.models) {path : String}
    (hreached : IsComponent ctx.conventions path → Reached ctx ds (.model path)) :
    Conforms ctx ds doc [] (contentSchema ctx.conventions path) (Example.value ctx.conventions ctx.models path) :=
  conforms_of_expands hdoc hpages (Example.expands_value _ _ path) hreached

theorem kind_memberField {c : Conventions} {member : Facts.Member}
    (h : (Modeler.memberField c member).page.isSome = true) : (Modeler.memberField c member).kind = .object := by
  unfold Modeler.memberField at h ⊢
  cases hp : c.page? member.type with
  | some page => rfl
  | none => simp [hp] at h

theorem pagesAreObjects_resolveAll (m : Modeler) (roots : List String) :
    PagesAreObjects (m.resolveAll roots).models := by
  intro path model hg f hf hp
  obtain ⟨-, t, -, rfl⟩ := ((Modeler.underway_resolveAll m roots).resolved.models path model).1 hg
  simp only [Modeler.modelOf] at hf
  split at hf
  · obtain ⟨c, -, rfl⟩ := List.mem_map.1 hf
    cases hp
  · obtain ⟨member, -, rfl⟩ := List.mem_map.1 hf
    exact kind_memberField hp

/-! ## Operations -/

variable {d : Definition}

theorem hasComponents_render (h : render ctx ds = .ok doc) : HasComponents ctx ds doc := by
  obtain ⟨-, -, draft, claims, rfl, -, hnamed, hmem⟩ := render_ok h
  exact fun o ho => (get?_schemas hnamed).2 ⟨o, (hmem o).2 ho, rfl, rfl⟩

/-- The example of a parameter conforms to its schema in the body. -/
theorem conforms_parameterValue (hdoc : HasComponents ctx ds doc) (hpages : PagesAreObjects ctx.models)
    (hd : d ∈ ds) {p : ApiDocs.Parameter} (hp : d.body? = some p) :
    Conforms ctx ds doc [] (SchemaRef.listed (contentSchema ctx.conventions p.classPath) p.isArray)
      (Example.parameterValue ctx.conventions ctx.models p) := by
  have hvalue := conforms_value hdoc hpages fun hc => .operation hd (.body hp hc)
  unfold SchemaRef.listed Example.parameterValue
  cases p.isArray with
  | true => exact hvalue.listed
  | false => exact hvalue

/-- The example of what a definition returns conforms to the schema of what it returns. -/
theorem conforms_shaped (hdoc : HasComponents ctx ds doc) (hpages : PagesAreObjects ctx.models) (hd : d ∈ ds)
    {path : String} (hr : Returns d path) :
    Conforms ctx ds doc [] (returnSchema ctx d.returnShape path)
      (Example.shaped ctx.conventions ctx.models d.returnShape path) := by
  have hvalue := conforms_value hdoc hpages fun hc => .operation hd (.returned hr hc)
  unfold returnSchema Example.shaped
  cases hs : d.returnShape with
  | plain => exact hvalue
  | array => exact hvalue.listed
  | paged kind =>
    have howner : Reached ctx ds (.page kind path) := .operation hd (.page hr hs)
    exact .page howner (hdoc _ howner) (conforms_pageValue kind hvalue _)

/-- There is a response for each code. -/
theorem get?_responsesOf_eq (ctx : Context) (d : Definition) (code : String) : (responsesOf ctx d).get? code =
    (d.responses.get? code).map fun description => ⟨description, responseContent ctx d code⟩ := by
  have hn : (Pairs.keys (d.responses.entries.map fun r => (r.1, Response.mk r.2 (responseContent ctx d r.1)))).Nodup := by
    rw [Pairs.keys_map fun code description => Response.mk description (responseContent ctx d code)]
    exact d.responses.nodup_keys
  rw [responsesOf, Keyed.get?, Keyed.entries_ofList hn]
  exact Pairs.get?_mapWithKey (fun code description => Response.mk description (responseContent ctx d code)) code _

theorem get?_responsesOf {code description : String} (hr : (code, description) ∈ d.responses.entries) :
    (responsesOf ctx d).get? code = some ⟨description, responseContent ctx d code⟩ := by
  rw [get?_responsesOf_eq, Sorted.mem_entries_iff.1 hr, Option.map_some]

/-- Examples and schemas agree, for all models that resolving makes, and all conventions. Every class
has an example, however its fields run in circles. In a document that is rendered the operation of
each definition stands under its path and method; the example of its body conforms to the schema of
its request. A definition has an example of what it returns exactly if it returns something, and this
conforms to the schema of every response that tells of success. -/
theorem examples_conform (m : Modeler) (roots : List String) {ctx : Context} {ds : List Definition} {doc : Document}
    (hmodels : ctx.models = (m.resolveAll roots).models) (h : render ctx ds = .ok doc) :
    (∀ path, Example.Expands ctx.conventions ctx.models [] path (Example.value ctx.conventions ctx.models path)) ∧
    ∀ d ∈ ds, ∃ method op, Method.ofName? d.method = some method ∧
      operationAt doc.paths (pathOf ctx d) method = some op ∧
      (∀ p, d.body? = some p → ∃ body schema, op.body = some body ∧
        body.content.get? "application/json" = some schema ∧
        Conforms ctx ds doc [] schema (Example.parameterValue ctx.conventions ctx.models p)) ∧
      (Example.responseBody? ctx.conventions ctx.models d = none ↔ d.returnClass = none) ∧
      ∀ path, d.returnClass = some path → ∃ v, Example.responseBody? ctx.conventions ctx.models d = some v ∧
        ∀ code description, (code, description) ∈ d.responses.entries → isSuccess code = true →
          ∃ response schema, op.responses.get? code = some response ∧
            response.content.get? "application/json" = some schema ∧ Conforms ctx ds doc [] schema v := by
  have hdoc := hasComponents_render h
  have hpages : PagesAreObjects ctx.models := hmodels ▸ pagesAreObjects_resolveAll m roots
  refine ⟨Example.expands_value _ _, fun d hd => ?_⟩
  obtain ⟨method, hmethod, hop⟩ := operationAt_render h hd
  refine ⟨method, operationOf ctx d, hmethod, hop, fun p hp => ?_, Option.map_eq_none_iff, fun path hpath => ?_⟩
  · refine ⟨bodyOf ctx p, _, ?_, rfl, conforms_parameterValue hdoc hpages hd hp⟩
    rw [operationOf, hp]
    rfl
  · refine ⟨Example.shaped ctx.conventions ctx.models d.returnShape path, by rw [Example.responseBody?, hpath]; rfl,
      fun code description hr hs => ?_⟩
    refine ⟨_, returnSchema ctx d.returnShape path, get?_responsesOf hr, ?_, ?_⟩
    · simp only [responseContent, hpath, hs, if_true]
      rfl
    · exact conforms_shaped hdoc hpages hd ⟨hpath, _, hr, hs⟩

/-- The types that the models of the shop are made from. -/
def shopTypes : Modeler where
  source :=
    { endpoints := .ok []
      types := Keyed.ofList
        [("a.Order", ⟨"a.Order", .object, "", none, [⟨"buyer", .named "b.User", false, true, false, ""⟩], []⟩),
         ("b.User", ⟨"b.User", .object, "", none,
           [⟨"orders", .generic "org.springframework.data.domain.Page" [.named "a.Order"], false, false, false, ""⟩],
           []⟩)]
      refused := Keyed.empty
      exceptions := .ok []
      errorResponse := none }
  conventions := .default
  basePackages := []

/-- A list of orders in a body. -/
def orders : ApiDocs.Parameter := ⟨"orders", "Array", "a.Order", "", false, none, .body, false, true⟩

/-- A definition that takes orders, and returns a page of them. -/
def placing : Definition :=
  { returning "POST" "/orders" "a.Order" (.paged .spring) with parameters := [orders] }

/-- The example of an order: its buyer, with a page of orders that are not written out again. -/
def orderExample : Json :=
  .obj [("buyer", .obj [("orders", Example.pageValue .spring (.obj []))])]

theorem shop_conforms : shop.models = (shopTypes.resolveAll ["a.Order"]).models ∧
    Example.responseBody? .default shop.models placing = some (Example.pageValue .spring orderExample) ∧
    ∃ doc, render shop [placing] = .ok doc ∧ ∃ op body schema response returned,
      operationAt doc.paths "/v1.0/orders" .post = some op ∧
      op.body = some body ∧ body.content.get? "application/json" = some schema ∧
      Conforms shop [placing] doc [] schema (.list [orderExample]) ∧
      op.responses.get? "200" = some response ∧ response.content.get? "application/json" = some returned ∧
      Conforms shop [placing] doc [] returned (Example.pageValue .spring orderExample) := by
  have hmodels : shop.models = (shopTypes.resolveAll ["a.Order"]).models := by decide
  have hrender : (render shop [placing]).isOk = true := by decide
  have hbodyValue : Example.parameterValue .default shop.models orders = .list [orderExample] := rfl
  have hreturned : Example.responseBody? .default shop.models placing = some (Example.pageValue .spring orderExample) := rfl
  refine ⟨hmodels, hreturned, ?_⟩
  cases h : render shop [placing] with
  | error fault =>
    rw [h] at hrender
    cases hrender
  | ok doc =>
    obtain ⟨-, hall⟩ := examples_conform shopTypes ["a.Order"] hmodels h
    obtain ⟨method, op, hmethod, hop, hbody, -, hresponse⟩ := hall placing (by simp)
    obtain ⟨body, schema, hb, hs, hc⟩ := hbody orders rfl
    obtain ⟨v, hv, hconforms⟩ := hresponse "a.Order" rfl
    obtain ⟨response, returned, hr, hs', hc'⟩ := hconforms "200" "OK" (by decide) rfl
    obtain rfl : method = .post := Option.some.inj (hmethod.symm.trans (by decide))
    obtain rfl : v = Example.pageValue .spring orderExample := Option.some.inj (hv.symm.trans hreturned)
    exact ⟨doc, rfl, op, body, schema, response, returned, hop, hb, hs, hbodyValue ▸ hc, hr, hs', hc'⟩

end ApiDocs.OpenApi
