import ApiDocs.Proofs.Endpoint.Written
import ApiDocs.Proofs.OpenApi.ComponentTypes
import ApiDocs.Proofs.OpenApi.Conformance
/-!
# Members that are declared again

The members of a type are listed before those of its ancestors, and what is made of them is written
under their names one after the other. So where a type and its ancestors declare the same name, the
schema of the type, its example and the query parameters it expands into show the declaration of the
farthest ancestor, while the schema requires a name once for each declaration that does.
-/
namespace ApiDocs

namespace Facts

/-- The declaration of a name that is nearest to the type among its members. -/
def nearest (ms : List Member) (name : String) : Option Member :=
  ms.find? fun m => m.name == name

/-- The declaration of a name that is farthest from the type among its members. -/
def farthest (ms : List Member) (name : String) : Option Member :=
  ms.findRev? fun m => m.name == name

variable {ms : List Member} {name : String} {m : Member}

theorem mem_of_nearest (h : nearest ms name = some m) : m ∈ ms ∧ m.name = name :=
  ⟨List.mem_of_find?_eq_some h, by simpa using List.find?_some h⟩

theorem mem_of_farthest (h : farthest ms name = some m) : m ∈ ms ∧ m.name = name :=
  (Pairs.of_findRev?_eq_some h).imp_right fun hname => by simpa using hname

theorem nearest_eq_none_iff : nearest ms name = none ↔ ∀ m ∈ ms, m.name ≠ name := by
  simp [nearest]

theorem farthest_eq_none_iff : farthest ms name = none ↔ ∀ m ∈ ms, m.name ≠ name := by
  simp [farthest]

/-- Every member that is declared has a farthest declaration. -/
theorem exists_farthest (h : m ∈ ms) : ∃ m', farthest ms m.name = some m' := by
  rw [← Option.ne_none_iff_exists']
  exact fun hnone => farthest_eq_none_iff.1 hnone m h rfl

/-- Where no name is declared again, the nearest declaration is the only one. -/
theorem nearest_eq_some_iff (hn : (ms.map (·.name)).Nodup) : nearest ms name = some m ↔ m ∈ ms ∧ m.name = name := by
  refine ⟨mem_of_nearest, fun ⟨hm, hname⟩ => ?_⟩
  cases h : nearest ms name with
  | none => exact absurd hname (nearest_eq_none_iff.1 h m hm)
  | some m' =>
    obtain ⟨hm', hname'⟩ := mem_of_nearest h
    rw [List.inj_on_of_nodup_map hn hm' hm (hname'.trans hname.symm)]

theorem farthest_eq_nearest (hn : (ms.map (·.name)).Nodup) (name : String) : farthest ms name = nearest ms name := by
  cases h : farthest ms name with
  | none => exact (nearest_eq_none_iff.2 (farthest_eq_none_iff.1 h)).symm
  | some m => exact ((nearest_eq_some_iff hn).2 (mem_of_farthest h)).symm

end Facts

open Facts

namespace Modeler

variable {c : Conventions} {m : Modeler} {t : TypeFacts}

@[simp] theorem name_memberField (member : Member) : (memberField c member).name = member.name := by
  unfold memberField
  cases c.page? member.type <;> rfl

@[simp] theorem isOptional_memberField (member : Member) : (memberField c member).isOptional = !member.required := by
  unfold memberField
  cases c.page? member.type <;> rfl

theorem fields_modelOf (hk : t.kind = .object) :
    (m.modelOf t).fields = (m.source.membersOf m.conventions t).map (memberField m.conventions) := by
  rw [modelOf, hk]

theorem isEnum_modelOf (hk : t.kind = .object) : (m.modelOf t).isEnum = false := by
  rw [modelOf, hk]
  rfl

end Modeler

/-- What is written for the fields of members, under their names. -/
theorem get?_fields {α : Type} (c : Conventions) (value : Field → α) (ms : List Member) (name : String) :
    Pairs.get? name (((ms.map (Modeler.memberField c)).map fun f => (f.name, value f)).foldl
      (fun taken p => Pairs.put p.1 p.2 taken) []) =
      (farthest ms name).map fun m => value (Modeler.memberField c m) := by
  rw [List.map_map, List.foldl_map]
  refine (Pairs.get?_foldl (Pairs.get? name) (fun taken m => ?_) ms []).trans Option.or_none
  simp [Pairs.get?_put]

namespace OpenApi

variable {c : Conventions} {m : Model}

theorem properties_describe (s : Schema) (description : String) : (s.describe description).properties = s.properties := by
  unfold Schema.describe
  split <;> rfl

theorem properties_modelSchema (he : m.isEnum = false) : (modelSchema c m).properties =
    (m.fields.map fun f => (f.name, fieldSchema c f)).foldl (fun taken p => Pairs.put p.1 p.2 taken) [] := by
  rw [modelSchema, he, if_neg Bool.false_ne_true]
  exact properties_describe _ _

theorem required_modelSchema (he : m.isEnum = false) :
    (modelSchema c m).required = (m.fields.filter fun f => !f.isOptional).map (·.name) := by
  rw [modelSchema, he]
  rfl

end OpenApi

theorem Endpoint.name_memberParameter (c : Conventions) (m : Member) : (memberParameter c m).name = m.name := rfl

/-- The classes of models are not written in place. -/
theorem Example.carrierValue?_of_isModel {c : Conventions} {path : String} (h : c.isModel path = true) :
    Example.carrierValue? c path = none := by
  have hcarrier := (Conventions.isModel_iff.1 h).2.2.1
  rw [← Bool.not_eq_true, Conventions.isCarrier_iff] at hcarrier
  simp only [List.mem_cons, List.not_mem_nil, or_false, not_or] at hcarrier
  obtain ⟨-, hsort, hxorder, hpageable, hnation⟩ := hcarrier
  simp [Example.carrierValue?, hsort, hxorder, hpageable, hnation]

namespace Extraction

open OpenApi Example

/-- In every document that reaches the model of a type, the schema of the type has a property. -/
def SchemaHas (ex : Extraction) (config : Config) (path : String) (property : Schema → Prop) : Prop :=
  path ∈ ex.registry.models.keys → ∀ ds doc, render (ex.documentContext config) ds = .ok doc →
    Reached (ex.documentContext config) ds (.model path) →
      ∃ s, doc.components.schemas.get? (TypeName.schema path) = some s ∧ property s

/-- A type shows one declaration of each member: as a property of its schema and in its examples, if it has
a model, and as the query parameter of a query object of the type. -/
structure Shows (source : Facts.Source) (config : Config) (ex : Extraction) (path : String)
    (shown : String → Option Member) : Prop where
  schema : ex.SchemaHas config path fun s => ∀ name, Pairs.get? name s.properties =
    (shown name).map fun m => fieldSchema config.conventions (Modeler.memberField config.conventions m)
  expanded : Example.Expands config.conventions ex.registry.models [] path
    (Example.value config.conventions ex.registry.models path)
  values : path ∈ ex.registry.models.keys →
    ∀ outer v, Example.Expands config.conventions ex.registry.models outer path v → path ∉ outer →
    ∃ members inner, v = .obj members ∧
      (∀ name, Pairs.get? name members =
        (shown name).map fun m => Example.fieldValue inner (Modeler.memberField config.conventions m)) ∧
      ∀ name m, shown name = some m → (Modeler.memberField config.conventions m).IsExpanded →
        Example.Expands config.conventions ex.registry.models (path :: outer)
          (Modeler.memberField config.conventions m).classPath (inner (Modeler.memberField config.conventions m).classPath)
  query : ∀ (i i' : Endpoint.Inputs) (p : Facts.Parameter), i.add source config.conventions p = .ok i' →
    p.binding = .queryObject → config.conventions.erasedName p.type = path → path ≠ config.conventions.pageable →
    ∀ name, i'.parameters.get? name =
      ((shown name).map (Endpoint.memberParameter config.conventions)).or (i.parameters.get? name)

/-- A schema requires the members that it shows as required, each once. -/
structure RequiresShown (s : Schema) (shown : String → Option Member) : Prop where
  once : s.required.Nodup
  keys : ∀ name ∈ s.required, name ∈ Pairs.keys s.properties
  iff : ∀ name, name ∈ s.required ↔ ∃ m, shown name = some m ∧ m.required = true

variable {source : Facts.Source} {config : Config} {ex : Extraction} {path : String} {t : TypeFacts}

/-- The model of an object type is made of its members. -/
theorem model_of_typeFacts (h : ofSource source config = .ok ex) (ht : source.typeFacts path = .ok t)
    (hm : path ∈ ex.registry.models.keys) :
    (Modeler.ofConfig source config).isWanted path = true ∧
      ex.registry.models.get? path = some ((Modeler.ofConfig source config).modelOf t) := by
  obtain ⟨es, catalog, -, -, hres⟩ := ofSource_eq_ok h
  obtain ⟨model, hmodel⟩ := Keyed.mem_keys_iff.1 hm
  obtain ⟨hneeded, t', ht', rfl⟩ := (hres.models path model).1 hmodel
  obtain rfl : t = t' := Except.ok.inj (ht.symm.trans ht')
  refine ⟨?_, hmodel⟩
  cases hneeded with
  | root _ hw => exact hw
  | field _ _ _ _ hw => exact hw

/-- The schema of an object type is that of its model. -/
theorem schemaHas (h : ofSource source config = .ok ex) (ht : source.typeFacts path = .ok t) {property : Schema → Prop}
    (hp : property (modelSchema config.conventions ((Modeler.ofConfig source config).modelOf t))) :
    ex.SchemaHas config path property := by
  intro hm ds doc hr hreached
  refine ⟨_, hasComponents_render hr _ hreached, ?_⟩
  have hget : (ex.documentContext config).models.get? path = _ := (model_of_typeFacts h ht hm).2
  rw [Owner.schema, hget]
  exact hp

theorem get?_properties (hk : t.kind = .object) (name : String) :
    Pairs.get? name (modelSchema config.conventions ((Modeler.ofConfig source config).modelOf t)).properties =
      (farthest (source.membersOf config.conventions t) name).map fun m =>
        fieldSchema config.conventions (Modeler.memberField config.conventions m) := by
  rw [properties_modelSchema (Modeler.isEnum_modelOf hk), Modeler.fields_modelOf hk]
  exact get?_fields _ _ _ _

theorem required_eq (hk : t.kind = .object) :
    (modelSchema config.conventions ((Modeler.ofConfig source config).modelOf t)).required =
      ((source.membersOf config.conventions t).filter (·.required)).map (·.name) := by
  rw [required_modelSchema (Modeler.isEnum_modelOf hk), Modeler.fields_modelOf hk, List.filter_map, List.map_map]
  simp [Function.comp_def]
  rfl

/-- What is required is declared, so it is a property. -/
theorem mem_keys_of_required (hk : t.kind = .object) {name : String}
    (h : name ∈ ((source.membersOf config.conventions t).filter (·.required)).map (·.name)) :
    name ∈ Pairs.keys (modelSchema config.conventions ((Modeler.ofConfig source config).modelOf t)).properties := by
  obtain ⟨m, hm, rfl⟩ := List.mem_map.1 h
  obtain ⟨m', hm'⟩ := exists_farthest (List.mem_of_mem_filter hm)
  by_contra hnot
  rw [← Pairs.get?_eq_none_iff, get?_properties hk, hm'] at hnot
  cases hnot

/-- A type shows the farthest declaration of each member. -/
theorem shows_of_object (h : ofSource source config = .ok ex) (ht : source.typeFacts path = .ok t)
    (hk : t.kind = .object) : Shows source config ex path (farthest (source.membersOf config.conventions t)) := by
  have hfields : ((Modeler.ofConfig source config).modelOf t).fields =
      (source.membersOf config.conventions t).map (Modeler.memberField config.conventions) := Modeler.fields_modelOf hk
  refine ⟨schemaHas h ht fun name => ?_, expands_value _ _ _, fun hm outer v hv houter => ?_,
    fun i i' p hadd hb hp hpage name => ?_⟩
  · exact get?_properties hk name
  · -- A class that is wanted is no scalar and no carrier, so its example is made of its fields.
    obtain ⟨hwanted, hget⟩ := model_of_typeFacts h ht hm
    have hmodel : config.conventions.isModel path = true := (Bool.and_eq_true_iff.1 hwanted).1
    cases hv with
    | scalar hs => simp [(Conventions.isModel_iff.1 hmodel).1] at hs
    | carrier _ hc => simp [carrierValue?_of_isModel hmodel] at hc
    | unknown _ _ hnone => simp [hget] at hnone
    | constants _ _ hsome he =>
      obtain rfl := Option.some.inj (hsome.symm.trans hget)
      simp [Modeler.isEnum_modelOf hk] at he
    | inside _ _ _ _ hin => exact absurd hin houter
    | @fields _ _ model inner _ _ hsome _ _ hinner =>
      obtain rfl := Option.some.inj (hsome.symm.trans hget)
      refine ⟨_, inner, rfl, fun name => ?_, fun name m hshown hexp => ?_⟩
      · rw [hfields]
        exact get?_fields _ _ _ _
      · refine hinner _ ?_ hexp
        rw [hfields]
        exact List.mem_map_of_mem (mem_of_farthest hshown).1
  · subst hp
    cases Endpoint.Inputs.reads_of_add hadd with
    | pageable hp => exact absurd hp hpage
    | header _ hb' => simp [hb] at hb'
    | pageDefaults _ hb' => simp [hb] at hb'
    | own hown => simp [Endpoint.IsOwn, hb] at hown
    | members _ _ hmembers =>
      simp only [Facts.Source.declaredMembers, ht, Except.map, Except.ok.injEq] at hmembers
      subst hmembers
      rw [Endpoint.Inputs.parameters_addMembers, List.foldl_map]
      refine Pairs.get?_foldl (fun parameters : Keyed Parameter => parameters.get? name) (fun parameters m => ?_) _ _
      simp [Keyed.get?_put, Endpoint.name_memberParameter]

/-- The schema of an object type, its examples and the query parameters that it expands into show the
declaration of each member that is farthest from the type. The schema requires a name once for each
declaration that is required, so where no name is declared again it requires what it shows. -/
theorem shows_farthest (source : Facts.Source) (config : Config) (ex : Extraction)
    (h : ofSource source config = .ok ex) (path : String) (t : TypeFacts) (ht : source.typeFacts path = .ok t)
    (hk : t.kind = .object) :
    Shows source config ex path (farthest (source.membersOf config.conventions t)) ∧
    (ex.SchemaHas config path fun s =>
      s.required = ((source.membersOf config.conventions t).filter (·.required)).map (·.name) ∧
        ∀ name ∈ s.required, name ∈ Pairs.keys s.properties) ∧
    (((source.membersOf config.conventions t).map (·.name)).Nodup →
      Shows source config ex path (nearest (source.membersOf config.conventions t)) ∧
        ex.SchemaHas config path fun s => RequiresShown s (nearest (source.membersOf config.conventions t))) := by
  refine ⟨shows_of_object h ht hk, schemaHas h ht ?_, fun hn => ⟨?_, schemaHas h ht ?_⟩⟩
  · rw [required_eq hk]
    exact ⟨rfl, fun name => mem_keys_of_required hk⟩
  · exact funext (farthest_eq_nearest hn) ▸ shows_of_object h ht hk
  · refine ⟨?_, ?_, fun name => ?_⟩
    · rw [required_eq hk]
      exact hn.sublist (List.filter_sublist.map _)
    · rw [required_eq hk]
      exact fun name => mem_keys_of_required hk
    · simp only [required_eq hk, List.mem_map, List.mem_filter, nearest_eq_some_iff hn]
      tauto

/-- The type of items, which declare their id as a number. -/
def itemType : TypeFacts :=
  ⟨"com.x.Item", .object, "", some "com.x.Base", [⟨"id", .named "long", false, true, false, ""⟩], []⟩

/-- The type that items inherit from, which declares the id as a text. -/
def baseType : TypeFacts :=
  ⟨"com.x.Base", .object, "", none, [⟨"id", .named "java.lang.String", false, true, false, ""⟩], []⟩

/-- An endpoint that returns an item for a base in its body. -/
def items : Facts.Source :=
  .ofDocument
    { endpoints :=
        [{ handler := "h.Items", handlerPath := "", groupId := none, methodName := "make", mappingName := none
           httpMethod := "POST", path := "/items", parameters := [⟨"base", .named "com.x.Base", false, .body⟩]
           returnType := .named "com.x.Item", comment := ⟨"", []⟩, throws := [] }]
      types := Keyed.ofList [("com.x.Item", itemType), ("com.x.Base", baseType)]
      exceptions := []
      errorResponse := none }

theorem shows_farthest_items : ∃ ex, ofSource items (.ofServiceId "svc") = .ok ex ∧
    items.typeFacts "com.x.Item" = .ok itemType ∧ items.typeFacts "com.x.Base" = .ok baseType ∧
    ex.registry.models.keys = ["com.x.Base", "com.x.Item"] ∧
    Shows items (.ofServiceId "svc") ex "com.x.Item" (farthest (items.membersOf .default itemType)) ∧
    ((items.membersOf .default baseType).map (·.name)).Nodup ∧
    ex.SchemaHas (.ofServiceId "svc") "com.x.Base" fun s => RequiresShown s (nearest (items.membersOf .default baseType)) := by
  obtain ⟨ex, hx, hkeys⟩ := exists_of_map (fun ex => ex.registry.models.keys) items (.ofServiceId "svc")
    ["com.x.Base", "com.x.Item"] (by decide)
  have hn : ((items.membersOf .default baseType).map (·.name)).Nodup := by decide
  obtain ⟨hitem, -, -⟩ := shows_farthest items _ ex hx "com.x.Item" itemType rfl rfl
  obtain ⟨-, -, hbase⟩ := shows_farthest items _ ex hx "com.x.Base" baseType rfl rfl
  exact ⟨ex, hx, rfl, rfl, hkeys, hitem, hn, (hbase hn).2⟩

/-- The id of an item is shown as its base declares it. -/
theorem items_show_base : ¬ ∀ (source : Facts.Source) (config : Config) (ex : Extraction) (path : String) (t : TypeFacts),
    ofSource source config = .ok ex → source.typeFacts path = .ok t → t.kind = .object →
    Shows source config ex path (nearest (source.membersOf config.conventions t)) ∧
      ex.SchemaHas config path fun s => RequiresShown s (nearest (source.membersOf config.conventions t)) := by
  intro hall
  obtain ⟨ex', doc, hx', hr, howners⟩ := render_of_extractedOwners items (.ofServiceId "svc")
    [.model "com.x.Base", .model "com.x.Item"] (by decide)
  obtain ⟨ex, hx, hkeys⟩ := exists_of_map (fun ex => ex.registry.models.keys) items (.ofServiceId "svc")
    ["com.x.Base", "com.x.Item"] (by decide)
  obtain rfl : ex = ex' := Except.ok.inj (hx.symm.trans hx')
  have hm : "com.x.Item" ∈ ex.registry.models.keys := by simp [hkeys]
  have hreached := howners (.model "com.x.Item") (by simp)
  obtain ⟨s, hs, hnear⟩ := (hall items _ ex "com.x.Item" itemType hx rfl rfl).1.schema hm _ doc hr hreached
  obtain ⟨s', hs', hfar⟩ := (shows_of_object hx (t := itemType) rfl rfl).schema hm _ doc hr hreached
  obtain rfl : s = s' := Option.some.inj (hs.symm.trans hs')
  -- The item declares its id as a number, the base as a text.
  have hformat := congrArg (fun r => r.bind fun r => (SchemaRef.schema? r).bind (·.format)) ((hnear "id").symm.trans (hfar "id"))
  exact absurd hformat (by decide)

end Extraction

end ApiDocs
