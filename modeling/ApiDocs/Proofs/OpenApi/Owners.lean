import ApiDocs.OpenApi.Render
/-!
# The owners that operations reach

What a document needs, without regard to the order in which it is met: `Referred` says which owners
an operation refers to, `Held` which ones a field does, and `Reached` closes them under the fields of
models. The lists of owners that rendering claims are the same, and the names of two owners can only
clash with different texts.
-/
namespace ApiDocs.OpenApi

variable {c : Conventions} {ctx : Context}

/-- Whether a class is described by a component: it is no scalar, and no paging request or order,
which are described in place. -/
def IsComponent (c : Conventions) (path : String) : Prop :=
  c.isScalar path = false ∧ path ∉ [c.sort, c.xorder, c.pageable, c.xpageNation]

/-- Whether a parameter has a schema: it is sent in the path, or in the query without being a paging
request. -/
def IsListed (ctx : Context) (p : ApiDocs.Parameter) : Prop :=
  p.location = .path ∨ p.location = .query ∧ p.classPath ≠ ctx.conventions.xpageNation

/-- Whether some response of a definition tells of success and returns the class. -/
def Returns (d : Definition) (path : String) : Prop :=
  d.returnClass = some path ∧ ∃ r ∈ d.responses.entries, isSuccess r.1 = true

/-- The owners that the operation of a definition refers to. -/
inductive Referred (ctx : Context) (d : Definition) : Owner → Prop
  | enumeration {p} : p ∈ d.parameters → IsListed ctx p → p.isEnum = true → Referred ctx d (.model p.classPath)
  | parameter {p} : p ∈ d.parameters → IsListed ctx p → p.isEnum = false →
      IsComponent ctx.conventions p.classPath → Referred ctx d (.model p.classPath)
  | body {p} : d.body? = some p → IsComponent ctx.conventions p.classPath → Referred ctx d (.model p.classPath)
  | returned {path} : Returns d path → IsComponent ctx.conventions path → Referred ctx d (.model path)
  | page {path kind} : Returns d path → d.returnShape = .paged kind → Referred ctx d (.page kind path)

/-- The owners that a field refers to. A list is written without a page. -/
inductive Held (c : Conventions) (f : Field) : Owner → Prop
  | content : f.kind.isReference = true → IsComponent c f.classPath → Held c f (.model f.classPath)
  | page {kind} : f.kind.isReference = true → f.kind ≠ .array → f.page = some kind →
      Held c f (.page kind f.classPath)

/-- The owners that some operations refer to, themselves or through the fields of models. -/
inductive Reached (ctx : Context) (ds : List Definition) : Owner → Prop
  | operation {d o} : d ∈ ds → Referred ctx d o → Reached ctx ds o
  | field {path m f o} : Reached ctx ds (.model path) → ctx.models.get? path = some m →
      m.isEnum = false → f ∈ m.fields → Held ctx.conventions f o → Reached ctx ds o

/-! ## What is listed -/

theorem carrierSchema?_eq_none_iff {path : String} :
    carrierSchema? c path = none ↔ path ∉ [c.sort, c.xorder, c.pageable, c.xpageNation] := by
  unfold carrierSchema?
  repeat' split
  all_goals simp_all

theorem contentOwners_of_isComponent {path : String} (h : IsComponent c path) :
    contentOwners c path = [.model path] := by
  simp [contentOwners, h.1, carrierSchema?_eq_none_iff.2 h.2]

theorem contentOwners_of_not_isComponent {path : String} (h : ¬ IsComponent c path) :
    contentOwners c path = [] := by
  unfold contentOwners
  cases hs : c.isScalar path with
  | true => rfl
  | false =>
    cases hc : carrierSchema? c path with
    | some s => rfl
    | none => exact absurd ⟨hs, carrierSchema?_eq_none_iff.1 hc⟩ h

theorem mem_contentOwners {path : String} {o : Owner} :
    o ∈ contentOwners c path ↔ IsComponent c path ∧ o = .model path := by
  by_cases h : IsComponent c path
  · simp [contentOwners_of_isComponent h, h]
  · simp [contentOwners_of_not_isComponent h, h]

theorem mem_pageOwners {kind : PageKind} {path : String} {o : Owner} :
    o ∈ pageOwners c kind path ↔ o = .page kind path ∨ IsComponent c path ∧ o = .model path := by
  simp [pageOwners, mem_contentOwners]

theorem held_iff {f : Field} {o : Owner} :
    Held c f o ↔ f.kind.isReference = true ∧ (IsComponent c f.classPath ∧ o = .model f.classPath ∨
      f.kind ≠ .array ∧ ∃ kind, f.page = some kind ∧ o = .page kind f.classPath) := by
  refine ⟨fun h => ?_, ?_⟩
  · cases h with
    | content hr hc => exact ⟨hr, .inl ⟨hc, rfl⟩⟩
    | page hr ha hp => exact ⟨hr, .inr ⟨ha, _, hp, rfl⟩⟩
  · rintro ⟨hr, ⟨hc, rfl⟩ | ⟨ha, kind, hp, rfl⟩⟩
    · exact .content hr hc
    · exact .page hr ha hp

theorem mem_fieldOwners {f : Field} {o : Owner} : o ∈ fieldOwners c f ↔ Held c f o := by
  rw [held_iff]
  unfold fieldOwners
  cases hk : f.kind with
  | scalar name => simp [FieldKind.isReference]
  | array => simp [FieldKind.isReference, mem_contentOwners]
  | object | enum =>
    cases hp : f.page with
    | none => simp [FieldKind.isReference, mem_contentOwners]
    | some kind => simp [FieldKind.isReference, mem_pageOwners, or_comm]

theorem mem_modelOwners {m : Model} {o : Owner} :
    o ∈ modelOwners c m ↔ m.isEnum = false ∧ ∃ f ∈ m.fields, Held c f o := by
  unfold modelOwners
  cases m.isEnum with
  | true => simp
  | false => simp [mem_fieldOwners]

theorem mem_parametersIn {d : Definition} {p : ApiDocs.Parameter} {l : Location} :
    p ∈ d.parametersIn l ↔ p ∈ d.parameters ∧ p.location = l := by
  simp [Definition.parametersIn]

theorem mem_parameterOwners {p : ApiDocs.Parameter} {o : Owner} :
    o ∈ parameterOwners ctx p ↔
      o = .model p.classPath ∧ (p.isEnum = true ∨ p.isEnum = false ∧ IsComponent ctx.conventions p.classPath) := by
  unfold parameterOwners
  cases p.isEnum with
  | true => simp
  | false => simp [mem_contentOwners, and_comm]

theorem mem_queryOwners {p : ApiDocs.Parameter} {o : Owner} :
    o ∈ queryOwners ctx p ↔ p.classPath ≠ ctx.conventions.xpageNation ∧ o ∈ parameterOwners ctx p := by
  unfold queryOwners isPagingRequest
  by_cases h : p.classPath = ctx.conventions.xpageNation <;> simp [h]

theorem mem_returnOwners {shape : ReturnShape} {path : String} {o : Owner} :
    o ∈ returnOwners ctx shape path ↔
      IsComponent ctx.conventions path ∧ o = .model path ∨ ∃ kind, shape = .paged kind ∧ o = .page kind path := by
  cases shape with
  | plain | array => simp [returnOwners, mem_contentOwners]
  | paged kind => simp [returnOwners, mem_pageOwners, or_comm]

theorem mem_responseOwners {d : Definition} {o : Owner} :
    o ∈ responseOwners ctx d ↔ ∃ path, Returns d path ∧ o ∈ returnOwners ctx d.returnShape path := by
  unfold responseOwners Returns
  cases d.returnClass with
  | none => simp
  | some path =>
    simp only [List.mem_flatMap, Option.some.injEq]
    refine ⟨fun ⟨r, hr, ho⟩ => ?_, fun ⟨_, ⟨he, r, hr, hs⟩, ho⟩ => ⟨r, hr, ?_⟩⟩
    · split at ho
      · exact ⟨path, ⟨rfl, r, hr, ‹_›⟩, ho⟩
      · cases ho
    · rw [if_pos hs, he]
      exact ho

theorem mem_operationOwners {d : Definition} {o : Owner} :
    o ∈ operationOwners ctx d ↔ Referred ctx d o := by
  have hparam : ∀ p ∈ d.parameters, IsListed ctx p → o ∈ parameterOwners ctx p → Referred ctx d o := by
    intro p hp hl ho
    obtain ⟨rfl, he | ⟨he, hc⟩⟩ := mem_parameterOwners.1 ho
    · exact .enumeration hp hl he
    · exact .parameter hp hl he hc
  have hlisted : ∀ p ∈ d.parameters, IsListed ctx p → o ∈ parameterOwners ctx p → o ∈ operationOwners ctx d := by
    intro p hp hl ho
    simp only [operationOwners, List.mem_append, List.mem_flatMap]
    rcases hl with hl | ⟨hl, hx⟩
    · exact .inl (.inl (.inl ⟨p, mem_parametersIn.2 ⟨hp, hl⟩, ho⟩))
    · exact .inl (.inl (.inr ⟨p, mem_parametersIn.2 ⟨hp, hl⟩, mem_queryOwners.2 ⟨hx, ho⟩⟩))
  have hreturned : ∀ path, Returns d path → o ∈ returnOwners ctx d.returnShape path →
      o ∈ operationOwners ctx d :=
    fun path hr ho => List.mem_append_right _ (mem_responseOwners.2 ⟨path, hr, ho⟩)
  refine ⟨fun h => ?_, fun h => ?_⟩
  · simp only [operationOwners, List.mem_append, List.mem_flatMap] at h
    rcases h with ((⟨p, hp, ho⟩ | ⟨p, hp, ho⟩) | ho) | ho
    · obtain ⟨hp, hl⟩ := mem_parametersIn.1 hp
      exact hparam p hp (.inl hl) ho
    · obtain ⟨hp, hl⟩ := mem_parametersIn.1 hp
      obtain ⟨hx, ho⟩ := mem_queryOwners.1 ho
      exact hparam p hp (.inr ⟨hl, hx⟩) ho
    · cases hb : d.body? with
      | none => simp [hb] at ho
      | some p =>
        rw [hb] at ho
        obtain ⟨hc, rfl⟩ := mem_contentOwners.1 ho
        exact .body hb hc
    · obtain ⟨path, hr, ho⟩ := mem_responseOwners.1 ho
      rcases mem_returnOwners.1 ho with ⟨hc, rfl⟩ | ⟨kind, hk, rfl⟩
      · exact .returned hr hc
      · exact .page hr hk
  · cases h with
    | enumeration hp hl he => exact hlisted _ hp hl (mem_parameterOwners.2 ⟨rfl, .inl he⟩)
    | parameter hp hl he hc => exact hlisted _ hp hl (mem_parameterOwners.2 ⟨rfl, .inr ⟨he, hc⟩⟩)
    | body hb hc =>
      simp only [operationOwners, List.mem_append]
      refine .inl (.inr ?_)
      rw [hb]
      exact mem_contentOwners.2 ⟨hc, rfl⟩
    | returned hr hc => exact hreturned _ hr (mem_returnOwners.2 (.inl ⟨hc, rfl⟩))
    | page hr hk => exact hreturned _ hr (mem_returnOwners.2 (.inr ⟨_, hk, rfl⟩))

/-! ## What is reached -/

variable {ds : List Definition}

/-- Whoever refers to a page refers to its content. -/
theorem Reached.content {kind : PageKind} {path : String} (h : Reached ctx ds (.page kind path))
    (hc : IsComponent ctx.conventions path) : Reached ctx ds (.model path) := by
  cases h with
  | operation hd hr =>
    cases hr with
    | page hr hk => exact .operation hd (.returned hr hc)
  | field hm hg he hf hh =>
    cases hh with
    | page hr ha hp => exact .field hm hg he hf (.content hr hc)

theorem Reached.model {path : String} {m : Model} {o : Owner} (h : Reached ctx ds (.model path))
    (hg : ctx.models.get? path = some m) (ho : o ∈ modelOwners ctx.conventions m) : Reached ctx ds o := by
  obtain ⟨he, f, hf, hh⟩ := mem_modelOwners.1 ho
  exact .field h hg he hf hh

/-- What is reached depends on which definitions there are and on what is found under a class path. -/
theorem Reached.congr {ctx' : Context} {ds' : List Definition} {o : Owner} (h : Reached ctx ds o)
    (hc : ctx'.conventions = ctx.conventions) (hm : ∀ path, ctx'.models.get? path = ctx.models.get? path)
    (hd : ∀ d ∈ ds, d ∈ ds') : Reached ctx' ds' o := by
  induction h with
  | operation hmem hr =>
    refine .operation (hd _ hmem) ?_
    cases hr with
    | enumeration hp hl he => exact .enumeration hp (by rwa [IsListed, hc]) he
    | parameter hp hl he hk => exact .parameter hp (by rwa [IsListed, hc]) he (hc ▸ hk)
    | body hb hk => exact .body hb (hc ▸ hk)
    | returned hr hk => exact .returned hr (hc ▸ hk)
    | page hr hk => exact .page hr hk
  | field _ hg he hf hh ih => exact .field ih ((hm _).trans hg) he hf (hc ▸ hh)

/-! ## Names and texts -/

theorem length_schema (path : String) :
    (TypeName.schema path).toList.length = (path.toList.reverse.takeWhile (· != '.')).length := by
  simp [TypeName.schema, Text.afterLast]

/-- A class that is called like a page has another name than the page, which is a character off. -/
theorem schema_ne_page (kind : PageKind) (path : String) :
    TypeName.schema (kind.schemaLead ++ "<" ++ path ++ ">") ≠
      kind.schemaLead ++ "_" ++ TypeName.schema path := by
  intro h
  -- If `path` has a dot, the first name is a character longer than what follows it, and the second by
  -- the lead and the underscore. If not, both have the lead, and the last bracket is one too many.
  have hl := congrArg (fun s => s.toList.length) h
  simp only [String.toList_append, List.length_append, length_schema, List.reverse_append] at hl
  cases kind with
  | spring | xpage =>
    simp [PageKind.schemaLead, List.takeWhile_append] at hl
    split at hl
    · simp at hl
      omega
    · omega

/-- Two owners of one name can be told apart by their texts. -/
theorem Owner.eq_of_name_of_text {o p : Owner} (hn : o.name = p.name) (ht : o.text = p.text) : o = p := by
  cases o with
  | model path =>
    cases p with
    | model path' => rw [show path = path' from ht]
    | page kind path' =>
      have hp : path = kind.schemaLead ++ "<" ++ path' ++ ">" := ht
      exact absurd (hp ▸ hn) (schema_ne_page kind path')
  | page kind path =>
    cases p with
    | model path' =>
      have hp : kind.schemaLead ++ "<" ++ path ++ ">" = path' := ht
      exact absurd (hp ▸ hn).symm (schema_ne_page kind path)
    | page kind' path' =>
      -- Pages of two kinds begin with different letters.
      have hl := congrArg String.toList ht
      cases kind <;> cases kind' <;> simp [Owner.text, PageKind.schemaLead] at hl
      · rw [String.toList_inj.1 hl]
      · rw [String.toList_inj.1 hl]

end ApiDocs.OpenApi
