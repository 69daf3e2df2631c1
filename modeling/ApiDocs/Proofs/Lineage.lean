import ApiDocs.Proofs.Redeclared
/-!
# Lineages

Going from a class path to its superclass, to the superclass of that and so on makes a chain, which may run in circles,
lead to a type without facts, or come to the root type. What a type inherits is the longest part of its chain before any
of that (`IsLineage`), and this is what the walk up the ancestors finds: the members of a type are those of its lineage,
each type contributing once (`declaredMembers_lineage`). The fields of its model carry these members one by one
(`Carries`).
-/
namespace ApiDocs

namespace Modeler

/-! ## What fields carry -/

/-- A declared type that holds no others: neither a page nor an array nor a sequence. -/
structure IsSingle (c : Conventions) (t : TypeExpr) : Prop where
  pageKind : c.pageKind? (c.erasedName t) = none
  arrayElement : t.arrayElement? = none
  isSequence : c.isSequence (c.erasedName t) = false

/-- The kind, the class path and the page of the field of a member with a declared type. -/
inductive Typed (c : Conventions) (t : TypeExpr) (isEnum : Bool) : FieldKind → String → Option PageKind → Prop
  /-- A page is a field of its content. -/
  | page {kind} : c.pageKind? (c.erasedName t) = some kind → Typed c t isEnum .object (c.firstArgument t) (some kind)
  | array {element} : c.pageKind? (c.erasedName t) = none → t.arrayElement? = some element →
      Typed c t isEnum .array element.path none
  | sequence : c.pageKind? (c.erasedName t) = none → t.arrayElement? = none → c.isSequence (c.erasedName t) = true →
      Typed c t isEnum .array (c.firstArgument t) none
  | enum : IsSingle c t → isEnum = true → Typed c t isEnum .enum (c.erasedName t) none
  | scalar : IsSingle c t → isEnum = false → c.isScalar (c.erasedName t) = true →
      Typed c t isEnum (.scalar (TypeName.simple (c.erasedName t))) (c.erasedName t) none
  | object : IsSingle c t → isEnum = false → c.isScalar (c.erasedName t) = false →
      Typed c t isEnum .object (c.erasedName t) none

/-- What the field of a member carries of it. -/
structure Carries (c : Conventions) (member : Facts.Member) (f : Field) : Prop where
  name : f.name = member.name
  typed : Typed c member.type member.isEnum f.kind f.classPath f.page
  description : f.description = Text.trim member.comment
  isOptional : f.isOptional = !member.required

variable {c : Conventions} {t : TypeExpr} {isEnum : Bool} {member : Facts.Member} {f : Field} {kind : FieldKind}
  {path : String}

theorem typed_fieldKind (isEnum : Bool) (hp : c.pageKind? (c.erasedName t) = none) :
    Typed c t isEnum (c.fieldKind t isEnum).1 (c.fieldKind t isEnum).2 none := by
  unfold Conventions.fieldKind
  split
  case h_1 element ha => exact .array hp ha
  case h_2 ha =>
    simp only
    split
    case isTrue hs => exact .sequence hp ha hs
    case isFalse hs =>
      have hsingle : IsSingle c t := ⟨hp, ha, by simpa using hs⟩
      split
      case isTrue he => exact .enum hsingle he
      case isFalse he =>
        split
        case isTrue hx => exact .scalar hsingle (by simpa using he) hx
        case isFalse hx => exact .object hsingle (by simpa using he) (by simpa using hx)

theorem carries_memberField (c : Conventions) (member : Facts.Member) : Carries c member (memberField c member) := by
  unfold memberField
  cases hp : c.page? member.type with
  | some page =>
    obtain ⟨kind, content⟩ := page
    obtain ⟨hkind, rfl⟩ := Conventions.page?_eq_some_iff.1 hp
    exact ⟨rfl, .page hkind, rfl, rfl⟩
  | none => exact ⟨rfl, typed_fieldKind member.isEnum (Option.map_eq_none_iff.1 hp), rfl, rfl⟩

theorem IsSingle.fieldKind_eq (h : IsSingle c t) (isEnum : Bool) : c.fieldKind t isEnum =
    if isEnum then (.enum, c.erasedName t)
    else if c.isScalar (c.erasedName t) then (.scalar (TypeName.simple (c.erasedName t)), c.erasedName t)
    else (.object, c.erasedName t) := by
  rw [Conventions.fieldKind, h.arrayElement]
  simp [h.isSequence]

theorem Typed.fieldKind_eq (h : Typed c t isEnum kind path none) :
    c.page? t = none ∧ c.fieldKind t isEnum = (kind, path) := by
  cases h with
  | array hp ha => exact ⟨Option.map_eq_none_iff.2 hp, by rw [Conventions.fieldKind, ha]⟩
  | sequence hp ha hs =>
    refine ⟨Option.map_eq_none_iff.2 hp, ?_⟩
    rw [Conventions.fieldKind, ha]
    exact if_pos hs
  | enum hsingle he => exact ⟨Option.map_eq_none_iff.2 hsingle.pageKind, by simp [hsingle.fieldKind_eq, he]⟩
  | scalar hsingle he hx => exact ⟨Option.map_eq_none_iff.2 hsingle.pageKind, by simp [hsingle.fieldKind_eq, he, hx]⟩
  | object hsingle he hx => exact ⟨Option.map_eq_none_iff.2 hsingle.pageKind, by simp [hsingle.fieldKind_eq, he, hx]⟩

theorem Carries.eq_memberField (h : Carries c member f) : f = memberField c member := by
  obtain ⟨name, kind, classPath, description, isOptional, page⟩ := f
  obtain ⟨rfl, htyped, rfl, rfl⟩ := h
  cases page with
  | some page =>
    cases htyped with
    | page hp =>
      rw [memberField, Conventions.page?_eq_some_iff.2 ⟨hp, rfl⟩]
      rfl
  | none =>
    obtain ⟨hp, hk⟩ := htyped.fieldKind_eq
    simp only at hk
    rw [memberField, hp, hk]

/-- Just one field carries a member. -/
theorem carries_iff : Carries c member f ↔ f = memberField c member :=
  ⟨Carries.eq_memberField, fun h => h ▸ carries_memberField c member⟩

end Modeler

namespace Facts

/-- A document that was read has each type under its own class path. -/
theorem Document.classPath_eq {text path : String} {d : Document} {t : TypeFacts} (h : Document.ofText text = .ok d)
    (ht : d.types.get? path = some t) : t.classPath = path := by
  have hread : ∃ n, Document.ofNode n = .ok d := by
    unfold ofText at h
    split at h
    · cases h
    · split at h
      case h_1 n _ _ hd =>
        cases h
        exact ⟨_, hd⟩
      all_goals cases h
  obtain ⟨n, hn⟩ := hread
  have htypes : ∃ ts : List TypeFacts, d.types = Keyed.ofList (ts.map fun t => (t.classPath, t)) := by
    simp only [ofNode, bind, Except.bind, pure, Except.pure] at hn
    repeat' split at hn
    all_goals cases hn
    exact ⟨_, rfl⟩
  obtain ⟨ts, hts⟩ := htypes
  rw [hts, ← Keyed.mem_entries_iff] at ht
  obtain ⟨t', -, he⟩ := List.mem_map.1 (Keyed.mem_of_mem_ofList ht)
  cases he
  rfl

namespace Source

/-! ## Chains of superclasses -/

/-- The class path that many superclasses up from a class path. -/
def superAt? (s : Source) (path : String) : Nat → Option String
  | 0 => some path
  | n + 1 => (s.superAt? path n).bind fun p => (s.typeFacts p).toOption.bind (·.superclass)

/-- Whether the class path at a place of a chain contributes: it has facts, has not come before, and is not the root
type unless the chain begins with it. -/
def Contributes (s : Source) (root path : String) (n : Nat) : Prop :=
  ∃ p t, s.superAt? path n = some p ∧ s.typeFacts p = .ok t ∧ (0 < n → p ≠ root) ∧ ∀ k < n, s.superAt? path k ≠ some p

/-- Whether types are those of the longest part of a chain, from a place on, in which every class path contributes. -/
structure IsLineage (s : Source) (root path : String) (n : Nat) (ts : List TypeFacts) : Prop where
  types : ∀ i t, ts[i]? = some t → ∃ p, s.superAt? path (n + i) = some p ∧ s.typeFacts p = .ok t
  contributes : ∀ i < ts.length, s.Contributes root path (n + i)
  longest : ¬ s.Contributes root path (n + ts.length)

variable {s : Source} {root path p : String} {n : Nat} {t : TypeFacts} {ts ts' : List TypeFacts} {seen : List String}

theorem superAt?_succ (hp : s.superAt? path n = some p) (ht : s.typeFacts p = .ok t) :
    s.superAt? path (n + 1) = t.superclass := by
  simp [superAt?, hp, ht, Except.toOption]

theorem IsLineage.nil (h : ¬ s.Contributes root path n) : s.IsLineage root path n [] where
  types := by simp
  contributes := by simp
  longest := h

theorem IsLineage.cons (hc : s.Contributes root path n) (hp : s.superAt? path n = some p) (ht : s.typeFacts p = .ok t)
    (h : s.IsLineage root path (n + 1) ts) : s.IsLineage root path n (t :: ts) where
  types := by
    intro i t' hi
    cases i with
    | zero =>
      cases hi
      exact ⟨p, hp, ht⟩
    | succ i =>
      rw [← Nat.succ_add_eq_add_succ]
      exact h.types i t' hi
  contributes := by
    intro i hi
    cases i with
    | zero => exact hc
    | succ i =>
      rw [← Nat.succ_add_eq_add_succ]
      exact h.contributes i (Nat.lt_of_succ_lt_succ hi)
  longest := by
    rw [List.length_cons, ← Nat.succ_add_eq_add_succ]
    exact h.longest

/-- A chain has one lineage. -/
theorem IsLineage.unique (h : s.IsLineage root path n ts) (h' : s.IsLineage root path n ts') : ts = ts' := by
  have hlength : ts.length = ts'.length := by
    rcases Nat.lt_trichotomy ts.length ts'.length with hlt | heq | hlt
    · exact absurd (h'.contributes _ hlt) h.longest
    · exact heq
    · exact absurd (h.contributes _ hlt) h'.longest
  refine List.ext_getElem hlength fun i hi hi' => ?_
  obtain ⟨p, hp, ht⟩ := h.types i _ (List.getElem?_eq_getElem hi)
  obtain ⟨p', hp', ht'⟩ := h'.types i _ (List.getElem?_eq_getElem hi')
  obtain rfl := Option.some.inj (hp.symm.trans hp')
  exact Except.ok.inj (ht.symm.trans ht')

/-- The walk that has met a chain up to some place finds the lineage from there on. -/
theorem Ancestry.isLineage {next : Option String} (h : Ancestry s root seen next ts) (hn : 0 < n)
    (hnext : s.superAt? path n = next) (hseen : ∀ p, p ∈ seen ↔ ∃ k < n, s.superAt? path k = some p) :
    s.IsLineage root path n ts := by
  induction h generalizing n with
  | top =>
    refine .nil fun ⟨p, _, hp, _⟩ => ?_
    simp [hnext] at hp
  | root =>
    refine .nil fun ⟨p, _, hp, _, hroot, _⟩ => hroot hn ?_
    exact Option.some.inj (hp.symm.trans hnext)
  | again hmem =>
    obtain ⟨k, hk, hsome⟩ := (hseen _).1 hmem
    refine .nil fun ⟨p, _, hp, _, _, hnew⟩ => hnew k hk ?_
    rw [hsome, ← hnext, hp]
  | missing hfault =>
    refine .nil fun ⟨p, _, hp, ht, _, _⟩ => ?_
    obtain rfl := Option.some.inj (hp.symm.trans hnext)
    simp [hfault] at ht
  | @parent seen path' t ts hroot hnew ht _ ih =>
    have hfirst : ∀ k < n, s.superAt? path k ≠ some path' := fun k hk hsome => hnew ((hseen _).2 ⟨k, hk, hsome⟩)
    refine .cons ⟨path', t, hnext, ht, fun _ => hroot, hfirst⟩ hnext ht ?_
    refine ih (Nat.succ_pos n) (superAt?_succ hnext ht) fun p => ?_
    rw [List.mem_cons, hseen]
    constructor
    · rintro (rfl | ⟨k, hk, hsome⟩)
      · exact ⟨n, Nat.lt_succ_self n, hnext⟩
      · exact ⟨k, Nat.lt_succ_of_lt hk, hsome⟩
    · rintro ⟨k, hk, hsome⟩
      rcases Nat.lt_succ_iff_lt_or_eq.1 hk with hlt | rfl
      · exact .inr ⟨k, hlt, hsome⟩
      · exact .inl (Option.some.inj (hsome.symm.trans hnext))

/-- The walk from a type that stands under its own class path finds its lineage. -/
theorem isLineage_lineage (c : Conventions) (ht : s.typeFacts path = .ok t) (hpath : t.classPath = path) :
    s.IsLineage c.rootType path 0 (s.lineage c t) := by
  obtain ⟨ts, hts, hancestry⟩ := ancestry_lineage s c t
  rw [hts]
  refine .cons ⟨path, t, rfl, ht, fun h => absurd h (Nat.lt_irrefl 0), fun k hk => absurd hk (Nat.not_lt_zero k)⟩ rfl ht
    (hancestry.isLineage Nat.one_pos (superAt?_succ rfl ht) fun p => ?_)
  rw [hpath, List.mem_singleton]
  constructor
  · rintro rfl
    exact ⟨0, Nat.one_pos, rfl⟩
  · rintro ⟨k, hk, hsome⟩
    obtain rfl := Nat.lt_one_iff.1 hk
    exact (Option.some.inj hsome).symm

/-- No type comes twice in a lineage. -/
theorem IsLineage.nodup (h : s.IsLineage root path 0 ts)
    (hpaths : ∀ p t, s.typeFacts p = .ok t → t.classPath = p) : (ts.map (·.classPath)).Nodup := by
  refine List.pairwise_iff_getElem.2 fun i j hi hj hij hsame => ?_
  rw [List.length_map] at hi hj
  rw [List.getElem_map, List.getElem_map] at hsame
  obtain ⟨p, hp, ht⟩ := h.types i _ (List.getElem?_eq_getElem hi)
  obtain ⟨q, hq, htq⟩ := h.types j _ (List.getElem?_eq_getElem hj)
  rw [hpaths p _ ht, hpaths q _ htq] at hsame
  obtain ⟨q', _, hq', -, -, hnew⟩ := h.contributes j hj
  rw [Nat.zero_add] at hp hq hq' hnew
  obtain rfl := Option.some.inj (hq.symm.trans hq')
  exact hnew i hij (hsame ▸ hp)

theorem typeFacts_ofDocument {d : Document} : (ofDocument d).typeFacts path = .ok t ↔ d.types.get? path = some t := by
  simp only [typeFacts, ofDocument, Keyed.get?_empty]
  cases d.types.get? path <;> simp

theorem declaredMembers_eq_error_iff {d : Document} {c : Conventions} :
    (∃ fault, (ofDocument d).declaredMembers c path = .error fault) ↔ d.types.get? path = none := by
  simp only [declaredMembers, typeFacts, ofDocument, Keyed.get?_empty]
  cases d.types.get? path <;> simp [Except.map]

/-- The members of a class path are refused exactly if the document has no facts for it. Otherwise they are those of the
types of its one lineage that are not left out, those of the type itself first; no type stands in a lineage twice. The
fields of the model that resolving makes of an object type carry these members, one each and in their order: the name,
the kind, the class path and the page that the declared type has, the comment, and whether the member is required. -/
theorem declaredMembers_lineage (text : String) (d : Document) (h : Document.ofText text = .ok d) (c : Conventions)
    (path : String) :
    ((∃ fault, (ofDocument d).declaredMembers c path = .error fault) ↔ d.types.get? path = none) ∧
    (∀ t, d.types.get? path = some t → ∃ ts,
      (∀ ts', (ofDocument d).IsLineage c.rootType path 0 ts' ↔ ts' = ts) ∧
      ts.head? = some t ∧ (ts.map (·.classPath)).Nodup ∧
      (ofDocument d).declaredMembers c path = .ok (ts.flatMap fun t => t.members.filter fun m => !m.ignored)) ∧
    ∀ packages roots model t, (Modeler.resolveAll ⟨ofDocument d, c, packages⟩ roots).models.get? path = some model →
      d.types.get? path = some t → t.kind = .object →
      ∃ ms, (ofDocument d).declaredMembers c path = .ok ms ∧
        List.Forall₂ (Modeler.Carries c) ms model.fields := by
  have hpaths : ∀ p t, (ofDocument d).typeFacts p = .ok t → t.classPath = p :=
    fun p t ht => Document.classPath_eq h (typeFacts_ofDocument.1 ht)
  have hmembers : ∀ t, (ofDocument d).typeFacts path = .ok t →
      (ofDocument d).declaredMembers c path = .ok ((ofDocument d).membersOf c t) := by
    intro t ht
    rw [declaredMembers, ht]
    rfl
  refine ⟨declaredMembers_eq_error_iff, fun t ht => ?_, fun packages roots model t hmodel ht hk => ?_⟩
  · have ht := typeFacts_ofDocument.2 ht
    have hlineage := isLineage_lineage c ht (hpaths path t ht)
    refine ⟨(ofDocument d).lineage c t, fun ts' => ⟨fun h' => h'.unique hlineage, fun he => he ▸ hlineage⟩, rfl,
      hlineage.nodup hpaths, hmembers t ht⟩
  · have ht := typeFacts_ofDocument.2 ht
    obtain ⟨-, t', ht', rfl⟩ := ((Modeler.underway_resolveAll ⟨ofDocument d, c, packages⟩ roots).resolved.models path
      model).1 hmodel
    obtain rfl := Except.ok.inj (ht'.symm.trans ht)
    refine ⟨_, hmembers _ ht, ?_⟩
    rw [Modeler.fields_modelOf hk, List.forall₂_map_right_iff, List.forall₂_same]
    exact fun _ _ => Modeler.carries_iff.2 rfl

/-- Two types, each of which is the superclass of the other. -/
def circleText : String :=
  "\x7b\"types\":[\x7b\"classPath\":\"a.Hen\",\"superclass\":\"a.Egg\",\"members\":[" ++
      "\x7b\"name\":\"eggs\",\"type\":\"java.util.List<a.Egg>\",\"required\":true,\"comment\":\" All eggs \"\x7d]\x7d," ++
    "\x7b\"classPath\":\"a.Egg\",\"superclass\":\"a.Hen\",\"members\":[[\"hen\",\"a.Hen\"]]\x7d]\x7d"

/-- The fields of the model of a hen. -/
def henFields : List Field :=
  [⟨"eggs", .array, "a.Egg", "All eggs", false, none⟩, ⟨"hen", .object, "a.Hen", "", true, none⟩]

theorem circle_lineage : ∃ d ts model, Document.ofText circleText = .ok d ∧
    (ofDocument d).IsLineage Conventions.default.rootType "a.Hen" 0 ts ∧
    (ofDocument d).declaredMembers .default "a.Hen" = .ok (ts.flatMap fun t => t.members.filter fun m => !m.ignored) ∧
    ((ofDocument d).declaredMembers .default "a.Hen").toOption.map (·.map (·.name)) = some ["eggs", "hen"] ∧
    (Modeler.resolveAll ⟨ofDocument d, .default, []⟩ ["a.Hen"]).models.get? "a.Hen" = some model ∧
    model.fields = henFields ∧
    ∃ ms, (ofDocument d).declaredMembers .default "a.Hen" = .ok ms ∧ List.Forall₂ (Modeler.Carries .default) ms henFields := by
  have hread : (Document.ofText circleText).toOption.map (fun d =>
      (((ofDocument d).declaredMembers .default "a.Hen").toOption.map (·.map (·.name)),
        (d.types.get? "a.Hen").map (·.kind),
        ((Modeler.resolveAll ⟨ofDocument d, .default, []⟩ ["a.Hen"]).models.get? "a.Hen").map (·.fields))) =
      some (some ["eggs", "hen"], some .object, some henFields) := by decide +kernel
  obtain ⟨d, hd, hread⟩ := Option.map_eq_some_iff.1 hread
  simp only [Prod.mk.injEq, Option.map_eq_some_iff] at hread
  obtain ⟨hnames, ⟨t, ht, hkind⟩, model, hmodel, hfields⟩ := hread
  have hd := Outcome.toOption_eq_some_iff.1 hd
  obtain ⟨-, hfound, hcarried⟩ := declaredMembers_lineage circleText d hd .default "a.Hen"
  obtain ⟨ts, hts, -, -, hms⟩ := hfound t ht
  obtain ⟨ms, hms', hcarries⟩ := hcarried [] ["a.Hen"] model t hmodel ht hkind
  exact ⟨d, ts, model, hd, (hts ts).2 rfl, hms, Option.map_eq_some_iff.2 hnames, hmodel, hfields, ms, hms',
    hfields ▸ hcarries⟩

end Source

end Facts

end ApiDocs
