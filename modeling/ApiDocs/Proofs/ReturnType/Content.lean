import ApiDocs.Proofs.ReturnType
import ApiDocs.Proofs.TypeExpr.Reading
import Mathlib.Logic.Relation
/-!
# What the content of a return type is

A return type that is read from a text is looked into as far as plain envelopes reach, down to its core, and void at the
core is no content. Real content is a class that is no sequence, page or void type and is not called like a type variable
of the declared type. What stands in a sequence, a page or an array is taken as it is, so content may also be a void
type, a sequence or a page that stands there, or a variable. `Astray` lists all content that is not real.
-/
namespace ApiDocs

namespace TypeExpr

/-- The type, its arguments, their arguments, and so on. -/
def HasPart : TypeExpr → TypeExpr → Prop :=
  Relation.ReflTransGen fun t arg => arg ∈ t.args

/-- What a type is called, with or without the brackets of an array. -/
def IsCalled (t : TypeExpr) (name : String) : Prop :=
  t.path = name ∨ ∃ rest, t.path.toList = name.toList ++ '[' :: rest

/-- A type variable of that name occurs in the type, perhaps as the element of an array. -/
def HasVariable (t : TypeExpr) (name : String) : Prop :=
  ∃ u, t.HasPart u ∧ u.IsCalled name ∧ u.args = [] ∧ (u.isVariable = true ∨ VariableName name.toList)

/-- What the names in a type that is read are like: those of variables are short or a question mark,
those of classes without arguments are not. -/
inductive Legible : TypeExpr → Prop
  | typeVariable {name} : VariableName name.toList ∨ name = "?" → Legible (.unbound name)
  | classType {path args} : path.toList.head? ≠ some '?' → (args = [] → ¬ VariableName path.toList) →
      (∀ arg ∈ args, Legible arg) → Legible (.generic path args)

variable {t u : TypeExpr} {name : String} {cs cs₁ rest : List Char}

theorem VariableName.not_mem (h : VariableName cs) : '[' ∉ cs := by
  have outside : ∀ c : Char, c ≤ 'Z' → '[' ≠ c := by
    rintro c hc rfl
    exact absurd hc (by decide)
  cases h with
  | letter _ h₂ => simp [outside _ h₂]
  | numbered _ h₂ hd =>
    have hdigit : ∀ d : Char, d.isDigit = true → '[' ≠ d := by
      rintro d hd rfl
      exact absurd hd (by decide)
    simp [outside _ h₂, hdigit _ hd]

theorem Name.head?_append (h : Name cs cs₁ rest) (suffix : List Char) : (cs ++ suffix).head? ≠ some '?' := by
  obtain ⟨c, tail, rfl⟩ := List.exists_cons_of_ne_nil h.nonempty
  rintro ⟨rfl⟩
  exact absurd (h.chars '?' List.mem_cons_self) (by decide)

mutual

theorem Derives.legible : ∀ {t : TypeExpr} {cs rest : List Char}, Derives t cs rest → Legible t
  | _, _, _, .wildcard _ => .typeVariable (.inr rfl)
  | _, _, _, .bounded _ _ h => Derives.legible h
  | _, _, _, .unbound _ hv => .typeVariable (.inl (by simpa using hv))
  | _, _, _, .plain h _ hv => .classType (by simpa using h.head?_append _) (fun _ => by simpa using hv) (by simp)
  | _, _, _, .generic h _ ha _ =>
    .classType (by simpa using h.head?_append _) (fun hnil => absurd hnil ha.ne_nil) (DerivesAll.legible ha)

theorem DerivesAll.legible : ∀ {ts : List TypeExpr} {cs rest : List Char}, DerivesAll ts cs rest → ∀ t ∈ ts, Legible t
  | _, _, _, .last h _ => List.forall_mem_singleton.2 (Derives.legible h)
  | _, _, _, .more h _ ht => List.forall_mem_cons.2 ⟨Derives.legible h, DerivesAll.legible ht⟩

end

/-- Every type that is read is legible. -/
theorem legible_of_parse {s : String} (h : parse s = .ok t) : Legible t := by
  obtain ⟨rest, hd, -⟩ := spells_of_parseChars h
  exact hd.legible

theorem Legible.hasPart (h : Legible t) (hu : t.HasPart u) : Legible u := by
  induction hu with
  | refl => exact h
  | tail _ harg ih =>
    cases ih with
    | typeVariable => cases harg
    | classType _ _ hargs => exact hargs _ harg

/-- A variable in a type that is read has no bound. -/
theorem Legible.bound_eq_none (h : Legible t) (hvar : t.isVariable = true) : t.bound = none := by
  cases h with
  | typeVariable => rfl
  | classType => cases hvar

/-- Variables are called by their names only. -/
theorem Legible.variableName (h : Legible t) (hv : t.HasVariable name) : VariableName name.toList ∨ name = "?" := by
  obtain ⟨u, hu, hcalled, -, hvar | hname⟩ := hv
  · cases h.hasPart hu with
    | @typeVariable called hname =>
      rcases hcalled with rfl | ⟨rest, hrest⟩
      · exact hname
      · -- There are no brackets in the name of a variable.
        have hmem : '[' ∈ called.toList := by simp [show called.toList = _ from hrest]
        rcases hname with hname | rfl
        · exact absurd hmem hname.not_mem
        · exact absurd hmem (by decide)
    | classType => cases hvar
  · exact .inl hname

/-- A class in a legible type that is called like one of its variables has arguments. -/
theorem Legible.args_ne_nil (h : Legible t) (hu : t.HasPart u) (hvar : u.isVariable = false) (hv : t.HasVariable u.path) :
    u.args ≠ [] := by
  intro hnil
  cases h.hasPart hu with
  | typeVariable => cases hvar
  | classType hhead hname =>
    rcases h.variableName hv with hvariable | hwildcard
    · exact hname hnil hvariable
    · exact hhead (congrArg (fun path : String => path.toList.head?) hwildcard)

end TypeExpr

namespace ReturnType

open TypeExpr

/-- A plain class that is called like no type variable of the declared type. -/
def IsReal (c : Conventions) (t : TypeExpr) (path : String) : Prop :=
  IsPlain c path ∧ ¬ t.HasVariable path

/-- What is left of a type when no envelope can be taken off any more. -/
def IsCore (c : Conventions) (t u : TypeExpr) : Prop :=
  Relation.ReflTransGen (IsEnvelope c) t u ∧ ∀ inner, ¬ IsEnvelope c u inner

/-- A type that is resolved to what it holds: a sequence or a page that is no array. -/
structure IsHolder (c : Conventions) (u : TypeExpr) : Prop where
  isVariable : u.isVariable = false
  isVoid : c.isVoid u.path = false
  arrayElement : u.arrayElement? = none
  terminalShape : (terminalShape? c u.path).isSome = true

/-- The content of a declared type with the core `u` where it is not real. -/
inductive Astray (c : Conventions) (t u : TypeExpr) : String → Prop
  /-- The declared type is a variable, or nothing is said of what a holder holds. -/
  | root : (u = t ∧ t.isVariable = true) ∨ (IsHolder c u ∧ u.args = []) → ¬ IsReal c t c.rootType →
      Astray c t u c.rootType
  /-- A variable is erased to the holder that it stands in. -/
  | erased {arg rest} : IsHolder c u → u.args = arg :: rest → arg.isVariable = true → Astray c t u u.path
  /-- What a holder holds is void, or a sequence or a page itself, or a class with arguments that is called like a
  variable. -/
  | held {arg rest} : IsHolder c u → u.args = arg :: rest → arg.isVariable = false →
      (¬ IsPlain c arg.path ∨ arg.args ≠ [] ∧ t.HasVariable arg.path) → Astray c t u arg.path
  /-- The element of an array is void, a sequence or a page, or called like a variable. -/
  | element {element} : u.isVariable = false → c.isVoid u.path = false → u.arrayElement? = some element →
      ¬ IsReal c t element.path → Astray c t u element.path
  /-- The core is a plain class with arguments that is called like a variable. -/
  | core : u.isVariable = false → IsPlain c u.path → u.args ≠ [] → t.HasVariable u.path → Astray c t u u.path
  /-- The core is a variable, and the envelope around it is called like one. -/
  | envelope {e} : Relation.ReflTransGen (IsEnvelope c) t e → IsEnvelope c e u → u.isVariable = true →
      t.HasVariable e.path → Astray c t u e.path

variable {c : Conventions} {outer path : String} {t u inner : TypeExpr} {r : ReturnType}

theorem hasPart_of_envelopes (h : Relation.ReflTransGen (IsEnvelope c) t u) : t.HasPart u :=
  Relation.ReflTransGen.mono (fun _ _ (henv : IsEnvelope c _ _) => henv.args ▸ List.mem_singleton_self _) _ _ h

theorem Stops.not_isEnvelope (h : Stops c outer t r) : ¬ IsEnvelope c t inner := by
  intro henv
  cases h with
  | typeVariable hvar => simp [henv.isVariable] at hvar
  | void _ hvoid => simp [henv.isVoid] at hvoid
  | array _ _ ha => simp [henv.arrayElement] at ha
  | terminal _ _ _ hs => simp [henv.terminalShape] at hs
  | plain _ _ hargs => simp [henv.args] at hargs

/-- The turns lead to the core, which is the type itself or stands in an envelope of it. -/
theorem Peels.exists_core (h : Peels c outer t r) : ∃ u outer', IsCore c t u ∧ Stops c outer' u r ∧
    (u = t ∧ outer' = outer ∨
      ∃ e, Relation.ReflTransGen (IsEnvelope c) t e ∧ IsEnvelope c e u ∧ outer' = e.path) := by
  induction h with
  | stop hs => exact ⟨_, _, ⟨.refl, fun _ => hs.not_isEnvelope⟩, hs, .inl ⟨rfl, rfl⟩⟩
  | turn henv _ ih =>
    obtain ⟨u, outer', ⟨hcore, hlast⟩, hs, hwhere⟩ := ih
    refine ⟨u, outer', ⟨.head henv hcore, hlast⟩, hs, .inr ?_⟩
    rcases hwhere with ⟨rfl, rfl⟩ | ⟨e, he, hin, rfl⟩
    · exact ⟨_, .refl, henv, rfl⟩
    · exact ⟨e, .head henv he, hin, rfl⟩

/-- A type has one core. -/
theorem IsCore.unique {v : TypeExpr} (h : IsCore c t u) (h' : IsCore c t v) : u = v := by
  have hunique : Relator.RightUnique (IsEnvelope c) := by
    intro e i i' hi hi'
    exact List.head_eq_of_cons_eq (hi.args.symm.trans hi'.args)
  rcases h.1.total_of_right_unique hunique h'.1 with hrun | hrun
  · rcases hrun.cases_head with rfl | ⟨inner, henv, -⟩
    · rfl
    · exact absurd henv (h.2 inner)
  · rcases hrun.cases_head with rfl | ⟨inner, henv, -⟩
    · rfl
    · exact absurd henv (h'.2 inner)

/-! ### What a core gives for content -/

/-- What stands in envelopes is resolved in the innermost of them. -/
theorem peel_of_envelopes {e : TypeExpr} (h : Relation.ReflTransGen (IsEnvelope c) t e) (hin : IsEnvelope c e u)
    (outer : String) : peel c outer t = peel c e.path u := by
  induction h using Relation.ReflTransGen.head_induction_on generalizing outer with
  | refl => exact hin.peel_eq outer
  | head henv _ ih => exact (henv.peel_eq outer).trans (ih _)

theorem content_ofTerminal_eq (c : Conventions) (path : String) (shape : ReturnShape) (args : List TypeExpr) :
    (ofTerminal c path shape args).content = some (match args with
      | [] => c.rootType
      | arg :: _ => if arg.isVariable then arg.bound.getD path else arg.path) := by
  cases args with
  | nil => rfl
  | cons arg rest => cases hvar : arg.isVariable <;> simp [ofTerminal, hvar]

/-- A holder is resolved to its first argument by name. -/
theorem IsHolder.content_peel (h : IsHolder c u) (outer : String) :
    (peel c outer u).content = some (match u.args with
      | [] => c.rootType
      | arg :: _ => if arg.isVariable then arg.bound.getD u.path else arg.path) := by
  obtain ⟨shape, hshape⟩ := Option.isSome_iff_exists.1 h.terminalShape
  rw [(Stops.terminal h.isVariable h.isVoid h.arrayElement hshape).peel_eq, content_ofTerminal_eq]

theorem IsHolder.not_isPlain (h : IsHolder c u) : ¬ IsPlain c u.path := by
  rintro ⟨hseq, hpage, -⟩
  have := h.terminalShape
  rw [terminalShape?_eq_none_iff.2 ⟨hseq, hpage⟩] at this
  cases this

/-- There is no content exactly if the core is void. -/
theorem Stops.content_eq_none_iff (h : Stops c outer u r) :
    r.content = none ↔ u.isVariable = false ∧ c.isVoid u.path = true := by
  cases h with
  | typeVariable hvar => simp [hvar]
  | void hvar hvoid => simp [hvar, hvoid]
  | array _ hvoid => simp [hvoid]
  | terminal _ hvoid => simp [hvoid, content_ofTerminal_eq]
  | plain _ hplain => simp [ReturnType.plain, hplain.2.2]

/-- What a core in a legible type gives for content is real, or the content has gone astray. -/
theorem isReal_or_astray (ht : Legible t) (hu : t.HasPart u) (hs : Stops c outer u r)
    (hwhere : u = t ∧ outer = c.erasedName t ∨
      ∃ e, Relation.ReflTransGen (IsEnvelope c) t e ∧ IsEnvelope c e u ∧ outer = e.path)
    (hp : r.content = some path) : IsReal c t path ∨ Astray c t u path := by
  cases hs with
  | typeVariable hvar =>
    obtain rfl := Option.some.inj hp
    cases ht.hasPart hu with
    | classType => cases hvar
    | typeVariable =>
      rcases hwhere with ⟨rfl, rfl⟩ | ⟨e, he, hin, rfl⟩
      · exact or_iff_not_imp_left.2 (.root (.inl ⟨rfl, rfl⟩))
      · by_cases hv : t.HasVariable e.path
        · exact .inr (.envelope he hin hvar hv)
        · exact .inl ⟨(isEnvelope_iff.1 hin).2.1, hv⟩
  | void => cases hp
  | array hvar hvoid ha =>
    obtain rfl := Option.some.inj hp
    exact or_iff_not_imp_left.2 (.element hvar hvoid ha)
  | @terminal shape hvar hvoid ha hshape =>
    have hholder : IsHolder c u := ⟨hvar, hvoid, ha, by simp [hshape]⟩
    rcases content_ofTerminal hp with ⟨hargs, rfl⟩ | ⟨arg, rest, hargs, hknown | ⟨hknown, rfl, -⟩⟩
    · exact or_iff_not_imp_left.2 (.root (.inr ⟨hholder, hargs⟩))
    · have hpart : t.HasPart arg := hu.tail (hargs ▸ List.mem_cons_self)
      cases ht.hasPart hpart with
      | typeVariable => cases hknown
      | @classType name args =>
        cases hknown
        by_cases hv : t.HasVariable name
        · exact .inr (.held hholder hargs rfl (.inr ⟨ht.args_ne_nil hpart rfl hv, hv⟩))
        · by_cases hplain : IsPlain c name
          · exact .inl ⟨hplain, hv⟩
          · exact .inr (.held hholder hargs rfl (.inl hplain))
    · exact .inr (.erased hholder hargs (TypeExpr.erasure?_eq_none_iff.1 hknown).1)
  | plain hvar hplain =>
    obtain rfl := Option.some.inj hp
    by_cases hv : t.HasVariable u.path
    · exact .inr (.core hvar hplain (ht.args_ne_nil hu hvar hv) hv)
    · exact .inl ⟨hplain, hv⟩

/-- Content that has gone astray is what the type is resolved to, and it is not real. -/
theorem Astray.content (h : Astray c t u path) (ht : Legible t) (hcore : IsCore c t u)
    (hpeel : peel c outer u = ofType c t) : (ofType c t).content = some path ∧ ¬ IsReal c t path := by
  have hu : t.HasPart u := hasPart_of_envelopes hcore.1
  cases h with
  | root hroot hreal =>
    refine ⟨?_, hreal⟩
    rcases hroot with ⟨-, hvar⟩ | ⟨hholder, hargs⟩
    · cases ht with
      | typeVariable => simp [ofType, peel_eq, Conventions.erasedName, TypeExpr.erasure?, TypeExpr.unbound]
      | classType => cases hvar
    · rw [← hpeel, hholder.content_peel, hargs]
  | @erased arg rest hholder hargs hvar =>
    refine ⟨?_, fun hreal => hholder.not_isPlain hreal.1⟩
    have hbound : arg.bound = none := (ht.hasPart (hu.tail (hargs ▸ List.mem_cons_self))).bound_eq_none hvar
    rw [← hpeel, hholder.content_peel, hargs]
    simp [hvar, hbound]
  | held hholder hargs hvar hastray =>
    refine ⟨?_, fun hreal => hastray.elim (fun hplain => hplain hreal.1) fun hv => hreal.2 hv.2⟩
    rw [← hpeel, hholder.content_peel, hargs]
    simp [hvar]
  | element hvar hvoid ha hreal =>
    refine ⟨?_, hreal⟩
    rw [← hpeel, (Stops.array hvar hvoid ha).peel_eq]
  | core hvar hplain _ hv =>
    refine ⟨?_, fun hreal => hreal.2 hv⟩
    have hone : u.args.length ≠ 1 := fun hone => by
      obtain ⟨inner, hinner⟩ := List.length_eq_one_iff.1 hone
      exact hcore.2 inner (isEnvelope_iff.2 ⟨hvar, hplain, hinner⟩)
    rw [← hpeel, (Stops.plain hvar hplain hone).peel_eq]
    rfl
  | envelope he hin hvar hv =>
    refine ⟨?_, fun hreal => hreal.2 hv⟩
    have hbound : u.bound = none := (ht.hasPart hu).bound_eq_none hvar
    rw [ofType, peel_of_envelopes he hin, (Stops.typeVariable hvar).peel_eq, hbound]
    rfl

/-- A type that is read has one core. It has no content exactly if the core is void, and its content is not real exactly
where it has gone astray. -/
theorem content_of_parse {s : String} (h : TypeExpr.parse s = .ok t) (c : Conventions) :
    ∃ u, (∀ v, IsCore c t v ↔ v = u) ∧
      ((ofType c t).content = none ↔ u.isVariable = false ∧ c.isVoid u.path = true) ∧
      ∀ path, ((ofType c t).content = some path ∧ ¬ IsReal c t path) ↔ Astray c t u path := by
  have ht := legible_of_parse h
  obtain ⟨u, outer, hcore, hs, hwhere⟩ := (peels_peel c (c.erasedName t) t).exists_core
  refine ⟨u, fun v => ⟨fun hv => hv.unique hcore, fun he => he ▸ hcore⟩, hs.content_eq_none_iff, fun path => ⟨?_, ?_⟩⟩
  · rintro ⟨hp, hreal⟩
    exact (isReal_or_astray ht (hasPart_of_envelopes hcore.1) hs hwhere hp).resolve_left hreal
  · exact fun hastray => hastray.content ht hcore hs.peel_eq

/-- A list of nothing. -/
def listOfVoid : TypeExpr :=
  .generic "java.util.List" [.named "java.lang.Void"]

theorem content_of_parse_void :
    TypeExpr.parse "com.x.Result<java.util.List<java.lang.Void>>" = .ok (.generic "com.x.Result" [listOfVoid]) ∧
    IsCore .default (.generic "com.x.Result" [listOfVoid]) listOfVoid ∧
    Astray .default (.generic "com.x.Result" [listOfVoid]) listOfVoid "java.lang.Void" := by
  have hp : TypeExpr.parse "com.x.Result<java.util.List<java.lang.Void>>" =
      .ok (.generic "com.x.Result" [listOfVoid]) := by decide +kernel
  obtain ⟨u, hu, -, hastray⟩ := content_of_parse hp .default
  have hcore : IsCore .default (.generic "com.x.Result" [listOfVoid]) listOfVoid := by
    refine ⟨.single (isEnvelope_iff.2 ⟨rfl, by unfold IsPlain; decide, rfl⟩), fun inner henv => ?_⟩
    have hplain := (isEnvelope_iff.1 henv).2.1
    exact absurd hplain.1 (by decide)
  obtain rfl := (hu _).1 hcore
  exact ⟨hp, hcore, (hastray _).1 ⟨by decide, fun hreal => absurd hreal.1.2.2 (by decide)⟩⟩

/-- The content of a list of nothing is the void type. -/
theorem content_fails_void : ¬ ∀ c s t path, TypeExpr.parse s = .ok t → (ofType c t).content = some path →
    IsReal c t path := by
  intro h
  have hp : TypeExpr.parse "java.util.List<java.lang.Void>" = .ok listOfVoid := by decide +kernel
  obtain ⟨⟨-, -, hvoid⟩, -⟩ := h .default _ _ "java.lang.Void" hp (by decide)
  exact absurd hvoid (by decide)

end ReturnType

end ApiDocs
