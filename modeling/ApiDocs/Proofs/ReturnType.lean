import ApiDocs.Proofs.TypeExpr.Classify
import ApiDocs.ReturnType
/-!
# What return types name

A declared return type is resolved turn by turn: each turn takes one envelope off, until a type is
reached that is not looked into. `peels_iff` says that this ends for every type, and where. So the
content is either plain, which no sequence, page or void type is, or one of the types that the
declaration wraps: what stands inside the first array, sequence or page in the envelopes, or a type
variable there.
-/
namespace ApiDocs

variable {c : Conventions} {path : String}

/-- The names of arrays are those of which an element type is known. -/
theorem TypeName.isSome_arrayElement? (path : String) :
    (TypeName.arrayElement? path).isSome = Text.endsWith path TypeName.arraySuffix :=
  Text.isSome_stripTail? TypeName.arraySuffix path

/-- What is no sequence is no array. -/
theorem TypeExpr.arrayElement?_of_not_isSequence {t : TypeExpr} (h : c.isSequence t.path = false) :
    t.arrayElement? = none := by
  rw [Conventions.isSequence, Bool.or_eq_false_iff] at h
  rw [arrayElement?, Option.map_eq_none_iff, ← Option.not_isSome_iff_eq_none, TypeName.isSome_arrayElement?, h.1]
  simp

/-- No name is known of a variable without a bound only. -/
theorem TypeExpr.erasure?_eq_none_iff {t : TypeExpr} :
    t.erasure? = none ↔ t.isVariable = true ∧ t.bound = none := by
  unfold erasure?
  cases t.isVariable <;> simp

namespace ReturnType

/-- A type that is taken off what it holds: one argument, and neither void nor an array, a sequence or
a page. -/
structure IsEnvelope (c : Conventions) (t inner : TypeExpr) : Prop where
  isVariable : t.isVariable = false
  isVoid : c.isVoid t.path = false
  arrayElement : t.arrayElement? = none
  terminalShape : terminalShape? c t.path = none
  args : t.args = [inner]

/-- The contents of a declared return type that are not plain. -/
inductive Wrapped (c : Conventions) : TypeExpr → String → Prop
  | envelope {t inner path} : IsEnvelope c t inner → Wrapped c inner path → Wrapped c t path
  | bound {t path} : t.isVariable = true → t.bound = some path → Wrapped c t path
  | inside {t path} : t.isVariable = false → c.Inside t path → Wrapped c t path
  | unresolved {t arg rest} : t.isVariable = false → (terminalShape? c t.path).isSome = true → t.args = arg :: rest →
      arg.isVariable = true → arg.bound = none → Wrapped c t t.path

/-- A class that is no sequence, page or void type. -/
def IsPlain (c : Conventions) (path : String) : Prop :=
  c.isSequence path = false ∧ c.pageKind? path = none ∧ c.isVoid path = false

/-- The turns that take nothing off, with what a type in the envelope `outer` is resolved to. -/
inductive Stops (c : Conventions) (outer : String) (t : TypeExpr) : ReturnType → Prop
  | typeVariable : t.isVariable = true → Stops c outer t ⟨some (t.bound.getD outer), .plain, true⟩
  | void : t.isVariable = false → c.isVoid t.path = true → Stops c outer t ⟨none, .plain, false⟩
  | array {element} : t.isVariable = false → c.isVoid t.path = false → t.arrayElement? = some element →
      Stops c outer t ⟨some element.path, .array, false⟩
  | terminal {shape} : t.isVariable = false → c.isVoid t.path = false → t.arrayElement? = none →
      terminalShape? c t.path = some shape → Stops c outer t (ofTerminal c t.path shape t.args)
  | plain : t.isVariable = false → IsPlain c t.path → t.args.length ≠ 1 → Stops c outer t (.plain t.path)

/-- The turns of resolving a type in the envelope `outer`, from first to last. -/
inductive Peels (c : Conventions) : String → TypeExpr → ReturnType → Prop
  | stop {outer t r} : Stops c outer t r → Peels c outer t r
  | turn {outer t inner r} : IsEnvelope c t inner → Peels c t.path inner r → Peels c outer t r

variable {outer : String} {t inner : TypeExpr} {r : ReturnType}

theorem terminalShape?_eq_none_iff : terminalShape? c path = none ↔
    c.isSequence path = false ∧ c.pageKind? path = none := by
  unfold terminalShape?
  cases c.isSequence path <;> simp

/-- Sequences and pages are called by what stands inside them. -/
theorem isSome_terminalShape?_iff : (terminalShape? c path).isSome = true ↔
    c.isSequence path = true ∨ (c.pageKind? path).isSome = true := by
  unfold terminalShape?
  cases c.isSequence path <;> simp

/-! ### The turns -/

/-- Plain classes of one argument are envelopes. -/
theorem isEnvelope_iff : IsEnvelope c t inner ↔ t.isVariable = false ∧ IsPlain c t.path ∧ t.args = [inner] := by
  constructor
  · intro h
    obtain ⟨hseq, hpage⟩ := terminalShape?_eq_none_iff.1 h.terminalShape
    exact ⟨h.isVariable, ⟨hseq, hpage, h.isVoid⟩, h.args⟩
  · rintro ⟨hvar, ⟨hseq, hpage, hvoid⟩, hargs⟩
    exact ⟨hvar, hvoid, TypeExpr.arrayElement?_of_not_isSequence hseq,
      terminalShape?_eq_none_iff.2 ⟨hseq, hpage⟩, hargs⟩

theorem IsEnvelope.sizeOf_lt (h : IsEnvelope c t inner) : sizeOf inner < sizeOf t := by
  obtain ⟨path, args, isVariable, bound⟩ := t
  cases h.args
  simp
  omega

/-- Every turn stops at the type or takes an envelope off. -/
theorem stops_or_isEnvelope (c : Conventions) (outer : String) (t : TypeExpr) :
    (∃ r, Stops c outer t r) ∨ ∃ inner, IsEnvelope c t inner := by
  cases hvar : t.isVariable with
  | true => exact .inl ⟨_, .typeVariable hvar⟩
  | false =>
    cases hvoid : c.isVoid t.path with
    | true => exact .inl ⟨_, .void hvar hvoid⟩
    | false =>
      cases ha : t.arrayElement? with
      | some element => exact .inl ⟨_, .array hvar hvoid ha⟩
      | none =>
        cases hs : terminalShape? c t.path with
        | some shape => exact .inl ⟨_, .terminal hvar hvoid ha hs⟩
        | none =>
          obtain ⟨hseq, hpage⟩ := terminalShape?_eq_none_iff.1 hs
          by_cases hargs : t.args.length = 1
          · obtain ⟨inner, hinner⟩ := List.length_eq_one_iff.1 hargs
            exact .inr ⟨inner, hvar, hvoid, ha, hs, hinner⟩
          · exact .inl ⟨_, .plain hvar ⟨hseq, hpage, hvoid⟩ hargs⟩

/-- One turn, for a type that is not taken apart. -/
theorem peel_eq (c : Conventions) (outer : String) (t : TypeExpr) : peel c outer t =
    if t.isVariable then ⟨some (t.bound.getD outer), .plain, true⟩
    else if c.isVoid t.path then ⟨none, .plain, false⟩
    else match t.arrayElement? with
      | some element => ⟨some element.path, .array, false⟩
      | none =>
        match terminalShape? c t.path with
        | some shape => ofTerminal c t.path shape t.args
        | none => peelArguments c t.path t.args := by
  obtain ⟨path, args, isVariable, bound⟩ := t
  rw [peel, TypeExpr.arrayElement?]
  cases TypeName.arrayElement? path <;> rfl

theorem Stops.peel_eq (h : Stops c outer t r) : peel c outer t = r := by
  rw [ReturnType.peel_eq]
  cases h with
  | typeVariable hvar => simp [hvar]
  | void hvar hvoid => simp [hvar, hvoid]
  | array hvar hvoid ha => simp [hvar, hvoid, ha]
  | terminal hvar hvoid ha hs => simp [hvar, hvoid, ha, hs]
  | plain hvar hplain hargs =>
    obtain ⟨hseq, hpage, hvoid⟩ := hplain
    have hs := terminalShape?_eq_none_iff.2 ⟨hseq, hpage⟩
    simp only [hvar, hvoid, TypeExpr.arrayElement?_of_not_isSequence hseq, hs, Bool.false_eq_true, if_false]
    match t.args, hargs with
    | [], _ => rfl
    | _ :: _ :: _, _ => rfl

/-- A turn that takes an envelope off goes on inside it; the envelopes around it are forgotten. -/
theorem IsEnvelope.peel_eq (h : IsEnvelope c t inner) (outer : String) : peel c outer t = peel c t.path inner := by
  rw [ReturnType.peel_eq]
  simp [h.isVariable, h.isVoid, h.arrayElement, h.terminalShape, h.args, peelArguments]

theorem Peels.eq_peel (h : Peels c outer t r) : r = peel c outer t := by
  induction h with
  | stop hs => exact hs.peel_eq.symm
  | turn henv _ ih => rw [ih, henv.peel_eq]

/-- The turns come to an end: the type that is left gets smaller. -/
theorem peels_peel (c : Conventions) (outer : String) (t : TypeExpr) : Peels c outer t (peel c outer t) := by
  rcases stops_or_isEnvelope c outer t with ⟨r, hs⟩ | ⟨inner, henv⟩
  · exact hs.peel_eq.symm ▸ .stop hs
  · have := henv.sizeOf_lt
    exact henv.peel_eq outer ▸ .turn henv (peels_peel c t.path inner)
termination_by sizeOf t

/-- Resolving a type takes finitely many turns and has one result. -/
theorem peels_iff : Peels c outer t r ↔ r = peel c outer t :=
  ⟨Peels.eq_peel, fun h => h ▸ peels_peel c outer t⟩

/-! ### The content -/

/-- The content of a sequence or a page is its first argument, or the root type without arguments; an
argument of which no name is known gives way to the sequence or page itself. -/
theorem content_ofTerminal {shape : ReturnShape} {args : List TypeExpr} {content : String}
    (h : (ofTerminal c path shape args).content = some content) :
    (args = [] ∧ content = c.rootType) ∨ ∃ arg rest, args = arg :: rest ∧ (arg.erasure? = some content ∨
      arg.erasure? = none ∧ content = path ∧ (ofTerminal c path shape args).ambiguous = true) := by
  cases args with
  | nil =>
    cases h
    exact .inl ⟨rfl, rfl⟩
  | cons arg rest =>
    refine .inr ⟨arg, rest, rfl, ?_⟩
    simp only [ofTerminal, TypeExpr.erasure?] at h ⊢
    cases hav : arg.isVariable with
    | false =>
      simp only [hav, Bool.false_eq_true, if_false] at h
      exact .inl (by simpa using h)
    | true =>
      simp only [hav, if_true, Option.some.injEq] at h ⊢
      cases hb : arg.bound with
      | some known =>
        rw [hb, Option.getD_some] at h
        exact .inl (congrArg some h)
      | none =>
        rw [hb, Option.getD_none] at h
        exact .inr ⟨rfl, h.symm, trivial⟩

/-- What stands in a sequence or a page. -/
theorem inside_of_terminalShape {shape : ReturnShape} (hvar : t.isVariable = false)
    (hs : terminalShape? c t.path = some shape) : c.Inside t (c.firstArgument t) := by
  have herased : c.erasedName t = t.path := by simp [Conventions.erasedName, TypeExpr.erasure?, hvar]
  refine .argument ?_
  rw [Conventions.page?, Option.isSome_map, herased]
  exact isSome_terminalShape?_iff.1 (by simp [hs])

/-- Content is wrapped, or plain, or named by the envelope around a variable without a bound. -/
theorem Peels.content (h : Peels c outer t r) (hp : r.content = some path) :
    Wrapped c t path ∨ (t.isVariable = true ∧ t.bound = none ∧ path = outer) ∨ IsPlain c path := by
  induction h with
  | @stop outer t r hs =>
    cases hs with
    | typeVariable hvar =>
      obtain rfl := Option.some.inj hp
      cases hb : t.bound with
      | some known => exact .inl (.bound hvar hb)
      | none => exact .inr (.inl ⟨hvar, rfl, rfl⟩)
    | void => cases hp
    | array hvar _ ha =>
      obtain rfl := Option.some.inj hp
      exact .inl (.inside hvar (.element ha))
    | terminal hvar _ _ hs =>
      have hinside := inside_of_terminalShape hvar hs
      rcases content_ofTerminal hp with ⟨hargs, rfl⟩ | ⟨arg, rest, hargs, hknown | ⟨hknown, rfl, -⟩⟩
      · exact .inl (.inside hvar (by simpa [Conventions.firstArgument, hargs] using hinside))
      · refine .inl (.inside hvar ?_)
        simpa [Conventions.firstArgument, hargs, Conventions.erasedName, hknown] using hinside
      · obtain ⟨hav, hb⟩ := TypeExpr.erasure?_eq_none_iff.1 hknown
        exact .inl (.unresolved hvar (by simp [hs]) hargs hav hb)
    | plain _ hplain =>
      obtain rfl := Option.some.inj hp
      exact .inr (.inr hplain)
  | turn henv _ ih =>
    rcases ih hp with hw | ⟨-, -, rfl⟩ | hplain
    · exact .inl (.envelope henv hw)
    · exact .inr (.inr (isEnvelope_iff.1 henv).2.1)
    · exact .inr (.inr hplain)

/-- Content is wrapped, or plain, or named by the envelope around a variable without a bound. -/
theorem peel_content (c : Conventions) (t : TypeExpr) (outer path : String)
    (h : (peel c outer t).content = some path) :
    Wrapped c t path ∨ (t.isVariable = true ∧ t.bound = none ∧ path = outer) ∨ IsPlain c path :=
  (peels_peel c outer t).content h

end ReturnType

end ApiDocs
