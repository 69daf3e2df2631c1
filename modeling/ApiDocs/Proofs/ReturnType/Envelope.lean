import ApiDocs.Proofs.ReturnType
/-!
# Envelopes are transparent

A declared return type in envelopes is resolved like the type itself, however many envelopes there are
and whatever the type: a sequence, a page, void, a class of several arguments, a variable with a bound.
What a turn hands on to the next is only the name of the envelope it took off (`peel_within`), and
nothing but a variable without a bound reads it.
-/
namespace ApiDocs

/-- The type in envelopes of these names, from the outermost to the innermost. -/
def TypeExpr.within (t : TypeExpr) : List String → TypeExpr
  | [] => t
  | name :: names => .generic name [t.within names]

namespace ReturnType

variable {c : Conventions} {names : List String} {t : TypeExpr}

/-- The envelope that a type is found in does not matter unless the type is a variable without a
bound. -/
theorem peel_of_known (h : t.isVariable = true → t.bound.isSome = true) (outer outer' : String) :
    peel c outer t = peel c outer' t := by
  rw [peel_eq, peel_eq]
  cases hvar : t.isVariable with
  | false => rfl
  | true =>
    obtain ⟨known, hb⟩ := Option.isSome_iff_exists.1 (h hvar)
    simp [hb]

/-- Of plain envelopes only the innermost is still known when the type inside is reached. -/
theorem peel_within (hn : ∀ name ∈ names, IsPlain c name) (t : TypeExpr) (outer : String) :
    peel c outer (t.within names) = peel c (names.getLast?.getD outer) t := by
  induction names generalizing outer with
  | nil => rfl
  | cons name names ih =>
    obtain ⟨hname, hnames⟩ := List.forall_mem_cons.1 hn
    have henv : IsEnvelope c (t.within (name :: names)) (t.within names) := isEnvelope_iff.2 ⟨rfl, hname, rfl⟩
    calc peel c outer (t.within (name :: names))
      _ = peel c name (t.within names) := henv.peel_eq outer
      _ = peel c (names.getLast?.getD name) t := ih hnames name
      _ = peel c ((name :: names).getLast?.getD outer) t := by rw [List.getLast?_cons, Option.getD_some]

/-- Resolving ends for every type, and plain envelopes do not change what it ends with: a type in them
has the content, the shape and the ambiguity that it has by itself. A variable without a bound is
resolved to the innermost envelope, as plain content that is ambiguous. -/
theorem ofType_within (c : Conventions) (names : List String) (hn : ∀ name ∈ names, IsPlain c name) (t : TypeExpr) :
    ((t.isVariable = true → t.bound.isSome = true) → ofType c (t.within names) = ofType c t) ∧
    (t.isVariable = true → t.bound = none → ∀ innermost, names.getLast? = some innermost →
      ofType c (t.within names) = ⟨some innermost, .plain, true⟩) ∧
    (∀ u r, Peels c (c.erasedName u) u r ↔ r = ofType c u) := by
  refine ⟨fun hknown => ?_, fun hvar hb innermost hlast => ?_, fun u r => peels_iff⟩
  · rw [ofType, peel_within hn, peel_of_known hknown, ofType]
  · rw [ofType, peel_within hn, hlast, peel_eq]
    simp [hvar, hb]

/-- A page of rows in two envelopes. -/
def wrappedRows : TypeExpr :=
  (TypeExpr.generic "one.axim.framework.core.data.XPage" [.named "com.x.Row"]).within ["com.x.Response", "com.x.Result"]

theorem ofType_wrappedRows : ofType .default wrappedRows = ⟨some "com.x.Row", .paged .xpage, false⟩ ∧
    ofType .default ((TypeExpr.unbound "T").within ["com.x.Response", "com.x.Result"]) =
      ⟨some "com.x.Result", .plain, true⟩ := by
  have hn : ∀ name ∈ ["com.x.Response", "com.x.Result"], IsPlain .default name := by unfold IsPlain; decide
  obtain ⟨hrows, -, -⟩ := ofType_within .default _ hn (.generic "one.axim.framework.core.data.XPage" [.named "com.x.Row"])
  obtain ⟨-, hvariable, -⟩ := ofType_within .default _ hn (.unbound "T")
  exact ⟨(hrows (by decide)).trans (by decide), hvariable rfl rfl _ rfl⟩

end ReturnType

end ApiDocs
