import ApiDocs.TypeExpr.Parser
import Mathlib.Data.List.TakeWhile
/-!
# The grammar of type expressions

`Derives` is the grammar as a relation between a type, a text that begins with it, and the text that
is left, with a constructor for each production. What is read follows the grammar, and a type that the
grammar derives is read, up to the blanks after it, wherever a comma, a closing bracket or the end of
the text follows. The bound of the calls is never met.
-/
namespace ApiDocs.TypeExpr

/-! ## The grammar -/

/-- Blanks of ASCII only. -/
def Blanks (bs : List Char) : Prop :=
  ∀ c ∈ bs, Text.isAsciiBlank c = true

/-- The text begins with a token, perhaps after blanks, and `rest` is left. -/
def Token (token cs rest : List Char) : Prop :=
  ∃ bs, Blanks bs ∧ cs = bs ++ (token ++ rest)

/-- The text begins with a name, perhaps after blanks. A name goes on as long as it can. -/
structure Name (name cs rest : List Char) : Prop where
  token : Token name cs rest
  nonempty : name ≠ []
  chars : ∀ c ∈ name, isNameChar c = true
  maximal : ∀ c, rest.head? = some c → isNameChar c = false

/-- An upper-case letter of ASCII, perhaps with one digit. -/
inductive VariableName : List Char → Prop
  | letter {c} : 'A' ≤ c → c ≤ 'Z' → VariableName [c]
  | numbered {c d} : 'A' ≤ c → c ≤ 'Z' → d.isDigit = true → VariableName [c, d]

/-- The text begins with pairs of brackets, and `suffix` is those pairs without the blanks. -/
inductive Brackets : List Char → List Char → List Char → Prop
  | none {cs} : Brackets [] cs cs
  | pair {suffix cs cs₁ cs₂ rest} : Token ['['] cs cs₁ → Token [']'] cs₁ cs₂ → Brackets suffix cs₂ rest →
      Brackets ('[' :: ']' :: suffix) cs rest

mutual

/-- The text begins with a type, and `rest` is left. -/
inductive Derives : TypeExpr → List Char → List Char → Prop
  | wildcard {cs rest} : Token ['?'] cs rest → Derives (TypeExpr.unbound "?") cs rest
  | bounded {t cs cs₁ cs₂ rest} : Token ['?'] cs cs₁ → Token "extends".toList cs₁ cs₂ →
      Derives t cs₂ rest → Derives t cs rest
  | unbound {name cs rest} : Name name cs rest → VariableName name →
      Derives (TypeExpr.unbound (String.ofList name)) cs rest
  | plain {name suffix cs cs₁ rest} : Name name cs cs₁ → Brackets suffix cs₁ rest →
      ¬ VariableName (name ++ suffix) → Derives (named (String.ofList (name ++ suffix))) cs rest
  | generic {name suffix args cs cs₁ cs₂ cs₃ rest} : Name name cs cs₁ → Token ['<'] cs₁ cs₂ →
      DerivesAll args cs₂ cs₃ → Brackets suffix cs₃ rest →
      Derives (TypeExpr.generic (String.ofList (name ++ suffix)) args) cs rest

/-- The text begins with types with commas between them and a closing bracket after the last. -/
inductive DerivesAll : List TypeExpr → List Char → List Char → Prop
  | last {t cs cs₁ rest} : Derives t cs cs₁ → Token ['>'] cs₁ rest → DerivesAll [t] cs rest
  | more {t ts cs cs₁ cs₂ rest} : Derives t cs cs₁ → Token [','] cs₁ cs₂ → DerivesAll ts cs₂ rest →
      DerivesAll (t :: ts) cs rest

end

/-- The whole text is a type. Blanks may stand before the end of the text, as before any token. -/
def Spells (t : TypeExpr) (cs : List Char) : Prop :=
  ∃ rest, Derives t cs rest ∧ Blanks rest

/-! ## Blanks and tokens -/

variable {c d : Char} {cs cs₁ rest rest' bs token name suffix : List Char}

theorem Blanks.append {bs' : List Char} (h : Blanks bs) (h' : Blanks bs') : Blanks (bs ++ bs') := by
  intro c hc
  exact (List.mem_append.1 hc).elim (h c) (h' c)

/-- The text without the blanks at its front. -/
def trimLead (cs : List Char) : List Char :=
  cs.dropWhile Text.isAsciiBlank

theorem exists_trimLead (cs : List Char) : ∃ bs, Blanks bs ∧ cs = bs ++ trimLead cs :=
  ⟨cs.takeWhile Text.isAsciiBlank, fun _ hc => List.mem_takeWhile_imp hc, (List.takeWhile_append_dropWhile ..).symm⟩

theorem trimLead_append (h : Blanks bs) (cs : List Char) : trimLead (bs ++ cs) = trimLead cs :=
  List.dropWhile_append_of_pos h

theorem trimLead_cons (h : Text.isAsciiBlank c = false) : trimLead (c :: cs) = c :: cs :=
  List.dropWhile_cons_of_neg (by simp [h])

theorem Token.trimLead (h : Token (c :: token) cs rest) (hc : Text.isAsciiBlank c = false) :
    TypeExpr.trimLead cs = c :: (token ++ rest) := by
  obtain ⟨bs, hbs, rfl⟩ := h
  rw [trimLead_append hbs]
  exact trimLead_cons hc

theorem Token.of_lead (h : Token token cs rest) (hbs : Blanks bs) : Token token (bs ++ cs) rest := by
  obtain ⟨bs', hbs', rfl⟩ := h
  exact ⟨bs ++ bs', hbs.append hbs', (List.append_assoc ..).symm⟩

theorem Token.isSuffix (h : Token token cs rest) : rest <:+ cs := by
  obtain ⟨bs, -, rfl⟩ := h
  exact (List.suffix_append _ _).trans (List.suffix_append _ _)

theorem Token.length_lt (h : Token (c :: token) cs rest) : rest.length < cs.length := by
  obtain ⟨bs, -, rfl⟩ := h
  simp only [List.length_append, List.length_cons]
  omega

theorem Brackets.isSuffix (h : Brackets suffix cs rest) : rest <:+ cs := by
  induction h with
  | none => exact List.suffix_refl _
  | pair h₁ h₂ _ ih => exact ih.trans (h₂.isSuffix.trans h₁.isSuffix)

theorem Name.of_lead (h : Name name cs rest) (hbs : Blanks bs) : Name name (bs ++ cs) rest :=
  { h with token := h.token.of_lead hbs }

theorem Name.length_lt (h : Name name cs rest) : rest.length < cs.length := by
  obtain ⟨⟨bs, -, rfl⟩, hne, -, -⟩ := h
  have := List.length_pos_iff.2 hne
  simp only [List.length_append]
  omega

theorem Brackets.length_le (h : Brackets suffix cs rest) : rest.length ≤ cs.length :=
  h.isSuffix.length_le

mutual

theorem Derives.isSuffix : ∀ {t : TypeExpr} {cs rest : List Char}, Derives t cs rest → rest <:+ cs
  | _, _, _, .wildcard h => h.isSuffix
  | _, _, _, .bounded h₁ h₂ h => h.isSuffix.trans (h₂.isSuffix.trans h₁.isSuffix)
  | _, _, _, .unbound h _ => h.token.isSuffix
  | _, _, _, .plain h hb _ => hb.isSuffix.trans h.token.isSuffix
  | _, _, _, .generic h h₁ ha hb => hb.isSuffix.trans (ha.isSuffix.trans (h₁.isSuffix.trans h.token.isSuffix))

theorem DerivesAll.isSuffix : ∀ {ts : List TypeExpr} {cs rest : List Char}, DerivesAll ts cs rest → rest <:+ cs
  | _, _, _, .last h h₁ => h₁.isSuffix.trans h.isSuffix
  | _, _, _, .more h h₁ ht => ht.isSuffix.trans (h₁.isSuffix.trans h.isSuffix)

end

/-- A type takes at least one character. -/
theorem Derives.length_lt {t : TypeExpr} (h : Derives t cs rest) : rest.length < cs.length := by
  cases h with
  | wildcard h => exact h.length_lt
  | bounded h₁ h₂ h => exact Nat.lt_of_le_of_lt (h.isSuffix.length_le.trans h₂.isSuffix.length_le) h₁.length_lt
  | unbound h _ => exact h.length_lt
  | plain h hb _ => exact Nat.lt_of_le_of_lt hb.length_le h.length_lt
  | generic h h₁ ha hb =>
    exact Nat.lt_of_le_of_lt (hb.length_le.trans (ha.isSuffix.length_le.trans h₁.isSuffix.length_le)) h.length_lt

/-! ## Passing over blanks -/

/-- No blank is outside ASCII. -/
def NarrowBlanks (cs : List Char) : Prop :=
  ∀ c ∈ cs, Text.isBlank c = true → Text.isAsciiBlank c = true

instance (cs : List Char) : Decidable (NarrowBlanks cs) :=
  List.decidableBAll _ cs

theorem NarrowBlanks.of_suffix (h : NarrowBlanks cs) (hs : rest <:+ cs) : NarrowBlanks rest :=
  fun c hc => h c (hs.subset hc)

/-- Blanks are passed over until something else follows; that a wide blank follows is the only way
to fail. -/
theorem skipBlanks_cases (cs : List Char) :
    skipBlanks cs = .ok (trimLead cs) ∨ skipBlanks cs = .error .wideBlank ∧ ¬ NarrowBlanks cs := by
  induction cs with
  | nil => exact .inl rfl
  | cons c cs ih =>
    by_cases hc : Text.isAsciiBlank c = true
    · have hcons : trimLead (c :: cs) = trimLead cs := by simp [trimLead, hc]
      rw [hcons, skipBlanks, if_pos hc]
      refine ih.imp_right fun ⟨he, hn⟩ => ⟨he, fun h => hn fun d hd => h d (List.mem_cons_of_mem _ hd)⟩
    · rw [trimLead_cons (by simpa using hc), skipBlanks, if_neg hc]
      by_cases hw : Text.isBlank c = true
      · exact .inr ⟨if_pos hw, fun h => hc (h c List.mem_cons_self hw)⟩
      · exact .inl (if_neg hw)

theorem NarrowBlanks.skipBlanks (h : NarrowBlanks cs) : TypeExpr.skipBlanks cs = .ok (trimLead cs) :=
  (skipBlanks_cases cs).resolve_right fun hw => hw.2 h

theorem eq_trimLead_of_skipBlanks (h : skipBlanks cs = .ok rest) : rest = trimLead cs := by
  rcases skipBlanks_cases cs with he | ⟨he, -⟩
  · exact Except.ok.inj (h.symm.trans he)
  · rw [he] at h
    cases h

end ApiDocs.TypeExpr
