import ApiDocs.Proofs.TypeExpr.Grammar
/-!
# Reading what the grammar derives

What is read follows the grammar (`ReadsSound`), and a type that the grammar derives is read, up to the
blanks after it, wherever a comma, a closing bracket or the end of the text follows
(`Derives.parseType`). Both are inductions over the three mutual readers, the first on the bound of
their calls and the second on the derivation. That the bound is never met and that offsets stand
between characters are inductions of the same shape.
-/
namespace ApiDocs.TypeExpr

variable {c : Char} {cs cs₁ rest name suffix path bs : List Char} {d : Defect} {size fuel : Nat}

/-! ## Characters -/

theorem isBlank_of_isNameChar (h : isNameChar c = true) : Text.isBlank c = false := by
  by_contra hb
  have hall : ∀ n ∈ Text.blankPoints, isNameChar (Char.ofNat n) = false := by decide +kernel
  have hc := hall c.toNat (Text.mem_blankPoints (by simpa using hb))
  rw [Char.ofNat_toNat, h] at hc
  cases hc

theorem isAsciiBlank_of_isNameChar (h : isNameChar c = true) : Text.isAsciiBlank c = false := by
  by_contra hb
  have := Text.isBlank_of_isAsciiBlank (by simpa using hb)
  rw [isBlank_of_isNameChar h] at this
  cases this

theorem isVariableName_iff : isVariableName name = true ↔ VariableName name := by
  constructor
  · intro h
    unfold isVariableName at h
    split at h
    · simp only [Bool.and_eq_true, decide_eq_true_eq] at h
      exact .letter h.1 h.2
    · simp only [Bool.and_eq_true, decide_eq_true_eq] at h
      exact .numbered h.1.1 h.1.2 h.2
    · cases h
  · intro h
    cases h with
    | letter h₁ h₂ => simp [isVariableName, h₁, h₂]
    | numbered h₁ h₂ h₃ => simp [isVariableName, h₁, h₂, h₃]

/-! ## Steps -/

theorem eat_true (h : eat c cs = .ok (true, rest)) : Token [c] cs rest := by
  unfold eat at h
  cases hs : skipBlanks cs with
  | error e => simp [hs, Except.map] at h
  | ok ds =>
    obtain ⟨bs, hbs, hcs⟩ := exists_trimLead cs
    rw [← eq_trimLead_of_skipBlanks hs] at hcs
    cases ds with
    | nil => simp [hs, Except.map] at h
    | cons e ds =>
      by_cases he : e = c
      · subst he
        simp only [hs, Except.map, if_true, Except.ok.injEq, Prod.mk.injEq, true_and] at h
        exact ⟨bs, hbs, by simpa [h] using hcs⟩
      · simp [hs, Except.map, he] at h

theorem eat_false (h : eat c cs = .ok (false, rest)) : rest = trimLead cs ∧ rest.head? ≠ some c := by
  unfold eat at h
  cases hs : skipBlanks cs with
  | error e => simp [hs, Except.map] at h
  | ok ds =>
    rw [← eq_trimLead_of_skipBlanks hs]
    cases ds with
    | nil =>
      simp only [hs, Except.map, Except.ok.injEq, Prod.mk.injEq, true_and] at h
      simp [← h]
    | cons e ds =>
      by_cases he : e = c
      · simp [hs, Except.map, he] at h
      · simp only [hs, Except.map, he, if_false, Except.ok.injEq, Prod.mk.injEq, true_and] at h
        simp [← h, he]

theorem eat_error (h : eat c cs = .error d) : d = .wideBlank ∧ ¬ NarrowBlanks cs := by
  unfold eat at h
  rcases skipBlanks_cases cs with hs | ⟨hs, hn⟩
  · simp [hs, Except.map] at h
  · simp only [hs, Except.map, Except.error.injEq] at h
    exact ⟨h.symm, hn⟩

theorem Token.eat (h : Token [c] cs rest) (hc : Text.isAsciiBlank c = false) (hn : NarrowBlanks cs) :
    TypeExpr.eat c cs = .ok (true, rest) := by
  simp [TypeExpr.eat, hn.skipBlanks, h.trimLead hc, Except.map]

theorem eat_of_head (hn : NarrowBlanks cs) (h : (trimLead cs).head? ≠ some c) :
    eat c cs = .ok (false, trimLead cs) := by
  rw [eat, hn.skipBlanks]
  cases ht : trimLead cs with
  | nil => rfl
  | cons e ds =>
    have he : e ≠ c := by simpa [ht] using h
    simp [Except.map, he]

theorem parseName_ok (h : parseName size cs = .ok (name, rest)) : Name name cs rest := by
  unfold parseName at h
  cases hs : skipBlanks cs with
  | error e => simp [hs] at h
  | ok ds =>
    obtain ⟨bs, hbs, hcs⟩ := exists_trimLead cs
    rw [← eq_trimLead_of_skipBlanks hs] at hcs
    simp only [hs] at h
    split at h
    · cases h
    case h_2 hne =>
      simp only [Except.ok.injEq, Prod.mk.injEq] at h
      obtain ⟨rfl, rfl⟩ := h
      refine ⟨⟨bs, hbs, ?_⟩, hne, fun c hc => List.mem_takeWhile_imp hc, fun c hc => ?_⟩
      · rw [List.takeWhile_append_dropWhile]
        exact hcs
      · have := List.head?_dropWhile_not isNameChar ds
        simpa [hc] using this

theorem parseName_error (h : parseName size cs = .error d) :
    d = .wideBlank ∧ ¬ NarrowBlanks cs ∨ d = .missingName (size - Text.byteLength (trimLead cs)) := by
  unfold parseName at h
  rcases skipBlanks_cases cs with hs | ⟨hs, hn⟩
  · simp only [hs] at h
    split at h
    · exact .inr (Except.error.inj h).symm
    · cases h
  · simp only [hs, Except.error.injEq] at h
    exact .inl ⟨h.symm, hn⟩

theorem Name.trimLead (h : Name name cs rest) : TypeExpr.trimLead cs = name ++ rest := by
  obtain ⟨ht, hne, hall, -⟩ := h
  cases name with
  | nil => exact absurd rfl hne
  | cons c name => exact ht.trimLead (isAsciiBlank_of_isNameChar (hall c List.mem_cons_self))

theorem Name.parseName (h : Name name cs rest) (hn : NarrowBlanks cs) :
    TypeExpr.parseName size cs = .ok (name, rest) := by
  have hrest : rest.takeWhile isNameChar = [] ∧ rest.dropWhile isNameChar = rest := by
    cases rest with
    | nil => exact ⟨rfl, rfl⟩
    | cons c rest => simp [h.maximal c rfl]
  have htake : (name ++ rest).takeWhile isNameChar = name := by
    rw [List.takeWhile_append_of_pos h.chars, hrest.1, List.append_nil]
  have hdrop : (name ++ rest).dropWhile isNameChar = rest := by
    rw [List.dropWhile_append_of_pos h.chars, hrest.2]
  have hne := h.nonempty
  rw [TypeExpr.parseName, hn.skipBlanks, h.trimLead]
  simp only [htake, hdrop]

/-! ## What is read follows the grammar -/

theorem Brackets.of_lead (h : Brackets suffix cs (bs ++ rest)) (hbs : Blanks bs) {lead : List Char} (hl : Blanks lead) :
    ∃ bs, Blanks bs ∧ Brackets suffix (lead ++ cs) (bs ++ rest) := by
  generalize hr : bs ++ rest = r at h
  cases h with
  | none =>
    subst hr
    exact ⟨lead ++ bs, hl.append hbs, by rw [List.append_assoc]; exact .none⟩
  | pair h₁ h₂ h => exact ⟨bs, hbs, hr ▸ .pair (h₁.of_lead hl) h₂ h⟩

theorem parseSuffixes_ok {whole : List Char} (hlt : cs.length < fuel) (h : parseSuffixes fuel path cs = .ok (whole, rest)) :
    ∃ suffix bs, whole = path ++ suffix ∧ Blanks bs ∧ Brackets suffix cs (bs ++ rest) := by
  induction fuel generalizing path cs with
  | zero => omega
  | succ fuel ih =>
    unfold parseSuffixes at h
    split at h
    · cases h
    case h_2 r he =>
      obtain ⟨rfl, rfl⟩ := Prod.mk.inj (Except.ok.inj h)
      obtain ⟨rfl, -⟩ := eat_false he
      obtain ⟨bs, hbs, hcs⟩ := exists_trimLead cs
      exact ⟨[], bs, (List.append_nil _).symm, hbs, hcs ▸ .none⟩
    case h_3 r he =>
      have hopen := eat_true he
      split at h
      · cases h
      · cases h
      case h_3 r' he' =>
        have hclose := eat_true he'
        have hlen := hopen.length_lt
        have hlen' := hclose.length_lt
        obtain ⟨suffix, bs, rfl, hbs, hb⟩ := ih (by omega) h
        exact ⟨_, bs, List.append_assoc .., hbs, .pair hopen hclose hb⟩

/-- What the three mutual readers give with a bound on the calls follows the grammar, up to the blanks
that a reader has passed over. -/
structure ReadsSound (fuel : Nat) : Prop where
  type : ∀ {size cs t rest}, parseType fuel size cs = .ok (t, rest) → ∃ bs, Blanks bs ∧ Derives t cs (bs ++ rest)
  arguments : ∀ {size cs args rest}, parseArguments fuel size cs = .ok (args, rest) →
    args = [] ∧ rest = trimLead cs ∨ ∃ cs₁, Token ['<'] cs cs₁ ∧ DerivesAll args cs₁ rest
  list : ∀ {size before cs args rest}, parseList fuel size before cs = .ok (args, rest) →
    ∃ ts, args = before.reverse ++ ts ∧ DerivesAll ts cs rest

theorem VariableName.length_le (h : VariableName name) : name.length ≤ 2 := by
  cases h <;> simp

/-- Brackets after a name are no part of a variable. -/
theorem Brackets.eq_nil (hb : Brackets suffix cs rest) (hn : name ≠ []) (h : VariableName (name ++ suffix)) :
    suffix = [] := by
  have hlen := h.length_le
  have := List.length_pos_iff.2 hn
  cases hb with
  | none => rfl
  | pair =>
    simp only [List.length_append, List.length_cons] at hlen
    omega

theorem assemble_nil_of_variableName (h : VariableName path) : assemble path [] = unbound (String.ofList path) := by
  simp [assemble, isVariableName_iff.2 h]

theorem assemble_nil_of_not (h : ¬ VariableName path) : assemble path [] = named (String.ofList path) := by
  simp [assemble, isVariableName_iff, h, generic, named]

theorem assemble_of_ne_nil {args : List TypeExpr} (h : args ≠ []) : assemble path args = generic (String.ofList path) args := by
  simp [assemble, h]

theorem Derives.assemble_nil (h : Name name cs cs₁) (hb : Brackets suffix cs₁ rest) :
    Derives (assemble (name ++ suffix) []) cs rest := by
  by_cases hv : VariableName (name ++ suffix)
  · obtain rfl := hb.eq_nil h.nonempty hv
    cases hb
    rw [assemble_nil_of_variableName hv]
    rw [List.append_nil] at hv ⊢
    exact .unbound h hv
  · rw [assemble_nil_of_not hv]
    exact .plain h hb hv

theorem DerivesAll.ne_nil {ts : List TypeExpr} (h : DerivesAll ts cs rest) : ts ≠ [] := by
  cases h <;> simp

theorem Derives.of_lead {t : TypeExpr} (h : Derives t cs rest) (hbs : Blanks bs) : Derives t (bs ++ cs) rest := by
  cases h with
  | wildcard h => exact .wildcard (h.of_lead hbs)
  | bounded h h₁ h₂ => exact .bounded (h.of_lead hbs) h₁ h₂
  | unbound h hv => exact .unbound (h.of_lead hbs) hv
  | plain h hb hv => exact .plain (h.of_lead hbs) hb hv
  | generic h h₁ ha hb => exact .generic (h.of_lead hbs) h₁ ha hb

theorem ReadsSound.parseType {t : TypeExpr} (ih : ReadsSound fuel)
    (h : TypeExpr.parseType (fuel + 1) size cs = .ok (t, rest)) : ∃ bs, Blanks bs ∧ Derives t cs (bs ++ rest) := by
  unfold TypeExpr.parseType at h
  split at h
  · cases h
  case h_2 r he =>
    have hmark := eat_true he
    split at h
    · cases h
    case h_2 r₁ hs =>
      obtain ⟨bs, hbs, hr⟩ := exists_trimLead r
      rw [← eq_trimLead_of_skipBlanks hs] at hr
      split at h
      case h_1 r₂ hl =>
        obtain ⟨bs₁, hbs₁, hd⟩ := ih.type h
        exact ⟨bs₁, hbs₁, .bounded hmark ⟨bs, hbs, by rw [hr, Text.stripLead?_eq_some_iff.1 hl]⟩ hd⟩
      case h_2 =>
        obtain ⟨rfl, rfl⟩ := Prod.mk.inj (Except.ok.inj h)
        exact ⟨bs, hbs, .wildcard (hr ▸ hmark)⟩
  case h_3 r he =>
    obtain ⟨bs, hbs, hr⟩ := exists_trimLead cs
    rw [← (eat_false he).1] at hr
    split at h
    · cases h
    case h_2 name r₁ hname =>
      have hname := (parseName_ok hname).of_lead hbs
      rw [← hr] at hname
      split at h
      · cases h
      case h_2 args r₂ hargs =>
        split at h
        · cases h
        case h_2 path r₃ hsuf =>
          obtain ⟨rfl, rfl⟩ := Prod.mk.inj (Except.ok.inj h)
          obtain ⟨suffix, bs₁, rfl, hbs₁, hb⟩ := parseSuffixes_ok (Nat.lt_succ_self _) hsuf
          rcases ih.arguments hargs with ⟨rfl, rfl⟩ | ⟨cs₁, hopen, hall⟩
          · obtain ⟨lead, hlead, hr₁⟩ := exists_trimLead r₁
            obtain ⟨bs₂, hbs₂, hb⟩ := hb.of_lead hbs₁ hlead
            exact ⟨bs₂, hbs₂, .assemble_nil hname (hr₁ ▸ hb)⟩
          · rw [assemble_of_ne_nil hall.ne_nil]
            exact ⟨bs₁, hbs₁, .generic hname hopen hall hb⟩

theorem ReadsSound.parseArguments {args : List TypeExpr} (ih : ReadsSound fuel)
    (h : TypeExpr.parseArguments (fuel + 1) size cs = .ok (args, rest)) :
    args = [] ∧ rest = trimLead cs ∨ ∃ cs₁, Token ['<'] cs cs₁ ∧ DerivesAll args cs₁ rest := by
  unfold TypeExpr.parseArguments at h
  split at h
  · cases h
  case h_2 r he =>
    obtain ⟨rfl, rfl⟩ := Prod.mk.inj (Except.ok.inj h)
    exact .inl ⟨rfl, (eat_false he).1⟩
  case h_3 r he =>
    obtain ⟨ts, rfl, hts⟩ := ih.list h
    exact .inr ⟨r, eat_true he, hts⟩

theorem ReadsSound.parseList {before args : List TypeExpr} (ih : ReadsSound fuel)
    (h : TypeExpr.parseList (fuel + 1) size before cs = .ok (args, rest)) :
    ∃ ts, args = before.reverse ++ ts ∧ DerivesAll ts cs rest := by
  unfold TypeExpr.parseList at h
  split at h
  · cases h
  case h_2 t r ht =>
    obtain ⟨bs, hbs, hd⟩ := ih.type ht
    split at h
    · cases h
    case h_2 r₁ he =>
      obtain ⟨ts, rfl, hts⟩ := ih.list h
      exact ⟨t :: ts, by simp, .more hd ((eat_true he).of_lead hbs) hts⟩
    case h_3 r₁ he =>
      obtain ⟨rfl, -⟩ := eat_false he
      split at h
      · cases h
      case h_2 r₂ he' =>
        obtain ⟨rfl, rfl⟩ := Prod.mk.inj (Except.ok.inj h)
        obtain ⟨lead, hlead, hr⟩ := exists_trimLead r
        have hclose := ((eat_true he').of_lead hlead).of_lead hbs
        rw [← hr] at hclose
        exact ⟨[t], by simp, .last hd hclose⟩
      · cases h

theorem readsSound (fuel : Nat) : ReadsSound fuel := by
  induction fuel with
  | zero =>
    refine ⟨?_, ?_, ?_⟩
    all_goals
      intros
      contradiction
  | succ fuel ih => exact ⟨ih.parseType, ih.parseArguments, ih.parseList⟩

theorem spells_of_parseChars {t : TypeExpr} (h : parseChars cs = .ok t) : Spells t cs := by
  unfold parseChars at h
  simp only at h
  split at h
  · cases h
  case h_2 t' r ht =>
    split at h
    · cases h
    case h_2 hs =>
      obtain rfl := Except.ok.inj h
      obtain ⟨bs, hbs, hd⟩ := (readsSound _).type ht
      obtain ⟨lead, hlead, hr⟩ := exists_trimLead r
      rw [← eq_trimLead_of_skipBlanks hs, List.append_nil] at hr
      exact ⟨bs ++ r, hd, hbs.append (hr ▸ hlead)⟩
    · cases h

/-! ## What the grammar derives is read -/

/-- What can follow a type: a comma, a closing bracket, or nothing. -/
def Follows (rest : List Char) : Prop :=
  (trimLead rest).head? = none ∨ (trimLead rest).head? = some ',' ∨ (trimLead rest).head? = some '>'

theorem Follows.head_ne (h : Follows rest) (hc : c ≠ ',') (hc' : c ≠ '>') : (trimLead rest).head? ≠ some c := by
  rcases h with h | h | h <;> simp [h, hc.symm, hc'.symm]

theorem trimLead_idem (cs : List Char) : trimLead (trimLead cs) = trimLead cs := by
  obtain ⟨bs, hbs, h⟩ := exists_trimLead cs
  exact (trimLead_append hbs _).symm.trans (congrArg trimLead h.symm)

theorem Token.of_trimLead (h : Token (c :: token) cs rest) (hc : Text.isAsciiBlank c = false) :
    Token (c :: token) (TypeExpr.trimLead cs) rest :=
  ⟨[], by simp [Blanks], h.trimLead hc⟩

theorem NarrowBlanks.trimLead (h : NarrowBlanks cs) : NarrowBlanks (TypeExpr.trimLead cs) :=
  h.of_suffix (List.dropWhile_suffix _)

theorem Token.narrow (h : Token token cs rest) (hn : NarrowBlanks cs) : NarrowBlanks rest :=
  hn.of_suffix h.isSuffix

theorem parseSuffixes_of_brackets (hb : Brackets suffix cs rest) (hn : NarrowBlanks cs)
    (hr : (trimLead rest).head? ≠ some '[') (hf : cs.length < fuel) (path : List Char) :
    parseSuffixes fuel path cs = .ok (path ++ suffix, trimLead rest) := by
  induction hb generalizing fuel path with
  | none =>
    obtain ⟨fuel, rfl⟩ : ∃ f, fuel = f + 1 := ⟨fuel - 1, by omega⟩
    simp [parseSuffixes, eat_of_head hn hr]
  | pair h₁ h₂ hb ih =>
    obtain ⟨fuel, rfl⟩ : ∃ f, fuel = f + 1 := ⟨fuel - 1, by omega⟩
    have hlen := h₁.length_lt
    have hlen' := h₂.length_lt
    rw [parseSuffixes, h₁.eat (by decide) hn]
    simp only [h₂.eat (by decide) (h₁.narrow hn)]
    rw [ih (h₂.narrow (h₁.narrow hn)) hr (by omega)]
    simp

/-- The blanks before the first bracket may be gone. -/
theorem Brackets.of_trimLead (hb : Brackets suffix cs rest) :
    ∃ rest', trimLead rest' = trimLead rest ∧ Brackets suffix (trimLead cs) rest' := by
  cases hb with
  | none => exact ⟨trimLead cs, trimLead_idem cs, .none⟩
  | pair h₁ h₂ hb => exact ⟨rest, rfl, .pair (h₁.of_trimLead (by decide)) h₂ hb⟩

theorem parseType_of_name {args : List TypeExpr} {r : List Char} (h : Name name cs cs₁) (hn : NarrowBlanks cs)
    (ha : parseArguments fuel size cs₁ = .ok (args, r)) (hb : parseSuffixes (r.length + 1) name r = .ok (path, rest)) :
    parseType (fuel + 1) size cs = .ok (assemble path args, rest) := by
  have hlead : Name name (trimLead cs) cs₁ := { h with token := ⟨[], by simp [Blanks], h.trimLead⟩ }
  have hhead : (trimLead cs).head? ≠ some '?' := by
    rw [h.trimLead]
    cases name with
    | nil => exact absurd rfl h.nonempty
    | cons c name =>
      intro he
      have := h.chars c List.mem_cons_self
      rw [Option.some.inj he] at this
      exact absurd this (by decide)
  rw [parseType, eat_of_head hn hhead]
  simp only [hlead.parseName hn.trimLead, ha, hb]

/-- A name without arguments. -/
theorem parseType_of_brackets (h : Name name cs cs₁) (hb : Brackets suffix cs₁ rest) (hn : NarrowBlanks cs)
    (hr : (trimLead rest).head? ≠ some '[') (hr' : suffix = [] → (trimLead rest).head? ≠ some '<') (size : Nat) :
    parseType (fuel + 2) size cs = .ok (assemble (name ++ suffix) [], trimLead rest) := by
  have hn₁ := h.token.narrow hn
  have hhead : (trimLead cs₁).head? ≠ some '<' := by
    cases hb with
    | none => exact hr' rfl
    | pair h₁ _ _ => simp [h₁.trimLead (by decide)]
  have ha : parseArguments (fuel + 1) size cs₁ = .ok ([], trimLead cs₁) := by
    simp [parseArguments, eat_of_head hn₁ hhead]
  obtain ⟨rest', hrest, hb'⟩ := hb.of_trimLead
  have hsuf := parseSuffixes_of_brackets hb' hn₁.trimLead (hrest ▸ hr) (Nat.lt_succ_self _) name
  exact parseType_of_name h hn ha (hrest ▸ hsuf)

mutual

theorem Derives.parseType : ∀ {t : TypeExpr} {cs rest : List Char}, Derives t cs rest → NarrowBlanks cs → Follows rest →
    ∀ fuel, 3 * cs.length + 1 ≤ fuel → ∀ size, TypeExpr.parseType fuel size cs = .ok (t, trimLead rest)
  | _, _, rest, .wildcard h, hn, hr, fuel + 1, _, size => by
    have hnone : Text.stripLead? "extends".toList (trimLead rest) = none := by
      refine Option.eq_none_iff_forall_ne_some.2 fun r hs => ?_
      refine hr.head_ne (show 'e' ≠ ',' by decide) (by decide) ?_
      rw [Text.stripLead?_eq_some_iff.1 hs]
      rfl
    rw [TypeExpr.parseType, h.eat (by decide) hn]
    simp only [(h.narrow hn).skipBlanks, hnone]
  | _, _, _, .bounded h h₁ h₂, hn, hr, fuel + 1, hf, size => by
    have hlen := h.length_lt
    have hlen₁ := h₁.isSuffix.length_le
    have hn₁ := h.narrow hn
    rw [TypeExpr.parseType, h.eat (by decide) hn]
    simp only [hn₁.skipBlanks, h₁.trimLead (by decide)]
    exact Derives.parseType h₂ (h₁.narrow hn₁) hr fuel (by omega) size
  | _, _, _, .unbound h hv, hn, hr, fuel + 1, hf, size => by
    have hlen := h.length_lt
    obtain ⟨fuel, rfl⟩ : ∃ f, fuel = f + 1 := ⟨fuel - 1, by omega⟩
    rw [parseType_of_brackets h .none hn (hr.head_ne (by decide) (by decide))
      (fun _ => hr.head_ne (by decide) (by decide)) size, List.append_nil, assemble_nil_of_variableName hv]
  | _, _, _, .plain h hb hv, hn, hr, fuel + 1, hf, size => by
    have hlen := h.length_lt
    obtain ⟨fuel, rfl⟩ : ∃ f, fuel = f + 1 := ⟨fuel - 1, by omega⟩
    rw [parseType_of_brackets h hb hn (hr.head_ne (by decide) (by decide))
      (fun _ => hr.head_ne (by decide) (by decide)) size, assemble_nil_of_not hv]
  | _, _, _, @Derives.generic _ _ args _ cs₁ _ cs₃ _ h h₁ ha hb, hn, hr, fuel + 1, hf, size => by
    have hlen := h.length_lt
    have hlen₁ := h₁.length_lt
    obtain ⟨fuel, rfl⟩ : ∃ f, fuel = f + 1 := ⟨fuel - 1, by omega⟩
    have hn₁ := h.token.narrow hn
    have hn₂ := h₁.narrow hn₁
    have hargs : TypeExpr.parseArguments (fuel + 1) size cs₁ = .ok (args, cs₃) := by
      rw [parseArguments, h₁.eat (by decide) hn₁]
      exact DerivesAll.parseList ha hn₂ fuel (by omega) size []
    rw [← assemble_of_ne_nil ha.ne_nil]
    exact parseType_of_name h hn hargs (parseSuffixes_of_brackets hb (hn₂.of_suffix ha.isSuffix)
      (hr.head_ne (by decide) (by decide)) (Nat.lt_succ_self _) _)

theorem DerivesAll.parseList : ∀ {ts : List TypeExpr} {cs rest : List Char}, DerivesAll ts cs rest → NarrowBlanks cs →
    ∀ fuel, 3 * cs.length + 2 ≤ fuel → ∀ size before,
      TypeExpr.parseList fuel size before cs = .ok (before.reverse ++ ts, rest)
  | _, _, _, .last h h₁, hn, fuel + 1, hf, size, before => by
    have hlead := h₁.trimLead (by decide)
    have hn₁ := (hn.of_suffix h.isSuffix).trimLead
    have ht := Derives.parseType h hn (.inr (.inr (by rw [hlead]; rfl))) fuel (by omega) size
    have hcomma := eat_of_head (c := ',') hn₁ (by rw [trimLead_idem, hlead]; simp)
    rw [trimLead_idem] at hcomma
    rw [TypeExpr.parseList, ht]
    simp [hcomma, (h₁.of_trimLead (by decide)).eat (by decide) hn₁]
  | _, _, _, .more h h₁ ht, hn, fuel + 1, hf, size, before => by
    have hlen := h.length_lt
    have hlen₁ := h₁.length_lt
    have hlead := h₁.trimLead (by decide)
    have hn₁ := hn.of_suffix h.isSuffix
    have hfirst := Derives.parseType h hn (.inr (.inl (by rw [hlead]; rfl))) fuel (by omega) size
    rw [TypeExpr.parseList, hfirst]
    simp only [(h₁.of_trimLead (by decide)).eat (by decide) hn₁.trimLead]
    rw [DerivesAll.parseList ht (h₁.narrow hn₁) fuel (by omega) size _]
    simp

end

theorem parseChars_of_spells {t : TypeExpr} (hn : NarrowBlanks cs) (h : Spells t cs) : parseChars cs = .ok t := by
  obtain ⟨rest, hd, hrest⟩ := h
  have htrim : trimLead rest = [] := by
    have := trimLead_append hrest []
    simpa [trimLead] using this
  have hnil : NarrowBlanks [] := by simp [NarrowBlanks]
  have ht := hd.parseType hn (.inl (by rw [htrim]; rfl)) (3 * cs.length + 3) (by omega) (Text.byteLength cs)
  simp only [parseChars, ht, htrim, hnil.skipBlanks]
  rfl

/-! ## Where a defect is -/

/-- An offset between two characters of the text, or at one of its ends. -/
def IsBoundary (cs : List Char) (offset : Nat) : Prop :=
  ∃ before after, cs = before ++ after ∧ offset = Text.byteLength before

/-- A defect that a text can have: offsets stand between characters, and a wide blank is one of it. -/
inductive Explained (whole : List Char) : Defect → Prop
  | missingName {offset} : IsBoundary whole offset → Explained whole (.missingName offset)
  | unclosedArguments : Explained whole .unclosedArguments
  | malformedArray : Explained whole .malformedArray
  | trailingInput {offset} : IsBoundary whole offset → Explained whole (.trailingInput offset)
  | wideBlank : ¬ NarrowBlanks whole → Explained whole .wideBlank

variable {whole : List Char}

theorem isBoundary_of_suffix (h : cs <:+ whole) : IsBoundary whole (Text.byteLength whole - Text.byteLength cs) := by
  obtain ⟨before, rfl⟩ := h
  exact ⟨before, cs, rfl, by rw [Text.byteLength_append]; omega⟩

theorem Explained.of_suffix (hs : cs <:+ whole) (h : d = .wideBlank ∧ ¬ NarrowBlanks cs) : Explained whole d := by
  obtain ⟨rfl, hn⟩ := h
  exact .wideBlank fun hw => hn (hw.of_suffix hs)

theorem skipBlanks_error (h : skipBlanks cs = .error d) : d = .wideBlank ∧ ¬ NarrowBlanks cs := by
  rcases skipBlanks_cases cs with hs | ⟨hs, hn⟩
  · rw [hs] at h
    cases h
  · exact ⟨Except.error.inj (h.symm.trans hs), hn⟩

theorem skipBlanks_suffix (h : skipBlanks cs = .ok rest) : rest <:+ cs := by
  rw [eq_trimLead_of_skipBlanks h]
  exact List.dropWhile_suffix _

theorem eat_suffix {eaten : Bool} (h : eat c cs = .ok (eaten, rest)) : rest <:+ cs := by
  cases eaten with
  | true => exact (eat_true h).isSuffix
  | false =>
    rw [(eat_false h).1]
    exact List.dropWhile_suffix _

theorem parseSuffixes_error (hs : cs <:+ whole) (h : parseSuffixes fuel path cs = .error d) : Explained whole d := by
  induction fuel generalizing path cs with
  | zero => cases h
  | succ fuel ih =>
    unfold parseSuffixes at h
    split at h
    case h_1 he =>
      obtain rfl := Except.error.inj h
      exact .of_suffix hs (eat_error he)
    · cases h
    case h_3 r he =>
      have hr := (eat_suffix he).trans hs
      split at h
      case h_1 he' =>
        obtain rfl := Except.error.inj h
        exact .of_suffix hr (eat_error he')
      · obtain rfl := Except.error.inj h
        exact .malformedArray
      case h_3 he' => exact ih ((eat_suffix he').trans hr) h

/-- Whatever the three mutual readers report of the end of a text is a defect that the text can have. -/
structure DefectsExplained (fuel : Nat) : Prop where
  type : ∀ {whole cs d}, cs <:+ whole → parseType fuel (Text.byteLength whole) cs = .error d → Explained whole d
  arguments : ∀ {whole cs d}, cs <:+ whole → parseArguments fuel (Text.byteLength whole) cs = .error d →
    Explained whole d
  list : ∀ {whole before cs d}, cs <:+ whole → parseList fuel (Text.byteLength whole) before cs = .error d →
    Explained whole d

theorem parseType_suffix {t : TypeExpr} (h : parseType fuel size cs = .ok (t, rest)) : rest <:+ cs := by
  obtain ⟨bs, -, hd⟩ := (readsSound fuel).type h
  exact (List.suffix_append bs rest).trans hd.isSuffix

theorem parseArguments_suffix {args : List TypeExpr} (h : parseArguments fuel size cs = .ok (args, rest)) :
    rest <:+ cs := by
  rcases (readsSound fuel).arguments h with ⟨-, rfl⟩ | ⟨cs₁, h₁, ha⟩
  · exact List.dropWhile_suffix _
  · exact ha.isSuffix.trans h₁.isSuffix

theorem DefectsExplained.parseType (ih : DefectsExplained fuel) (hs : cs <:+ whole)
    (h : TypeExpr.parseType (fuel + 1) (Text.byteLength whole) cs = .error d) : Explained whole d := by
  unfold TypeExpr.parseType at h
  split at h
  case h_1 he =>
    obtain rfl := Except.error.inj h
    exact .of_suffix hs (eat_error he)
  case h_2 r he =>
    have hr := (eat_suffix he).trans hs
    split at h
    case h_1 he' =>
      obtain rfl := Except.error.inj h
      exact .of_suffix hr (skipBlanks_error he')
    case h_2 r₁ hs₁ =>
      have hr₁ := (skipBlanks_suffix hs₁).trans hr
      split at h
      case h_1 r₂ hl => exact ih.type ((Text.stripLead?_eq_some_iff.1 hl ▸ List.suffix_append _ _).trans hr₁) h
      · cases h
  case h_3 r he =>
    have hr := (eat_suffix he).trans hs
    split at h
    case h_1 hname =>
      obtain rfl := Except.error.inj h
      rcases parseName_error hname with hw | rfl
      · exact .of_suffix hr hw
      · exact .missingName (isBoundary_of_suffix ((List.dropWhile_suffix _).trans hr))
    case h_2 name r₁ hname =>
      have hr₁ := (parseName_ok hname).token.isSuffix.trans hr
      split at h
      case h_1 hargs =>
        obtain rfl := Except.error.inj h
        exact ih.arguments hr₁ hargs
      case h_2 args r₂ hargs =>
        have hr₂ := (parseArguments_suffix hargs).trans hr₁
        split at h
        case h_1 hsuf =>
          obtain rfl := Except.error.inj h
          exact parseSuffixes_error hr₂ hsuf
        · cases h

theorem DefectsExplained.parseArguments (ih : DefectsExplained fuel) (hs : cs <:+ whole)
    (h : TypeExpr.parseArguments (fuel + 1) (Text.byteLength whole) cs = .error d) : Explained whole d := by
  unfold TypeExpr.parseArguments at h
  split at h
  case h_1 he =>
    obtain rfl := Except.error.inj h
    exact .of_suffix hs (eat_error he)
  · cases h
  case h_3 he => exact ih.list ((eat_suffix he).trans hs) h

theorem DefectsExplained.parseList {before : List TypeExpr} (ih : DefectsExplained fuel) (hs : cs <:+ whole)
    (h : TypeExpr.parseList (fuel + 1) (Text.byteLength whole) before cs = .error d) : Explained whole d := by
  unfold TypeExpr.parseList at h
  split at h
  case h_1 ht =>
    obtain rfl := Except.error.inj h
    exact ih.type hs ht
  case h_2 t r ht =>
    have hr := (parseType_suffix ht).trans hs
    split at h
    case h_1 he =>
      obtain rfl := Except.error.inj h
      exact .of_suffix hr (eat_error he)
    case h_2 he => exact ih.list ((eat_suffix he).trans hr) h
    case h_3 r₁ he =>
      have hr₁ := (eat_suffix he).trans hr
      split at h
      case h_1 he' =>
        obtain rfl := Except.error.inj h
        exact .of_suffix hr₁ (eat_error he')
      · cases h
      · obtain rfl := Except.error.inj h
        exact .unclosedArguments

theorem defectsExplained (fuel : Nat) : DefectsExplained fuel := by
  induction fuel with
  | zero =>
    refine ⟨fun hs h => ?_, fun hs h => ?_, fun hs h => ?_⟩
    · obtain rfl := Except.error.inj h
      exact .missingName (isBoundary_of_suffix hs)
    · obtain rfl := Except.error.inj h
      exact .unclosedArguments
    · obtain rfl := Except.error.inj h
      exact .unclosedArguments
  | succ fuel ih => exact ⟨ih.parseType, ih.parseArguments, ih.parseList⟩

theorem explained_of_parseChars (h : parseChars cs = .error d) : Explained cs d := by
  unfold parseChars at h
  simp only at h
  split at h
  case h_1 ht =>
    obtain rfl := Except.error.inj h
    exact (defectsExplained _).type (List.suffix_refl _) ht
  case h_2 t r ht =>
    have hr := parseType_suffix ht
    split at h
    case h_1 hs =>
      obtain rfl := Except.error.inj h
      exact .of_suffix hr (skipBlanks_error hs)
    · cases h
    case h_3 r₁ _ hs =>
      obtain rfl := Except.error.inj h
      exact .trailingInput (isBoundary_of_suffix ((skipBlanks_suffix hs).trans hr))

/-! ## The bound of the calls -/

/-- Two bounds that suffice give the same. -/
structure BoundsAgree (fuel : Nat) : Prop where
  type : ∀ {fuel' size cs}, 3 * cs.length + 1 ≤ fuel → 3 * cs.length + 1 ≤ fuel' →
    parseType fuel size cs = parseType fuel' size cs
  arguments : ∀ {fuel' size cs}, 3 * cs.length + 1 ≤ fuel → 3 * cs.length + 1 ≤ fuel' →
    parseArguments fuel size cs = parseArguments fuel' size cs
  list : ∀ {fuel' size before cs}, 3 * cs.length + 2 ≤ fuel → 3 * cs.length + 2 ≤ fuel' →
    parseList fuel size before cs = parseList fuel' size before cs

theorem parseType_length_lt {t : TypeExpr} (h : parseType fuel size cs = .ok (t, rest)) : rest.length < cs.length := by
  obtain ⟨bs, -, hd⟩ := (readsSound fuel).type h
  have := hd.length_lt
  rw [List.length_append] at this
  omega

theorem BoundsAgree.parseType {fuel' : Nat} (ih : BoundsAgree fuel) (h : 3 * cs.length + 1 ≤ fuel + 1)
    (h' : 3 * cs.length + 1 ≤ fuel') : TypeExpr.parseType (fuel + 1) size cs = TypeExpr.parseType fuel' size cs := by
  obtain ⟨fuel', rfl⟩ : ∃ f, fuel' = f + 1 := ⟨fuel' - 1, by omega⟩
  rw [TypeExpr.parseType, TypeExpr.parseType]
  cases he : eat '?' cs with
  | error e => rfl
  | ok p =>
    obtain ⟨eaten, r⟩ := p
    cases eaten with
    | true =>
      have hlen := (eat_true he).length_lt
      simp only
      cases hs : skipBlanks r with
      | error e => rfl
      | ok r₁ =>
        have hlen₁ := (skipBlanks_suffix hs).length_le
        simp only
        cases hl : Text.stripLead? "extends".toList r₁ with
        | none => rfl
        | some r₂ =>
          have hlen₂ : r₂.length ≤ r₁.length := by
            rw [Text.stripLead?_eq_some_iff.1 hl, List.length_append]
            omega
          exact ih.type (by omega) (by omega)
    | false =>
      have hlen := (eat_suffix he).length_le
      simp only
      cases hname : parseName size r with
      | error e => rfl
      | ok p =>
        obtain ⟨name, r₁⟩ := p
        have hlen₁ := (parseName_ok hname).length_lt
        simp only
        rw [ih.arguments (by omega) (show 3 * r₁.length + 1 ≤ fuel' by omega)]

theorem BoundsAgree.parseArguments {fuel' : Nat} (ih : BoundsAgree fuel) (h : 3 * cs.length + 1 ≤ fuel + 1)
    (h' : 3 * cs.length + 1 ≤ fuel') :
    TypeExpr.parseArguments (fuel + 1) size cs = TypeExpr.parseArguments fuel' size cs := by
  obtain ⟨fuel', rfl⟩ : ∃ f, fuel' = f + 1 := ⟨fuel' - 1, by omega⟩
  rw [TypeExpr.parseArguments, TypeExpr.parseArguments]
  cases he : eat '<' cs with
  | error e => rfl
  | ok p =>
    obtain ⟨eaten, r⟩ := p
    cases eaten with
    | true =>
      have hlen := (eat_true he).length_lt
      exact ih.list (by omega) (by omega)
    | false => rfl

theorem BoundsAgree.parseList {fuel' : Nat} {before : List TypeExpr} (ih : BoundsAgree fuel)
    (h : 3 * cs.length + 2 ≤ fuel + 1) (h' : 3 * cs.length + 2 ≤ fuel') :
    TypeExpr.parseList (fuel + 1) size before cs = TypeExpr.parseList fuel' size before cs := by
  obtain ⟨fuel', rfl⟩ : ∃ f, fuel' = f + 1 := ⟨fuel' - 1, by omega⟩
  rw [TypeExpr.parseList, TypeExpr.parseList, ih.type (by omega) (show 3 * cs.length + 1 ≤ fuel' by omega)]
  cases ht : TypeExpr.parseType fuel' size cs with
  | error e => rfl
  | ok p =>
    obtain ⟨t, r⟩ := p
    have hlen := parseType_length_lt ht
    simp only
    cases he : eat ',' r with
    | error e => rfl
    | ok p =>
      obtain ⟨eaten, r₁⟩ := p
      cases eaten with
      | true =>
        have hlen₁ := (eat_true he).length_lt
        exact ih.list (by omega) (by omega)
      | false => rfl

theorem boundsAgree (fuel : Nat) : BoundsAgree fuel := by
  induction fuel with
  | zero => exact ⟨fun h => by omega, fun h => by omega, fun h => by omega⟩
  | succ fuel ih => exact ⟨ih.parseType, ih.parseArguments, ih.parseList⟩

/-! ## Exactness -/

/-- A text without wide blanks is read as a type if and only if the grammar derives that type from all
of it. Any other such text has a defect other than a wide blank, whose offset stands between two
characters. A larger bound of the calls changes nothing. -/
theorem parse_exact (s : String) (hn : ∀ c ∈ s.toList, Text.isBlank c = true → Text.isAsciiBlank c = true) :
    (∀ t, parse s = .ok t ↔ Spells t s.toList) ∧
      ((¬ ∃ t, Spells t s.toList) → ∃ d, parse s = .error d ∧ d ≠ .wideBlank ∧ Explained s.toList d) ∧
      ∀ fuel size, 3 * s.toList.length + 3 ≤ fuel →
        parseType fuel size s.toList = parseType (3 * s.toList.length + 3) size s.toList := by
  have hiff : ∀ t, parse s = .ok t ↔ Spells t s.toList :=
    fun t => ⟨spells_of_parseChars, parseChars_of_spells hn⟩
  refine ⟨hiff, fun hnone => ?_, fun fuel size hf => (boundsAgree fuel).type (by omega) (by omega)⟩
  cases hp : parse s with
  | ok t => exact absurd ⟨t, (hiff t).1 hp⟩ hnone
  | error d =>
    have hd := explained_of_parseChars hp
    refine ⟨d, rfl, ?_, hd⟩
    rintro rfl
    cases hd with
    | wideBlank hw => exact hw hn

theorem parse_exact_map :
    (∀ c ∈ " Map<K , ? extends Row [ ]> ".toList, Text.isBlank c = true → Text.isAsciiBlank c = true) ∧
      parse " Map<K , ? extends Row [ ]> " = .ok (generic "Map" [unbound "K", named "Row[]"]) ∧
      Spells (generic "Map" [unbound "K", named "Row[]"]) " Map<K , ? extends Row [ ]> ".toList := by
  have hn : NarrowBlanks " Map<K , ? extends Row [ ]> ".toList := by decide
  have hp : parse " Map<K , ? extends Row [ ]> " = .ok (generic "Map" [unbound "K", named "Row[]"]) := by decide +kernel
  exact ⟨hn, hp, ((parse_exact _ hn).1 _).1 hp⟩

end ApiDocs.TypeExpr
