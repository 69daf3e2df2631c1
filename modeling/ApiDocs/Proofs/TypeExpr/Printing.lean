import ApiDocs.Proofs.TypeExpr.Reading
import Mathlib.Data.List.Chain
/-!
# Printing types that were read

The text of a type puts the brackets of an array before the arguments, where the grammar has them
behind. So the text of a type that was read is read as that type again if no type with arguments is an
array, and cannot be read otherwise.
-/
namespace ApiDocs.TypeExpr

/-- No type with arguments is an array, at any level. -/
inductive PlainArrays : TypeExpr → Prop
  | intro {t : TypeExpr} : (t.arrayElement?.isSome = true → t.args = []) → (∀ a ∈ t.args, PlainArrays a) →
      PlainArrays t

variable {c : Char} {cs cs₁ rest name suffix : List Char} {t : TypeExpr} {args ts : List TypeExpr}

theorem PlainArrays.of_args_nil (h : t.args = []) : PlainArrays t :=
  .intro (fun _ => h) (by simp [h])

/-! ## Texts -/

theorem chars_generic : (generic (String.ofList cs) args).chars = cs ++ argsChars args := by
  simp [generic, chars]

theorem chars_named : (named (String.ofList cs)).chars = cs := by
  simp [named, chars, argsChars]

theorem chars_unbound : (TypeExpr.unbound (String.ofList cs)).chars = cs := by
  simp [unbound, chars, argsChars]

/-- The texts of arguments with what separates and closes them, as they stand behind the opening
bracket. -/
def listChars : List TypeExpr → List Char
  | [] => []
  | t :: rest => chars t ++ moreArgsChars rest

theorem argsChars_of_ne_nil (h : args ≠ []) : argsChars args = '<' :: listChars args := by
  cases args with
  | nil => exact absurd rfl h
  | cons t rest => rfl

theorem Brackets.exists_last (hb : Brackets suffix cs rest) (hne : suffix ≠ []) : ∃ s, suffix = s ++ ['[', ']'] := by
  induction hb with
  | none => exact absurd rfl hne
  | @pair suffix _ _ _ _ _ _ hb ih =>
    by_cases h : suffix = []
    · exact ⟨[], by rw [h]; rfl⟩
    · obtain ⟨s, rfl⟩ := ih h
      exact ⟨'[' :: ']' :: s, rfl⟩

/-- A name with brackets is that of an array. -/
theorem Brackets.isSome_arrayElement? (hb : Brackets suffix cs rest) (hne : suffix ≠ []) (args : List TypeExpr) :
    (generic (String.ofList (name ++ suffix)) args).arrayElement?.isSome = true := by
  obtain ⟨s, rfl⟩ := hb.exists_last hne
  have hstrip : Text.stripLead? "[]".toList.reverse (name ++ (s ++ ['[', ']'])).reverse = some (name ++ s).reverse := by
    rw [Text.stripLead?_eq_some_iff]
    simp
  simp only [arrayElement?, generic, TypeName.arrayElement?, Text.stripTail?, TypeName.arraySuffix,
    String.toList_ofList, hstrip, Option.map_some, Option.isSome_some]

/-- Brackets are read without blanks, too. -/
theorem Brackets.tight (hb : Brackets suffix cs rest) (rest' : List Char) : Brackets suffix (suffix ++ rest') rest' := by
  induction hb with
  | none => exact .none
  | pair _ _ _ ih => exact .pair ⟨[], by simp [Blanks], rfl⟩ ⟨[], by simp [Blanks], rfl⟩ ih

theorem Brackets.not_isNameChar (hb : Brackets suffix cs rest) {rest' : List Char}
    (hr : ∀ c, rest'.head? = some c → isNameChar c = false) :
    ∀ c, (suffix ++ rest').head? = some c → isNameChar c = false := by
  cases hb with
  | none => exact hr
  | pair =>
    intro c hc
    obtain rfl := Option.some.inj hc
    decide

theorem Token.tight (token rest : List Char) : Token token (token ++ rest) rest :=
  ⟨[], by simp [Blanks], rfl⟩

theorem Name.tight (h : Name name cs cs₁) (hr : ∀ c, rest.head? = some c → isNameChar c = false) :
    Name name (name ++ rest) rest :=
  ⟨.tight name rest, h.nonempty, h.chars, hr⟩

/-- What can stand right behind the text of a type. -/
def Closes (rest : List Char) : Prop :=
  ∀ c, rest.head? = some c → c = ',' ∨ c = '>'

theorem Closes.not_isNameChar (h : Closes rest) : ∀ c, rest.head? = some c → isNameChar c = false := by
  intro c hc
  rcases h c hc with rfl | rfl <;> decide

theorem moreArgsChars_of_ne_nil (h : ts ≠ []) : moreArgsChars ts = ',' :: ' ' :: listChars ts := by
  cases ts with
  | nil => exact absurd rfl h
  | cons t rest => rfl

theorem DerivesAll.of_lead {bs : List Char} (h : DerivesAll ts cs rest) (hbs : Blanks bs) :
    DerivesAll ts (bs ++ cs) rest := by
  cases h with
  | last h h₁ => exact .last (h.of_lead hbs) h₁
  | more h h₁ ht => exact .more (h.of_lead hbs) h₁ ht

mutual

/-- The text of a type is derived, wherever a comma, a closing bracket or the end follows. -/
theorem Derives.tight : ∀ {t : TypeExpr} {cs rest : List Char}, Derives t cs rest → PlainArrays t → ∀ {rest' : List Char},
    Closes rest' → Derives t (t.chars ++ rest') rest'
  | _, _, _, .wildcard _, _, rest', _ => .wildcard (.tight ['?'] rest')
  | _, _, _, .bounded _ _ h, hp, _, hr => Derives.tight h hp hr
  | _, _, _, .unbound h hv, _, _, hr => by
    rw [chars_unbound]
    exact .unbound (h.tight hr.not_isNameChar) hv
  | _, _, _, .plain h hb hv, _, rest', hr => by
    rw [chars_named, List.append_assoc]
    exact .plain (h.tight (hb.not_isNameChar hr.not_isNameChar)) (hb.tight rest') hv
  | _, _, _, @Derives.generic name suffix args _ _ _ _ _ h _ ha hb, .intro harray hargs, rest', hr => by
    obtain rfl : suffix = [] := by
      by_contra hne
      exact ha.ne_nil (harray (hb.isSome_arrayElement? hne args))
    have hname : Name name (name ++ '<' :: (listChars args ++ rest')) ('<' :: (listChars args ++ rest')) := by
      refine h.tight fun c hc => ?_
      obtain rfl := Option.some.inj hc
      decide
    rw [List.append_nil, chars_generic, argsChars_of_ne_nil ha.ne_nil, List.append_assoc, List.cons_append]
    have hgeneric := Derives.generic hname (.tight ['<'] _) (DerivesAll.tight ha hargs) (@Brackets.none rest')
    rwa [List.append_nil] at hgeneric

theorem DerivesAll.tight : ∀ {ts : List TypeExpr} {cs rest : List Char}, DerivesAll ts cs rest →
    (∀ t ∈ ts, PlainArrays t) → ∀ {rest' : List Char}, DerivesAll ts (listChars ts ++ rest') rest'
  | _, _, _, @DerivesAll.last t _ _ _ h _, hp, rest' => by
    have ht : Derives t (t.chars ++ '>' :: rest') ('>' :: rest') :=
      Derives.tight h (hp _ List.mem_cons_self) (by simp [Closes])
    rw [listChars, List.append_assoc]
    exact .last ht (.tight ['>'] rest')
  | _, _, _, @DerivesAll.more t ts _ _ _ _ h _ hts, hp, rest' => by
    have hrest : DerivesAll ts ([' '] ++ (listChars ts ++ rest')) rest' :=
      (DerivesAll.tight hts fun t hm => hp t (List.mem_cons_of_mem _ hm)).of_lead (by simp [Blanks]; decide)
    have ht : Derives t (t.chars ++ ',' :: ([' '] ++ (listChars ts ++ rest'))) (',' :: ([' '] ++ (listChars ts ++ rest'))) :=
      Derives.tight h (hp _ List.mem_cons_self) (by simp [Closes])
    rw [listChars, List.append_assoc, moreArgsChars_of_ne_nil hts.ne_nil]
    exact .more ht (.tight [','] _) hrest

end

/-! ## Blanks in texts -/

theorem NarrowBlanks.append (h : NarrowBlanks cs) (h' : NarrowBlanks cs₁) : NarrowBlanks (cs ++ cs₁) := by
  intro c hc
  exact (List.mem_append.1 hc).elim (h c) (h' c)

theorem NarrowBlanks.cons (hc : Text.isBlank c = false) (h : NarrowBlanks cs) : NarrowBlanks (c :: cs) := by
  intro d hd hb
  rcases List.mem_cons.1 hd with rfl | hd
  · rw [hc] at hb
    cases hb
  · exact h d hd hb

theorem narrowBlanks_nil : NarrowBlanks [] := by
  simp [NarrowBlanks]

theorem Name.narrow (h : Name name cs rest) : NarrowBlanks name := by
  intro c hc hb
  rw [isBlank_of_isNameChar (h.chars c hc)] at hb
  cases hb

theorem Brackets.narrow (hb : Brackets suffix cs rest) : NarrowBlanks suffix := by
  induction hb with
  | none => exact narrowBlanks_nil
  | pair _ _ _ ih => exact .cons (by decide) (.cons (by decide) ih)

theorem NarrowBlanks.separator (h : NarrowBlanks cs) : NarrowBlanks (',' :: ' ' :: cs) := by
  refine .cons (by decide) fun c hc hb => ?_
  rcases List.mem_cons.1 hc with rfl | hc
  · decide
  · exact h c hc hb

mutual

theorem Derives.narrow : ∀ {t : TypeExpr} {cs rest : List Char}, Derives t cs rest → NarrowBlanks t.chars
  | _, _, _, .wildcard _ => .cons (by decide) narrowBlanks_nil
  | _, _, _, .bounded _ _ h => Derives.narrow h
  | _, _, _, .unbound h _ => by
    rw [chars_unbound]
    exact h.narrow
  | _, _, _, .plain h hb _ => by
    rw [chars_named]
    exact h.narrow.append hb.narrow
  | _, _, _, .generic h _ ha hb => by
    rw [chars_generic, argsChars_of_ne_nil ha.ne_nil]
    exact (h.narrow.append hb.narrow).append (.cons (by decide) (DerivesAll.narrow ha))

theorem DerivesAll.narrow : ∀ {ts : List TypeExpr} {cs rest : List Char}, DerivesAll ts cs rest →
    NarrowBlanks (listChars ts)
  | _, _, _, .last h _ => (Derives.narrow h).append (.cons (by decide) narrowBlanks_nil)
  | _, _, _, .more h _ hts => by
    rw [listChars, moreArgsChars_of_ne_nil hts.ne_nil]
    exact (Derives.narrow h).append (DerivesAll.narrow hts).separator

end

/-! ## Brackets before arguments -/

/-- Nowhere do arguments begin right behind the brackets of an array. -/
def Apart (cs : List Char) : Prop :=
  cs.IsChain fun c d => c = ']' → d ≠ '<'

/-- A part of a text that keeps it so wherever it stands. -/
structure Tidy (cs : List Char) : Prop where
  apart : Apart cs
  head : cs.head? ≠ some '<'

theorem Tidy.append (h : Tidy cs) (h' : Tidy cs₁) : Tidy (cs ++ cs₁) := by
  refine ⟨List.isChain_append.2 ⟨h.apart, h'.apart, fun _ _ d hd _ he => h'.head (he ▸ hd)⟩, ?_⟩
  cases cs with
  | nil => exact h'.head
  | cons c cs => exact h.head

theorem apart_of_not_mem (h : ']' ∉ cs) : Apart cs := by
  induction cs with
  | nil => exact .nil
  | cons c cs ih =>
    rw [List.mem_cons, not_or] at h
    exact List.isChain_cons.2 ⟨fun d _ hc => absurd hc.symm h.1, ih h.2⟩

theorem Blanks.not_mem {bs : List Char} (h : Blanks bs) (hc : Text.isAsciiBlank c = false) : c ∉ bs := by
  intro hm
  rw [h c hm] at hc
  cases hc

theorem Name.not_mem (h : Name name cs rest) (hc : isNameChar c = false) : c ∉ name := by
  intro hm
  rw [h.chars c hm] at hc
  cases hc

theorem Tidy.of_not_mem (h : ']' ∉ cs) (h' : '<' ∉ cs) : Tidy cs :=
  ⟨apart_of_not_mem h, fun hh => h' (List.mem_of_mem_head? hh)⟩

theorem Blanks.tidy {bs : List Char} (h : Blanks bs) : Tidy bs :=
  .of_not_mem (h.not_mem (by decide)) (h.not_mem (by decide))

/-- What is read up to `rest` is tidy. -/
def TidyUpTo (cs rest : List Char) : Prop :=
  ∃ before, cs = before ++ rest ∧ Tidy before

theorem TidyUpTo.trans (h : TidyUpTo cs cs₁) (h' : TidyUpTo cs₁ rest) : TidyUpTo cs rest := by
  obtain ⟨before, rfl, ht⟩ := h
  obtain ⟨before', rfl, ht'⟩ := h'
  exact ⟨before ++ before', (List.append_assoc ..).symm, ht.append ht'⟩

theorem Token.tidy {token : List Char} (h : Token token cs rest) (ht : Tidy token) : TidyUpTo cs rest := by
  obtain ⟨bs, hbs, rfl⟩ := h
  exact ⟨bs ++ token, (List.append_assoc ..).symm, hbs.tidy.append ht⟩

theorem Name.tidy (h : Name name cs rest) : TidyUpTo cs rest :=
  h.token.tidy (.of_not_mem (h.not_mem (by decide)) (h.not_mem (by decide)))

/-- A name with the opening bracket of its arguments. -/
theorem Name.tidy_open {cs₂ : List Char} (h : Name name cs cs₁) (h₁ : Token ['<'] cs₁ cs₂) : TidyUpTo cs cs₂ := by
  obtain ⟨bs₁, hbs₁, rfl⟩ := h₁
  have hopen : ']' ∉ bs₁ ++ ['<'] := by
    simp [hbs₁.not_mem (show Text.isAsciiBlank ']' = false by decide)]
  obtain ⟨bs, hbs, rfl⟩ := h.token
  refine ⟨bs ++ (name ++ (bs₁ ++ ['<'])), by simp, hbs.tidy.append ⟨apart_of_not_mem ?_, ?_⟩⟩
  · rw [List.mem_append, not_or]
    exact ⟨h.not_mem (by decide), hopen⟩
  · rw [List.head?_append_of_ne_nil _ h.nonempty]
    exact fun hh => h.not_mem (show isNameChar '<' = false by decide) (List.mem_of_mem_head? hh)

theorem Brackets.tidy (hb : Brackets suffix cs rest) : TidyUpTo cs rest := by
  induction hb with
  | none => exact ⟨[], rfl, .of_not_mem (by simp) (by simp)⟩
  | pair h₁ h₂ _ ih => exact (h₁.tidy ⟨.singleton _, by simp⟩).trans ((h₂.tidy ⟨.singleton _, by simp⟩).trans ih)

mutual

theorem Derives.tidy : ∀ {t : TypeExpr} {cs rest : List Char}, Derives t cs rest → TidyUpTo cs rest
  | _, _, _, .wildcard h => h.tidy (.of_not_mem (by decide) (by decide))
  | _, _, _, .bounded h₁ h₂ h =>
    (h₁.tidy (.of_not_mem (by decide) (by decide))).trans
      ((h₂.tidy (.of_not_mem (by decide) (by decide))).trans (Derives.tidy h))
  | _, _, _, .unbound h _ => h.tidy
  | _, _, _, .plain h hb _ => h.tidy.trans hb.tidy
  | _, _, _, .generic h h₁ ha hb => (h.tidy_open h₁).trans ((DerivesAll.tidy ha).trans hb.tidy)

theorem DerivesAll.tidy : ∀ {ts : List TypeExpr} {cs rest : List Char}, DerivesAll ts cs rest → TidyUpTo cs rest
  | _, _, _, .last h h₁ => (Derives.tidy h).trans (h₁.tidy (.of_not_mem (by decide) (by decide)))
  | _, _, _, .more h h₁ ht =>
    (Derives.tidy h).trans ((h₁.tidy (.of_not_mem (by decide) (by decide))).trans (DerivesAll.tidy ht))

end

theorem Spells.apart (h : Spells t cs) : Apart cs := by
  obtain ⟨rest, hd, hrest⟩ := h
  obtain ⟨before, rfl, ht⟩ := hd.tidy
  exact (ht.append hrest.tidy).apart

theorem exists_of_isSome_arrayElement? (h : t.arrayElement?.isSome = true) : ∃ s, t.path.toList = s ++ ['[', ']'] := by
  simp only [arrayElement?, TypeName.arrayElement?, Text.stripTail?, Option.isSome_map] at h
  obtain ⟨r, hr⟩ := Option.isSome_iff_exists.1 h
  rw [Text.stripLead?_eq_some_iff] at hr
  refine ⟨r.reverse, ?_⟩
  rw [← List.reverse_reverse t.path.toList, hr]
  simp [TypeName.arraySuffix]

mutual

theorem plainArrays_of_apart : ∀ t : TypeExpr, Apart t.chars → PlainArrays t
  | ⟨path, args, isVariable, bound⟩, h => by
    have hargs : Apart (argsChars args) := h.right_of_append
    refine .intro (fun harray => ?_) (plainArrays_of_apart_list args ?_)
    · by_contra hne
      obtain ⟨s, hs⟩ := exists_of_isSome_arrayElement? harray
      have hclash : Apart (s ++ '[' :: ']' :: '<' :: listChars args) := by
        rw [chars, hs, argsChars_of_ne_nil hne] at h
        simpa using h
      exact (List.isChain_append_cons_cons.1 hclash).2.2.rel rfl rfl
    · cases args with
      | nil => exact .nil
      | cons t rest => exact hargs.tail

theorem plainArrays_of_apart_list : ∀ ts : List TypeExpr, Apart (listChars ts) → ∀ t ∈ ts, PlainArrays t
  | [], _, _, hu => nomatch hu
  | t :: rest, h, u, hu => by
    have htail : Apart (moreArgsChars rest) := h.right_of_append
    cases hu with
    | head => exact plainArrays_of_apart t h.left_of_append
    | tail _ hu =>
      rw [moreArgsChars_of_ne_nil (List.ne_nil_of_mem hu)] at htail
      exact plainArrays_of_apart_list rest htail.tail.tail u hu

end

/-! ## Round trips -/

/-- The text of a type that was read is read as that type, if no type with arguments is an array, and
cannot be read otherwise. -/
theorem parse_text {s : String} (h : parse s = .ok t) :
    (PlainArrays t → parse t.text = .ok t) ∧ (¬ PlainArrays t → ∃ d, parse t.text = .error d) := by
  obtain ⟨rest, hd, -⟩ := spells_of_parseChars h
  have htext : t.text.toList = t.chars := String.toList_ofList
  refine ⟨fun hp => ?_, fun hp => ?_⟩
  · have htight := hd.tight hp (show Closes [] by simp [Closes])
    rw [List.append_nil] at htight
    rw [parse, htext]
    exact parseChars_of_spells hd.narrow ⟨[], htight, by simp [Blanks]⟩
  · cases hr : parse t.text with
    | error d => exact ⟨d, rfl⟩
    | ok t' =>
      have hapart := (spells_of_parseChars hr).apart
      rw [htext] at hapart
      exact absurd (plainArrays_of_apart t hapart) hp

theorem parse_text_map :
    parse "Map<K , ? extends Row[]>" = .ok (generic "Map" [unbound "K", named "Row[]"]) ∧
      PlainArrays (generic "Map" [unbound "K", named "Row[]"]) ∧
      parse (generic "Map" [unbound "K", named "Row[]"]).text = .ok (generic "Map" [unbound "K", named "Row[]"]) := by
  have hp : parse "Map<K , ? extends Row[]>" = .ok (generic "Map" [unbound "K", named "Row[]"]) := by decide +kernel
  have harrays : PlainArrays (generic "Map" [unbound "K", named "Row[]"]) := by
    refine .intro (by decide) ?_
    simp only [generic, List.mem_cons, List.not_mem_nil, or_false, forall_eq_or_imp, forall_eq]
    exact ⟨.of_args_nil rfl, .of_args_nil rfl⟩
  exact ⟨hp, harrays, (parse_text hp).1 harrays⟩

/-- An array of a type with arguments is read, but its text is not. -/
theorem parse_text_fails_rows : ¬ ∀ s t, parse s = .ok t → parse t.text = .ok t := by
  intro h
  have hp : parse "java.util.List<com.x.Row>[]" = .ok (generic "java.util.List[]" [named "com.x.Row"]) := by decide +kernel
  have ht : parse (generic "java.util.List[]" [named "com.x.Row"]).text = .error (.trailingInput 16) := by decide +kernel
  have := (h _ _ hp).symm.trans ht
  cases this

end ApiDocs.TypeExpr
