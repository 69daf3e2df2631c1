import ApiDocs.ErrorCatalog
import ApiDocs.Proofs.Keyed
import Mathlib.Data.List.Forall2
/-!
# What the error catalog keeps

A catalog has one group for each name of an exception that carries codes, in the order of the names. The groups are
written one after the other, so the group of a name is that of the last exception with the name (`carrier?`), and what
another of the name carries is lost. Where the exceptions of each name agree nothing is lost, and only there the order
of the exceptions does not matter (`ofExceptions_last`).
-/
namespace ApiDocs.ErrorCatalog

open Facts (ExceptionFacts)

/-! ## Exceptions with codes -/

/-- The exceptions that carry codes. -/
def carriers (es : List ExceptionFacts) : List ExceptionFacts :=
  es.filter fun e => !e.codes.isEmpty

/-- The last exception of a name that carries codes. -/
def carrier? (es : List ExceptionFacts) (name : String) : Option ExceptionFacts :=
  (carriers es).findRev? fun e => e.name == name

variable {es es' : List ExceptionFacts} {messages : Keyed String} {e : ExceptionFacts} {g : ErrorGroup} {name : String}

theorem mem_carriers : e ∈ carriers es ↔ e ∈ es ∧ e.codes ≠ [] := by
  simp [carriers]

theorem mem_of_carrier? (h : carrier? es name = some e) : e ∈ carriers es ∧ e.name = name :=
  (Pairs.of_findRev?_eq_some h).imp_right fun hname => by simpa using hname

theorem exists_carrier? (h : e ∈ carriers es) : ∃ last, carrier? es e.name = some last := by
  rw [← Option.ne_none_iff_exists']
  intro hnone
  rw [carrier?, List.findRev?_eq_find?_reverse, List.find?_eq_none] at hnone
  exact hnone e (List.mem_reverse.2 h) (by simp)

/-- An exception at the end is the last of its name. -/
theorem carrier?_concat (h : e.codes ≠ []) : carrier? (es ++ [e]) e.name = some e := by
  simp [carrier?, carriers, List.findRev?_eq_find?_reverse, h]

/-! ## Groups -/

theorem exception_groupOf : (groupOf messages e).exception = e.name := rfl

/-- Under a name stands the group of the last exception with the name. -/
theorem get?_ofExceptions (es : List ExceptionFacts) (messages : Keyed String) (name : String) :
    (ofExceptions es messages).get? name = (carrier? es name).map (groupOf messages) := by
  rw [get?, ofExceptions, Sorted.ofList, List.foldl_map]
  refine (Pairs.get?_foldl (fun m : Sorted ErrorGroup => m.get? name) (fun m e => ?_) (carriers es) _).trans
    Option.or_none
  simp [Sorted.get?_put]

/-- A catalog is determined by its look-ups. -/
theorem ext_get? {catalog catalog' : ErrorCatalog} (h : ∀ name, catalog.get? name = catalog'.get? name) :
    catalog = catalog' := by
  cases catalog
  cases catalog'
  exact congrArg mk (Sorted.ext_get? h)

/-- Each group stands under the name of its exception. -/
theorem exception_of_get? (h : (ofExceptions es messages).get? name = some g) : g.exception = name := by
  rw [get?_ofExceptions] at h
  obtain ⟨e, he, rfl⟩ := Option.map_eq_some_iff.1 h
  exact (mem_of_carrier? he).2

theorem mem_toList_iff :
    g ∈ (ofExceptions es messages).toList ↔ (ofExceptions es messages).get? g.exception = some g := by
  constructor
  · intro h
    obtain ⟨⟨name, g'⟩, hmem, rfl⟩ := List.mem_map.1 h
    have hget : (ofExceptions es messages).get? name = some g' := Sorted.mem_entries_iff.1 hmem
    rwa [exception_of_get? hget]
  · exact fun h => List.mem_map.2 ⟨_, Sorted.mem_entries_iff.2 h, rfl⟩

/-- The names that the groups are listed under are those of their exceptions. -/
theorem exceptions_toList :
    (ofExceptions es messages).toList.map (·.exception) = Pairs.keys (ofExceptions es messages).groups.entries := by
  rw [toList, List.map_map]
  refine List.map_congr_left fun p hp => ?_
  exact exception_of_get? (Sorted.mem_entries_iff.1 hp)

/-- The groups are those of the exceptions that carry codes. -/
theorem mem_exceptions_toList : name ∈ (ofExceptions es messages).toList.map (·.exception) ↔
    ∃ e ∈ es, e.codes ≠ [] ∧ e.name = name := by
  constructor
  · intro h
    obtain ⟨g, hg, rfl⟩ := List.mem_map.1 h
    rw [mem_toList_iff, get?_ofExceptions] at hg
    obtain ⟨e, he, -⟩ := Option.map_eq_some_iff.1 hg
    obtain ⟨hmem, hname⟩ := mem_of_carrier? he
    obtain ⟨hes, hcodes⟩ := mem_carriers.1 hmem
    exact ⟨e, hes, hcodes, hname⟩
  · rintro ⟨e, he, hcodes, rfl⟩
    obtain ⟨last, hlast⟩ := exists_carrier? (mem_carriers.2 ⟨he, hcodes⟩)
    have hname := (mem_of_carrier? hlast).2
    refine List.mem_map.2 ⟨groupOf messages last, mem_toList_iff.2 ?_, hname⟩
    rw [exception_groupOf, hname, get?_ofExceptions, hlast, Option.map_some]

/-! ## Codes -/

/-- Whether a code is documented as itself, with the message of its key, or with the key where there is none. -/
structure Tells (messages : Keyed String) (c : Facts.ErrorCode) (d : ErrorCode) : Prop where
  code : d.code = c.code
  name : d.name = c.name
  key : d.messageKey = c.messageKey
  message : messages.get? c.messageKey = some d.message ∨
    messages.get? c.messageKey = none ∧ d.message = c.messageKey

/-- Whether a group has all codes of an exception in their order. -/
def Covers (messages : Keyed String) (e : ExceptionFacts) (g : ErrorGroup) : Prop :=
  ∃ part, part.Sublist g.codes ∧ List.Forall₂ (Tells messages) e.codes part

/-- Whether every exception that carries codes has a group with all of them. -/
def KeepsAll (es : List ExceptionFacts) (messages : Keyed String) (catalog : ErrorCatalog) : Prop :=
  ∀ e ∈ es, e.codes ≠ [] → ∃ g ∈ catalog.toList, g.exception = e.name ∧ Covers messages e g

/-- Whether exceptions of one name have one group. -/
def Agree (es : List ExceptionFacts) (messages : Keyed String) : Prop :=
  ∀ e ∈ carriers es, ∀ e' ∈ carriers es, e.name = e'.name → groupOf messages e = groupOf messages e'

instance : Decidable (Agree es messages) :=
  inferInstanceAs (Decidable (∀ e ∈ carriers es, ∀ e' ∈ carriers es, e.name = e'.name → _))

theorem tells_codeOf (messages : Keyed String) (c : Facts.ErrorCode) : Tells messages c (codeOf messages c) where
  code := rfl
  name := rfl
  key := rfl
  message := by
    unfold codeOf
    cases messages.get? c.messageKey <;> simp

theorem tells_groupOf (messages : Keyed String) (e : ExceptionFacts) :
    List.Forall₂ (Tells messages) e.codes (groupOf messages e).codes := by
  rw [groupOf, List.forall₂_map_right_iff, List.forall₂_same]
  exact fun c _ => tells_codeOf messages c

/-! ## The catalog -/

/-- Where the exceptions of each name agree, every one of them has its group. -/
theorem get?_of_agree (h : Agree es messages) (he : e ∈ carriers es) :
    (ofExceptions es messages).get? e.name = some (groupOf messages e) := by
  obtain ⟨last, hlast⟩ := exists_carrier? he
  obtain ⟨hmem, hname⟩ := mem_of_carrier? hlast
  rw [get?_ofExceptions, hlast, Option.map_some, h last hmem e he hname]

theorem keepsAll_of_agree (h : Agree es messages) : KeepsAll es messages (ofExceptions es messages) := by
  intro e he hcodes
  have hget := get?_of_agree h (mem_carriers.2 ⟨he, hcodes⟩)
  refine ⟨groupOf messages e, mem_toList_iff.2 ?_, rfl, _, List.Sublist.refl _, tells_groupOf messages e⟩
  rwa [exception_groupOf]

/-- The order does not matter exactly if the exceptions of each name agree: any of them can come last. -/
theorem ofExceptions_perm_iff : (∀ es', es'.Perm es → ofExceptions es' messages = ofExceptions es messages) ↔
    Agree es messages := by
  constructor
  · have hlast : ∀ e ∈ carriers es, (∀ es', es'.Perm es → ofExceptions es' messages = ofExceptions es messages) →
        (ofExceptions es messages).get? e.name = some (groupOf messages e) := by
      intro e he hperm
      obtain ⟨hmem, hcodes⟩ := mem_carriers.1 he
      obtain ⟨before, after, rfl⟩ := List.append_of_mem hmem
      have hmoved : (before ++ after ++ [e]).Perm (before ++ e :: after) := by
        rw [List.append_assoc]
        exact .append_left _ List.perm_append_comm
      rw [← hperm _ hmoved, get?_ofExceptions, carrier?_concat hcodes, Option.map_some]
    intro hperm e he e' he' hname
    have hsame := hlast e he hperm
    rw [hname, hlast e' he' hperm] at hsame
    exact (Option.some.inj hsame).symm
  · intro h es' hp
    have hcarriers : (carriers es').Perm (carriers es) := hp.filter _
    have h' : Agree es' messages := fun e he e' he' =>
      h e (hcarriers.subset he) e' (hcarriers.subset he')
    refine ext_get? fun name => ?_
    cases hname : carrier? es name with
    | some e =>
      obtain ⟨he, rfl⟩ := mem_of_carrier? hname
      rw [get?_of_agree h he, get?_of_agree h' (hcarriers.symm.subset he)]
    | none =>
      rw [get?_ofExceptions, get?_ofExceptions, hname]
      cases hname' : carrier? es' name with
      | none => rfl
      | some e =>
        obtain ⟨he, rfl⟩ := mem_of_carrier? hname'
        obtain ⟨last, hlast⟩ := exists_carrier? (hcarriers.subset he)
        exact absurd (hname.symm.trans hlast) (by simp)

/-- The groups of a catalog are in the strict order of the names of exceptions, and these are the names of those that
carry codes. A name is looked up as the group that is listed under it, which has exactly the codes of the last
exception with the name. If the exceptions of each name agree, each has all its codes in its group; and then, and only
then, the catalog is the same for every order of the exceptions. -/
theorem ofExceptions_last (es : List ExceptionFacts) (messages : Keyed String) :
    ((ofExceptions es messages).toList.map (·.exception)).Pairwise (· < ·) ∧
    (∀ name, name ∈ (ofExceptions es messages).toList.map (·.exception) ↔ ∃ e ∈ es, e.codes ≠ [] ∧ e.name = name) ∧
    (∀ g, g ∈ (ofExceptions es messages).toList ↔ (ofExceptions es messages).get? g.exception = some g) ∧
    (∀ name g, (ofExceptions es messages).get? name = some g ↔
      ∃ e, carrier? es name = some e ∧ g = groupOf messages e ∧ List.Forall₂ (Tells messages) e.codes g.codes) ∧
    (Agree es messages → KeepsAll es messages (ofExceptions es messages)) ∧
    ((∀ es', es'.Perm es → ofExceptions es' messages = ofExceptions es messages) ↔ Agree es messages) := by
  refine ⟨exceptions_toList ▸ (ofExceptions es messages).groups.ordered, fun name => mem_exceptions_toList,
    fun g => mem_toList_iff, fun name g => ?_, keepsAll_of_agree, ofExceptions_perm_iff⟩
  rw [get?_ofExceptions, Option.map_eq_some_iff]
  constructor
  · rintro ⟨e, he, rfl⟩
    exact ⟨e, he, rfl, tells_groupOf messages e⟩
  · rintro ⟨e, he, rfl, -⟩
    exact ⟨e, he, rfl⟩

/-- Two exceptions of one name. The first carries a code more. -/
def quotas : List ExceptionFacts :=
  [⟨"QuotaException", none, none, none, [⟨"DAILY", "Q1", "quota.daily"⟩, ⟨"HOURLY", "Q2", "quota.hourly"⟩]⟩,
   ⟨"QuotaException", none, none, none, [⟨"DAILY", "Q1", "quota.daily"⟩]⟩]

/-- Exceptions of which only one of each name carries codes. -/
def limits : List ExceptionFacts :=
  quotas.take 1 ++
    [⟨"AuthException", none, some "UNAUTHORIZED", none, [⟨"EXPIRED", "A1", "auth.expired"⟩]⟩,
     ⟨"QuotaException", none, none, none, []⟩]

/-- The message of one of their codes. -/
def limitTexts : Keyed String :=
  Keyed.ofList [("quota.daily", "Ask again tomorrow")]

theorem limits_kept : Agree limits limitTexts ∧ KeepsAll limits limitTexts (ofExceptions limits limitTexts) ∧
    ofExceptions limits.reverse limitTexts = ofExceptions limits limitTexts := by
  have hagree : Agree limits limitTexts := by decide
  obtain ⟨-, -, -, -, hkeeps, hperm⟩ := ofExceptions_last limits limitTexts
  exact ⟨hagree, hkeeps hagree, hperm.2 hagree _ limits.reverse_perm⟩

/-- The hourly quota is lost where its exception comes first, and kept where it comes last. -/
theorem quotas_lost : ¬ KeepsAll quotas Keyed.empty (ofExceptions quotas Keyed.empty) ∧
    quotas.reverse.Perm quotas ∧ ofExceptions quotas.reverse Keyed.empty ≠ ofExceptions quotas Keyed.empty := by
  have hcodes : ∀ g ∈ (ofExceptions quotas Keyed.empty).toList, g.codes.length = 1 := by decide
  refine ⟨fun hkeeps => ?_, quotas.reverse_perm, fun hsame => ?_⟩
  · obtain ⟨g, hg, -, part, hpart, htells⟩ := hkeeps _ List.mem_cons_self (by decide)
    have hlength : 2 = part.length := htells.length_eq
    have hle := hpart.length_le
    rw [hcodes g hg] at hle
    omega
  · have hlengths := congrArg (fun catalog => catalog.toList.map (·.codes.length)) hsame
    exact absurd hlengths (by decide)

end ApiDocs.ErrorCatalog
