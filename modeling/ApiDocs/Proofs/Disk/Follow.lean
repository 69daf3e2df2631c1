import ApiDocs.Disk.Basic
import ApiDocs.Proofs.Disk.Path
import ApiDocs.Proofs.Keyed
import Mathlib.Data.List.Induction
/-!
# Following paths

`goal` is the place that names lead to by themselves, and `Leads` says that the disk lets them lead
there: all that stands on the way is a folder. Idle pieces change nothing as long as the way ends at a
folder, and a disk that has all folders of another leads wherever that one leads.
-/
namespace ApiDocs.Disk

/-- The place that a name leads to from a folder. -/
def walk (here : Place) (n : String) : Place :=
  if n = "" ∨ n = "." then here else if n = ".." then here.dropLast else here ++ [n]

/-- The place that names lead to. -/
def goal (here : Place) (ns : List String) : Place :=
  ns.foldl walk here

/-- A name that a folder can have an entry under. -/
structure Proper (n : String) : Prop where
  not_idle : Path.isIdle false n = false
  not_up : n ≠ ".."

/-- Names that are no longer than names may be. -/
def Short (n : String) : Prop :=
  Text.byteLength n.toList ≤ nameLimit

instance (n : String) : Decidable (Short n) :=
  inferInstanceAs (Decidable (_ ≤ _))

/-- Everything that names pass on their way is a folder. -/
inductive Leads (d : Disk) : Place → List String → Prop
  | done {here} : Leads d here []
  | step {here n ns} : d.at? here = some .folder → Short n → Leads d (walk here n) ns → Leads d here (n :: ns)

variable {d S T : Disk} {here home place q : Place} {n path above : String} {ns ms ps : List String} {e : Entry}

/-! ## Entries -/

theorem at?_nil (d : Disk) : d.at? [] = some .folder :=
  rfl

theorem at?_put (h : d.Fits place e) (q : Place) : (d.put place e).at? q = if place = q then some e else d.at? q := by
  rw [put, dif_pos h]
  exact lookUp_put h.1

theorem put_home (d : Disk) (place : Place) (e : Entry) : (d.put place e).home = d.home := by
  unfold put
  split <;> rfl

theorem put_locked (d : Disk) (place : Place) (e : Entry) : (d.put place e).locked = d.locked := by
  unfold put
  split <;> rfl

theorem at?_dropLast (h : d.at? place = some e) (hne : place ≠ []) : d.at? place.dropLast = some .folder := by
  rw [at?, lookUp, if_neg hne] at h
  exact (d.closed place (List.mem_map.2 ⟨_, Pairs.mem_of_get? h, rfl⟩)).2

/-- Everything on the way to an entry is a folder. -/
theorem at?_of_append (h : d.at? (place ++ q) = some e) (hne : q ≠ []) : d.at? place = some .folder := by
  induction q using List.reverseRecOn generalizing e with
  | nil => exact absurd rfl hne
  | append_singleton q n ih =>
    have hparent := at?_dropLast h (by simp)
    rw [← List.append_assoc, List.dropLast_concat] at hparent
    by_cases hq : q = []
    · rwa [hq, List.append_nil] at hparent
    · exact ih hparent hq

theorem at?_erase (d : Disk) (hne : place ≠ []) (q : Place) :
    (d.erase place).at? q = if place <+: q then none else d.at? q := by
  rw [at?, at?, lookUp, lookUp, erase]
  by_cases hq : q = []
  · subst hq
    rw [if_pos rfl, if_pos rfl, if_neg (by simpa using hne)]
  · rw [if_neg hq, if_neg hq]
    by_cases hp : place <+: q
    · rw [if_pos hp, Pairs.get?_eq_none_iff]
      intro hm
      obtain ⟨p, hp', rfl⟩ := List.mem_map.1 hm
      have := (List.mem_filter.1 hp').2
      rw [List.isPrefixOf_iff_prefix.2 hp] at this
      cases this
    · rw [if_neg hp, @Pairs.get?_filter _ _ _ q (fun k => !place.isPrefixOf k) d.entries]
      rw [Bool.not_eq_true', ← Bool.not_eq_true, List.isPrefixOf_iff_prefix]
      exact hp

/-! ## Goals -/

theorem goal_append (here : Place) (ms ns : List String) : goal here (ms ++ ns) = goal (goal here ms) ns :=
  List.foldl_append

theorem idle_iff : Path.isIdle false n = true ↔ n = "" ∨ n = "." := by
  simp [Path.isIdle]

theorem walk_of_idle (h : Path.isIdle false n = true) : walk here n = here :=
  if_pos (idle_iff.1 h)

theorem goal_named (here : Place) (ps : List String) : goal here (Path.named ps) = goal here ps := by
  induction ps generalizing here with
  | nil => rfl
  | cons p ps ih =>
    by_cases hp : Path.isIdle false p = true
    · have hcons : Path.named (p :: ps) = Path.named ps := by simp [Path.named, hp]
      rw [hcons, ih]
      exact congrArg (goal · ps) (walk_of_idle hp).symm
    · rw [Path.named_cons_of_not_idle (by simpa using hp)]
      exact ih (walk here p)

theorem Proper.walk (h : Proper n) (here : Place) : Disk.walk here n = here ++ [n] := by
  have hidle := h.not_idle
  rw [← Bool.not_eq_true, idle_iff] at hidle
  rw [Disk.walk, if_neg hidle, if_neg h.not_up]

/-- Names without steps up lead down. -/
theorem goal_of_down (h : ".." ∉ ps) : goal here ps = here ++ Path.named ps := by
  rw [← goal_named]
  induction ps generalizing here with
  | nil => exact (List.append_nil _).symm
  | cons p ps ih =>
    rw [List.mem_cons, not_or] at h
    by_cases hp : Path.isIdle false p = true
    · have hcons : Path.named (p :: ps) = Path.named ps := by simp [Path.named, hp]
      rw [hcons, ih h.2]
    · rw [Path.named_cons_of_not_idle (by simpa using hp)]
      have hwalk := Proper.walk ⟨by simpa using hp, Ne.symm h.1⟩ here
      show goal (Disk.walk here p) (Path.named ps) = _
      rw [hwalk, ih h.2, List.append_assoc]
      rfl

/-! ## Ways -/

theorem short_of_idle (h : Path.isIdle false n = true) : Short n := by
  rcases idle_iff.1 h with rfl | rfl <;> decide

theorem follow_cons (hh : d.at? here = some .folder) (hn : Short n) (ns : List String) :
    d.follow here (n :: ns) = d.follow (walk here n) ns := by
  rw [follow, hh]
  by_cases hidle : n = "" ∨ n = "."
  · simp [walk, hidle]
  · by_cases hup : n = ".."
    · simp [walk, hup]
    · simp [walk, hidle, hup, Nat.not_lt.2 hn]

theorem Leads.follow (h : Leads d here ns) : d.follow here ns = .ok (goal here ns) := by
  induction h with
  | done => rfl
  | step hh hn _ ih => rw [follow_cons hh hn, ih]; rfl

theorem leads_of_follow (h : d.follow here ns = .ok place) : Leads d here ns ∧ place = goal here ns := by
  induction ns generalizing here with
  | nil => exact ⟨.done, (Except.ok.inj h).symm⟩
  | cons n ns ih =>
    have hh : d.at? here = some .folder := by
      rw [Disk.follow] at h
      split at h
      · cases h
      · cases h
      · assumption
    have hn : Short n := by
      by_contra hlong
      have hidle : ¬ (n = "" ∨ n = ".") := fun hi => hlong (short_of_idle (idle_iff.2 hi))
      have hup : n ≠ ".." := by
        rintro rfl
        exact hlong (by decide)
      rw [Disk.follow, hh] at h
      simp [hidle, hup, Nat.lt_of_not_le hlong] at h
    rw [follow_cons hh hn] at h
    obtain ⟨hl, hp⟩ := ih h
    exact ⟨.step hh hn hl, hp⟩

theorem leads_append : Leads d here (ms ++ ns) ↔ Leads d here ms ∧ Leads d (goal here ms) ns := by
  induction ms generalizing here with
  | nil => exact ⟨fun h => ⟨.done, h⟩, fun h => h.2⟩
  | cons m ms ih =>
    constructor
    · intro h
      cases h with
      | step hh hn h =>
        obtain ⟨h₁, h₂⟩ := ih.1 h
        exact ⟨.step hh hn h₁, h₂⟩
    · rintro ⟨h₁, h₂⟩
      cases h₁ with
      | step hh hn h => exact .step hh hn (ih.2 ⟨h, h₂⟩)

theorem Leads.mono (h : Leads S here ns) (hST : ∀ q, S.at? q = some .folder → T.at? q = some .folder) :
    Leads T here ns := by
  induction h with
  | done => exact .done
  | step hh hn _ ih => exact .step (hST _ hh) hn ih

theorem Leads.head (h : Leads d here ns) (hne : ns ≠ []) : d.at? here = some .folder := by
  cases h with
  | done => exact absurd rfl hne
  | step hh => exact hh

/-- A way that ends at a folder begins at one. -/
theorem Leads.start (h : Leads d here ns) (hg : d.at? (goal here ns) = some .folder) : d.at? here = some .folder := by
  cases h with
  | done => exact hg
  | step hh => exact hh

theorem Leads.named (h : Leads d here ps) : Leads d here (Path.named ps) := by
  induction h with
  | done => exact .done
  | @step here n ns hh hn _ ih =>
    by_cases hi : Path.isIdle false n = true
    · have hcons : Path.named (n :: ns) = Path.named ns := by simp [Path.named, hi]
      rw [walk_of_idle hi] at ih
      rwa [hcons]
    · rw [Path.named_cons_of_not_idle (by simpa using hi)]
      exact .step hh hn ih

theorem Leads.of_named (h : Leads d here (Path.named ps)) (hh : d.at? here = some .folder)
    (hg : d.at? (goal here ps) = some .folder) : Leads d here ps := by
  induction ps generalizing here with
  | nil => exact .done
  | cons p ps ih =>
    by_cases hi : Path.isIdle false p = true
    · -- An idle piece stays in the folder.
      have hcons : Path.named (p :: ps) = Path.named ps := by simp [Path.named, hi]
      rw [hcons] at h
      refine .step hh (short_of_idle hi) ?_
      rw [walk_of_idle hi]
      refine ih h hh ?_
      have hwalk : walk here p = here := walk_of_idle hi
      rwa [goal, List.foldl_cons, hwalk] at hg
    · rw [Path.named_cons_of_not_idle (by simpa using hi)] at h
      cases h with
      | step _ hn h =>
        refine .step hh hn (ih h (h.start ?_) hg)
        rw [goal_named]
        exact hg

/-- Idle pieces before a name say nothing. -/
theorem Leads.of_trimmed (ht : Path.Trimmed ps) (h : Leads d here (Path.named ps)) (hh : d.at? here = some .folder) :
    Leads d here ps := by
  rcases ht with hnil | ⟨qs, n, rfl, hn⟩
  · refine h.of_named hh ?_
    rwa [← goal_named, hnil]
  · have hlast : Path.named [n] = [n] := Path.named_cons_of_not_idle hn
    rw [Path.named_append, hlast, leads_append] at h
    obtain ⟨hqs, hend⟩ := h
    rw [goal_named] at hend
    cases hend with
    | step hf hs _ => exact leads_append.2 ⟨hqs.of_named hh hf, .step hf hs .done⟩

/-! ## Paths -/

/-- A path text that a disk takes. -/
structure Usable (path : String) : Prop where
  no_nul : '\x00' ∉ path.toList
  short : Text.byteLength path.toList < pathLimit
  ne_empty : path ≠ ""

/-- Where a path starts. -/
def start (home : Place) (path : String) : Place :=
  if Path.isAbsolute path then [] else home

/-- The place that a path leads to, as far as its text tells. -/
def placeAt (home : Place) (path : String) : Place :=
  goal (start home path) (Path.names path)

theorem goal_pieces (home : Place) (path : String) : goal (start home path) (Path.pieces path) = placeAt home path :=
  (goal_named _ _).symm

theorem placeOf_eq (h : Usable path) (ps : List String) : d.placeOf path ps = d.follow (start d.home path) ps := by
  rw [placeOf, if_neg (by simpa using h.no_nul), if_neg (Nat.not_le.2 h.short), if_neg h.ne_empty]
  rfl

theorem usable_of_placeOf (h : d.placeOf path ps = .ok place) : Usable path := by
  unfold placeOf at h
  split at h
  · cases h
  case isFalse hnul =>
    split at h
    · cases h
    case isFalse hlen =>
      split at h
      · cases h
      case isFalse hne => exact ⟨by simpa using hnul, Nat.lt_of_not_le hlen, hne⟩

theorem placeOf_ok (h : d.placeOf path ps = .ok place) :
    Usable path ∧ Leads d (start d.home path) ps ∧ place = goal (start d.home path) ps := by
  have hu := usable_of_placeOf h
  rw [placeOf_eq hu] at h
  exact ⟨hu, leads_of_follow h⟩

theorem find_eq_ok_iff : d.find path = .ok (place, e) ↔
    Usable path ∧ Leads d (start d.home path) (Path.pieces path) ∧ place = goal (start d.home path) (Path.pieces path) ∧
      d.at? place = some e := by
  unfold find
  constructor
  · intro h
    split at h
    · cases h
    case h_2 p hp =>
      obtain ⟨hu, hl, rfl⟩ := placeOf_ok hp
      split at h
      case h_1 e' he =>
        obtain ⟨rfl, rfl⟩ := Prod.mk.inj (Except.ok.inj h)
        exact ⟨hu, hl, rfl, he⟩
      · cases h
  · rintro ⟨hu, hl, rfl, he⟩
    simp only [placeOf_eq hu, hl.follow, he]

theorem Usable.of_prefix (h : Usable path) (hp : above.toList <+: path.toList) (hne : above ≠ "") : Usable above := by
  obtain ⟨rest, hrest⟩ := hp
  refine ⟨fun hm => h.no_nul (by rw [← hrest]; exact List.mem_append_left _ hm), ?_, hne⟩
  have := h.short
  rw [← hrest, Text.byteLength_append] at this
  omega

end ApiDocs.Disk
