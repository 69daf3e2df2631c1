import ApiDocs.Disk.Path
import Mathlib.Data.List.TakeWhile
/-!
# The names in a path

What a path text leads to depends on its names, the pieces that are neither empty nor a single dot.
The names of a joined path are those of both parts, and the folder of a path has all names of it but
the last.
-/
namespace ApiDocs.Path

/-- The pieces of a path that say something. -/
def named (ps : List String) : List String :=
  ps.filter fun n => !isIdle false n

/-- The names on the way that a path describes. -/
def names (path : String) : List String :=
  named (pieces path)

variable {path above folder n : String} {ps qs : List String}

theorem named_append (ps qs : List String) : named (ps ++ qs) = named ps ++ named qs :=
  List.filter_append ..

theorem named_eq_nil_iff : named ps = [] ↔ ∀ n ∈ ps, isIdle false n = true := by
  simp [named, List.filter_eq_nil_iff]

theorem named_cons_of_not_idle (h : isIdle false n = false) : named (n :: ps) = n :: named ps := by
  simp [named, h]

/-! ## Pieces -/

theorem pieces_ne_nil (path : String) : pieces path ≠ [] := by
  obtain ⟨piece, rest, h⟩ := Text.exists_splitAt '/' path.toList
  simp [pieces, h]

theorem not_mem_of_mem_pieces (h : n ∈ pieces path) : '/' ∉ n.toList := by
  obtain ⟨cs, hcs, rfl⟩ := List.mem_map.1 h
  rw [String.toList_ofList]
  exact Text.not_mem_of_mem_splitAt hcs

theorem pieces_of_not_mem (h : '/' ∉ n.toList) : pieces n = [n] := by
  simp [pieces, Text.splitAt_of_not_mem h]

theorem pieces_append_slash (s t : String) : pieces (s ++ "/" ++ t) = pieces s ++ pieces t := by
  have hchars : (s ++ "/" ++ t).toList = s.toList ++ '/' :: t.toList := by simp
  rw [pieces, hchars, Text.splitAt_append, List.map_append]
  rfl

theorem join_cons (sep s : String) (h : ps ≠ []) : Text.join sep (s :: ps) = s ++ sep ++ Text.join sep ps := by
  cases ps with
  | nil => exact absurd rfl h
  | cons t rest => rfl

theorem pieces_join (hne : ps ≠ []) (h : ∀ n ∈ ps, '/' ∉ n.toList) : pieces (Text.join "/" ps) = ps := by
  induction ps with
  | nil => exact absurd rfl hne
  | cons s ps ih =>
    have hs := pieces_of_not_mem (h s List.mem_cons_self)
    by_cases hps : ps = []
    · subst hps
      exact hs
    · rw [join_cons "/" s hps, pieces_append_slash, hs, ih hps fun n hn => h n (List.mem_cons_of_mem _ hn)]
      rfl

theorem join_pieces (path : String) : Text.join "/" (pieces path) = path := by
  have hchars : ∀ cs, (Text.join "/" ((Text.splitAt '/' cs).map String.ofList)).toList = cs := by
    intro cs
    induction cs with
    | nil => rfl
    | cons c cs ih =>
      obtain ⟨piece, rest, hs⟩ := Text.exists_splitAt '/' cs
      by_cases hc : c = '/'
      · rw [hc, Text.splitAt_cons_self, List.map_cons, join_cons _ _ (by simp [hs])]
        simp [ih]
      · rw [hs, List.map_cons] at ih
        rw [Text.splitAt_cons_of_ne hc hs, List.map_cons]
        by_cases hr : rest.map String.ofList = []
        · rw [hr, Text.join, String.toList_ofList] at ih ⊢
          rw [ih]
        · rw [join_cons _ _ hr] at ih ⊢
          simpa using ih
  rw [← String.toList_inj]
  exact hchars path.toList

theorem join_prefix (h : ps ≠ []) (qs : List String) :
    (Text.join "/" ps).toList <+: (Text.join "/" (ps ++ qs)).toList := by
  induction ps with
  | nil => exact absurd rfl h
  | cons s ps ih =>
    by_cases hps : ps = []
    · subst hps
      by_cases hqs : qs = []
      · subst hqs
        exact List.prefix_refl _
      · rw [List.singleton_append, join_cons _ _ hqs]
        exact ⟨("/" ++ Text.join "/" qs).toList, by simp [Text.join]⟩
    · obtain ⟨rest, hrest⟩ := ih hps
      rw [List.cons_append, join_cons _ _ hps, join_cons _ _ (show ps ++ qs ≠ [] by simp [hps])]
      exact ⟨rest, by simp [← hrest]⟩

/-! ## Absolute paths -/

theorem isAbsolute_iff : isAbsolute path = true ↔ path.toList.head? = some '/' := by
  have hslash : "/".toList = ['/'] := rfl
  rw [isAbsolute, Text.startsWith, hslash]
  cases path.toList with
  | nil => decide
  | cons c cs => simp [List.isPrefixOf, @eq_comm _ c]

theorem isAbsolute_eq_of_begins (h : above.toList <+: path.toList) (hne : above ≠ "") :
    isAbsolute above = isAbsolute path := by
  obtain ⟨rest, hrest⟩ := h
  obtain ⟨c, cs, hcs⟩ := List.exists_cons_of_ne_nil (show above.toList ≠ [] by simpa using hne)
  rw [Bool.eq_iff_iff, isAbsolute_iff, isAbsolute_iff, ← hrest, hcs]
  rfl

/-! ## Idle pieces at the end -/

theorem trimRest_cases (ps : List String) :
    named ps = [] ∧ trimIdle.trimRest ps = [] ∨
      ∃ qs n tail, ps = qs ++ n :: tail ∧ isIdle false n = false ∧ named tail = [] ∧ trimIdle.trimRest ps = qs ++ [n] := by
  have hsplit := List.takeWhile_append_dropWhile (p := isIdle false) (l := ps.reverse)
  have hidle : ∀ n ∈ ps.reverse.takeWhile (isIdle false), isIdle false n = true := fun n hn => List.mem_takeWhile_imp hn
  cases hd : ps.reverse.dropWhile (isIdle false) with
  | nil =>
    rw [hd, List.append_nil] at hsplit
    refine .inl ⟨named_eq_nil_iff.2 fun n hn => hidle n ?_, by simp [trimIdle.trimRest, hd]⟩
    rw [hsplit]
    exact List.mem_reverse.2 hn
  | cons n before =>
    refine .inr ⟨before.reverse, n, (ps.reverse.takeWhile (isIdle false)).reverse, ?_, ?_, ?_, by simp [trimIdle.trimRest, hd]⟩
    · rw [hd] at hsplit
      simpa using (congrArg List.reverse hsplit).symm
    · have := List.head?_dropWhile_not (isIdle false) ps.reverse
      simpa [hd] using this
    · exact named_eq_nil_iff.2 fun m hm => hidle m (List.mem_reverse.1 hm)

/-- Without the idle pieces at its end a list ends with a name, if it has one. -/
theorem trimIdle_cases (ps : List String) :
    named ps = [] ∧ (trimIdle ps = [] ∨ trimIdle ps = ["."] ∧ ps.head? = some ".") ∨
      ∃ qs n tail, ps = qs ++ n :: tail ∧ isIdle false n = false ∧ named tail = [] ∧ trimIdle ps = qs ++ [n] := by
  cases ps with
  | nil => exact .inl ⟨rfl, .inl rfl⟩
  | cons p rest =>
    by_cases hrest : named rest = []
    · have hall : rest.all (isIdle false) = true := List.all_eq_true.2 (named_eq_nil_iff.1 hrest)
      by_cases hp : isIdle false p = true
      · refine .inl ⟨named_eq_nil_iff.2 (List.forall_mem_cons.2 ⟨hp, named_eq_nil_iff.1 hrest⟩), ?_⟩
        simp only [trimIdle, hall, if_true]
        by_cases he : p.isEmpty = true
        · exact .inl (by simp [isIdle, he])
        · refine .inr ?_
          simp only [isIdle, he, Bool.false_or, Bool.not_false, Bool.and_true, beq_iff_eq] at hp
          exact ⟨by simp [isIdle, hp], by simp [hp]⟩
      · have he : isIdle true p = false := by
          simp only [isIdle, Bool.not_false, Bool.and_true, Bool.or_eq_true, not_or] at hp
          simp [isIdle, hp.1]
        exact .inr ⟨[], p, rest, rfl, by simpa using hp, hrest, by simp [trimIdle, hall, he]⟩
    · have hall : rest.all (isIdle false) = false := by
        rw [← Bool.not_eq_true, List.all_eq_true, ← named_eq_nil_iff]
        exact hrest
      rcases trimRest_cases rest with ⟨hr, -⟩ | ⟨qs, n, tail, rfl, hn, htail, htrim⟩
      · exact absurd hr hrest
      · exact .inr ⟨p :: qs, n, tail, rfl, hn, htail, by simp [trimIdle, hall, htrim]⟩

theorem trimIdle_begins (ps : List String) : trimIdle ps <+: ps := by
  rcases trimIdle_cases ps with ⟨-, h | ⟨h, hhead⟩⟩ | ⟨qs, n, tail, hps, -, -, h⟩
  · rw [h]
    exact List.nil_prefix
  · rw [h]
    cases ps with
    | nil => cases hhead
    | cons p rest => exact ⟨rest, by rw [Option.some.inj hhead]; rfl⟩
  · rw [h, hps]
    exact ⟨tail, by simp⟩

theorem named_trimIdle (ps : List String) : named (trimIdle ps) = named ps := by
  rcases trimIdle_cases ps with ⟨hps, h | ⟨h, -⟩⟩ | ⟨qs, n, tail, rfl, -, htail, h⟩
  · rw [h, hps]
    rfl
  · rw [h, hps]
    rfl
  · have hcons : qs ++ n :: tail = (qs ++ [n]) ++ tail := by simp
    rw [h, hcons, named_append _ tail, htail, List.append_nil]

/-! ## Folders of paths -/

/-- The pieces say nothing, or they end with a name. -/
def Trimmed (ps : List String) : Prop :=
  named ps = [] ∨ ∃ qs n, ps = qs ++ [n] ∧ isIdle false n = false

theorem trimmed_trimIdle (ps : List String) : Trimmed (trimIdle ps) := by
  rcases trimIdle_cases ps with ⟨hps, -⟩ | ⟨qs, n, tail, -, hn, -, h⟩
  · exact .inl (by rw [named_trimIdle, hps])
  · exact .inr ⟨qs, n, h, hn⟩

theorem ne_singleton_empty_of_trimIdle (ps : List String) : trimIdle ps ≠ [""] := by
  rcases trimIdle_cases ps with ⟨-, h | ⟨h, -⟩⟩ | ⟨qs, n, tail, -, hn, -, h⟩
  · simp [h]
  · simp [h]
  · rw [h]
    intro he
    obtain ⟨-, hlast⟩ := List.append_inj' (show qs ++ [n] = [] ++ [""] from he) rfl
    rw [List.singleton_inj.1 hlast] at hn
    cases hn

theorem dropLast_named_trimIdle (ps : List String) : (named (trimIdle ps)).dropLast = named (trimIdle ps).dropLast := by
  rcases trimIdle_cases ps with ⟨-, h | ⟨h, -⟩⟩ | ⟨qs, n, tail, -, hn, -, h⟩
  · rw [h]
    rfl
  · rw [h]
    rfl
  · rw [h, named_append, named_cons_of_not_idle hn, List.dropLast_concat]
    exact List.dropLast_concat

/-- The path of the folder that the last name of a path stands in. -/
structure Above (path above : String) : Prop where
  begins : above.toList <+: path.toList
  names : names above = (names path).dropLast
  trimmed : Trimmed (pieces above)

theorem above_of_parent? (h : parent? path = some above) : Above path above := by
  unfold parent? at h
  have hnames : named (trimIdle (trimIdle (pieces path)).dropLast) = (names path).dropLast := by
    rw [named_trimIdle, ← dropLast_named_trimIdle, named_trimIdle]
    rfl
  have hbegins := (trimIdle_begins (trimIdle (pieces path)).dropLast).trans
    ((List.dropLast_prefix _).trans (trimIdle_begins (pieces path)))
  split at h
  · cases h
  · obtain rfl := Option.some.inj h
    generalize hps : trimIdle (trimIdle (pieces path)).dropLast = ps at hnames hbegins ⊢
    by_cases hnil : ps = []
    · subst hnil
      by_cases habs : isAbsolute path = true
      · rw [if_pos (by simp [Text.join, habs])]
        refine ⟨?_, hnames, .inl rfl⟩
        obtain ⟨cs, hcs⟩ := List.head?_eq_some_iff.1 (isAbsolute_iff.1 habs)
        exact ⟨cs, hcs.symm⟩
      · rw [if_neg (by simp [habs])]
        exact ⟨List.nil_prefix, hnames, .inl rfl⟩
    · have hslash : ∀ n ∈ ps, '/' ∉ n.toList := fun n hn => not_mem_of_mem_pieces (hbegins.subset hn)
      have hpieces := pieces_join hnil hslash
      have hne : (Text.join "/" ps).isEmpty = false := by
        rw [← Bool.not_eq_true, String.isEmpty_iff]
        intro he
        rw [he] at hpieces
        exact ne_singleton_empty_of_trimIdle _ (hps.trans hpieces.symm)
      rw [if_neg (by simp [hne])]
      refine ⟨?_, by rw [names, hpieces, hnames], by rw [hpieces, ← hps]; exact trimmed_trimIdle _⟩
      obtain ⟨rest, hrest⟩ := hbegins
      have := join_prefix hnil rest
      rwa [hrest, join_pieces] at this

theorem names_eq_nil_of_parent? (h : parent? path = none) : names path = [] := by
  unfold parent? at h
  split at h
  case h_1 he =>
    rw [names, ← named_trimIdle, he]
    rfl
  · cases h

theorem length_names_le (path : String) : (names path).length ≤ path.length := by
  have hle : (names path).length ≤ (Text.splitAt '/' path.toList).countP fun piece => !piece.isEmpty := by
    rw [names, named, pieces, List.filter_map, List.length_map, ← List.countP_eq_length_filter]
    refine List.countP_mono_left fun piece _ hp => ?_
    cases piece with
    | nil => simp [isIdle] at hp
    | cons c cs => rfl
  exact hle.trans (Text.countP_splitAt_le '/' path.toList)

/-! ## Joined paths -/

theorem join_of_isAbsolute (h : isAbsolute n = true) : join folder n = n :=
  if_pos h

/-- A path below a folder, in three ways. -/
theorem join_cases (h : isAbsolute n = false) (folder : String) :
    folder = "" ∧ join folder n = n ∨ (∃ lead, folder = lead ++ "/" ∧ join folder n = lead ++ "/" ++ n) ∨
      folder ≠ "" ∧ join folder n = folder ++ "/" ++ n := by
  unfold join
  rw [if_neg (by simp [h])]
  by_cases hempty : folder = ""
  · exact .inl ⟨hempty, by simp [hempty]⟩
  · by_cases hends : Text.endsWith folder "/" = true
    · refine .inr (.inl ?_)
      obtain ⟨cs, hcs⟩ := List.isSuffixOf_iff_suffix.1 hends
      have hlead : folder = String.ofList cs ++ "/" := by
        rw [← String.toList_inj, ← hcs]
        simp
      exact ⟨String.ofList cs, hlead, by rw [if_pos (by simp [hends]), hlead]⟩
    · exact .inr (.inr ⟨hempty, by rw [if_neg (by simp [hempty, hends])]⟩)

theorem pieces_join_folder (h : isAbsolute n = false) (folder : String) :
    ∃ lead, named lead = names folder ∧ pieces (join folder n) = lead ++ pieces n := by
  rcases join_cases h folder with ⟨rfl, hj⟩ | ⟨lead, rfl, hj⟩ | ⟨-, hj⟩
  · exact ⟨[], rfl, by rw [hj]; rfl⟩
  · refine ⟨pieces lead, ?_, by rw [hj, pieces_append_slash]⟩
    have := pieces_append_slash lead ""
    rw [String.append_empty] at this
    rw [names, this, named_append]
    exact (List.append_nil _).symm
  · exact ⟨pieces folder, rfl, by rw [hj, pieces_append_slash]⟩

theorem names_join (h : isAbsolute n = false) (folder : String) : names (join folder n) = names folder ++ names n := by
  obtain ⟨lead, hlead, hp⟩ := pieces_join_folder h folder
  rw [names, hp, named_append, hlead]
  rfl

theorem join_begins (h : isAbsolute n = false) (folder : String) : folder.toList <+: (join folder n).toList := by
  rcases join_cases h folder with ⟨rfl, -⟩ | ⟨lead, rfl, hj⟩ | ⟨-, hj⟩
  · exact List.nil_prefix
  · rw [hj]
    exact ⟨n.toList, by simp⟩
  · rw [hj]
    exact ⟨("/" ++ n).toList, by simp⟩

theorem isAbsolute_join (h : isAbsolute n = false) (folder : String) : isAbsolute (join folder n) = isAbsolute folder := by
  by_cases hempty : folder = ""
  · subst hempty
    have hj : join "" n = n := by simp [join]
    rw [hj, h]
    rfl
  · exact (isAbsolute_eq_of_begins (join_begins h folder) hempty).symm

/-- A path that ends in `.json` has that end in its last piece. -/
theorem pieces_append_json (s : String) : ∃ qs n, pieces (s ++ ".json") = qs ++ [n ++ ".json"] := by
  obtain ⟨before, last, -, hs⟩ := Text.splitAt_append_of_not_mem (show '/' ∉ ".json".toList by decide) s.toList
  refine ⟨before.map String.ofList, String.ofList last, ?_⟩
  rw [pieces, String.toList_append, hs, List.map_append]
  simp

/-! ## File names -/

/-- The file name of a path is its last piece, if that is a name. -/
theorem fileName?_of_last (hp : pieces path = ps ++ [n]) (hn : isIdle false n = false) (hdots : n ≠ "..") :
    fileName? path = some n := by
  have hnamed := named_trimIdle (ps ++ [n])
  have hlast : named (ps ++ [n]) = named ps ++ [n] := by
    rw [named_append, named_cons_of_not_idle hn]
    rfl
  rcases trimIdle_cases (ps ++ [n]) with ⟨hnone, -⟩ | ⟨qs, m, tail, -, hm, -, htrim⟩
  · rw [hlast] at hnone
    simp at hnone
  · rw [hlast, htrim, named_append, named_cons_of_not_idle hm] at hnamed
    obtain ⟨-, hmn⟩ := List.append_inj' hnamed rfl
    obtain rfl : m = n := List.singleton_inj.1 hmn
    have hdot : m ≠ "." := by
      rintro rfl
      cases hm
    rw [fileName?, hp, htrim, List.getLast?_concat]
    simp [hdot, hdots]

/-- A name with an ending is cut into the name and the ending. -/
theorem splitName_json (h : n ≠ "") : splitName (n ++ ".json") = (n, some "json") := by
  have hafter : Text.afterLast '.' (n ++ ".json").toList = "json".toList := by
    simp [Text.afterLast]
  have hbefore : (n ++ ".json").toList.take ((n ++ ".json").toList.length - "json".toList.length - 1) = n.toList := by
    simp
  have hne : n.toList.isEmpty = false := by simpa using h
  unfold splitName
  simp only [hafter, hbefore, hne]
  simp

/-- A name that has an ending has something before it. -/
theorem eq_of_splitName {ending : String} (h : (splitName n).2 = some ending) :
    (splitName n).1 ≠ "" ∧ n = (splitName n).1 ++ "." ++ ending := by
  have hsplit : n.toList = (n.toList.reverse.dropWhile (· != '.')).reverse ++ Text.afterLast '.' n.toList := by
    rw [Text.afterLast, ← List.reverse_append, List.takeWhile_append_dropWhile, List.reverse_reverse]
  unfold splitName at h ⊢
  simp only at h ⊢
  generalize Text.afterLast '.' n.toList = after at hsplit h ⊢
  cases hd : n.toList.reverse.dropWhile (· != '.') with
  | nil =>
    rw [hd] at hsplit
    simp [hsplit] at h
  | cons c before =>
    have hc : c = '.' := by
      have := List.head?_dropWhile_not (· != '.') n.toList.reverse
      simpa [hd] using this
    rw [hd, hc, List.reverse_cons, List.append_assoc, List.singleton_append] at hsplit
    have hlen : n.toList.length - after.length - 1 = before.reverse.length := by
      rw [hsplit, List.length_append, List.length_cons]
      omega
    have htake : n.toList.take (n.toList.length - after.length - 1) = before.reverse := by
      rw [hlen, hsplit, List.take_left]
    rw [htake] at h ⊢
    split at h
    · cases h
    case isFalse hne =>
      rw [if_neg hne]
      obtain rfl := Option.some.inj h
      refine ⟨by simpa using hne, ?_⟩
      rw [← String.toList_inj, hsplit]
      simp

end ApiDocs.Path
