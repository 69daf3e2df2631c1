import ApiDocs.Proofs.Disk.Write
/-!
# Documents one after the other

Documents that are written in a row leave the same texts on two disks wherever one of them is written or
the disks agreed before (`WritesAll.text?_congr`), and a disk that has room for all of them takes them
again (`WritesAll.again`). What is read at a path depends on the text that stands at its place.
-/
namespace ApiDocs.Disk

/-- The text of the file at a place. -/
def text? (d : Disk) (q : Place) : Option String :=
  match d.at? q with
  | some (.file text) => some text
  | _ => none

/-- A path that ends in `.json`. -/
def IsDocument (path : String) : Prop :=
  ∃ ps n, Path.pieces path = ps ++ [n ++ ".json"]

/-- Writes documents in a row, each of which goes well. -/
inductive WritesAll : List (String × Json) → Disk → Disk → Prop
  | nil {d : Disk} : WritesAll [] d d
  | cons {path : String} {v : Json} {rest : List (String × Json)} {d d₁ d' : Disk} :
      d.writeDocument path v = (.ok (), d₁) → WritesAll rest d₁ d' → WritesAll ((path, v) :: rest) d d'

variable {d d' d₁ S S' T : Disk} {here home place q : Place} {n path text : String} {ps : List String} {v : Json}
  {docs docs' : List (String × Json)}

theorem text?_eq_some_iff : d.text? q = some text ↔ d.at? q = some (.file text) := by
  unfold text?
  split
  case h_1 t ht => simp [ht]
  case h_2 hne =>
    constructor
    · intro h
      cases h
    · intro h
      exact absurd h (hne text)

/-! ## Documents -/

theorem proper_json (n : String) : Proper (n ++ ".json") := by
  have hlen : 5 ≤ (n ++ ".json").length := by
    rw [String.length_append]
    exact Nat.le_add_left 5 n.length
  refine ⟨?_, ?_⟩
  · rw [← Bool.not_eq_true, idle_iff]
    rintro (h | h) <;> rw [h] at hlen <;> exact absurd hlen (by decide)
  · intro h
    rw [h] at hlen
    exact absurd hlen (by decide)

theorem isDocument_json (s : String) : IsDocument (s ++ ".json") :=
  Path.pieces_append_json s

theorem IsDocument.join (h : IsDocument path) (folder : String) : IsDocument (Path.join folder path) := by
  obtain ⟨ps, n, hp⟩ := h
  by_cases habs : Path.isAbsolute path = true
  · exact ⟨ps, n, by rw [Path.join_of_isAbsolute habs, hp]⟩
  · obtain ⟨lead, -, hlead⟩ := Path.pieces_join_folder (by simpa using habs) folder
    exact ⟨lead ++ ps, n, by rw [hlead, hp, List.append_assoc]⟩

theorem IsDocument.placeAt (h : IsDocument path) (home : Place) :
    ∃ place n, Disk.placeAt home path = place ++ [n ++ ".json"] := by
  obtain ⟨ps, n, hp⟩ := h
  exact ⟨goal (start home path) ps, n, placeAt_of_last hp (proper_json n) home⟩

theorem written_of_isDocument (hd : IsDocument path) (h : d.writeDocument path v = (.ok (), d')) :
    Written path (v.pretty ++ "\n") d d' := by
  obtain ⟨ps, n, hp⟩ := hd
  exact written_writeDocument hp (proper_json n) h

theorem Written.text? (h : Written path text d d') (q : Place) :
    d'.text? q = if q = placeAt d.home path then some text else d.text? q := by
  by_cases hq : q = placeAt d.home path
  · rw [if_pos hq, text?_eq_some_iff, hq, h.file]
  · rw [if_neg hq]
    rcases h.others q hq with he | ⟨hnone, hnew, -⟩
    · rw [Disk.text?, he]
      rfl
    · simp [Disk.text?, hnone, hnew]

theorem Written.text?_place (h : Written path text d d') : d'.text? (Disk.placeAt d.home path) = some text := by
  rw [h.text?, if_pos rfl]

theorem text?_empty (q : Place) : Disk.empty.text? q = none := by
  by_cases hq : q = [] <;> simp [Disk.text?, Disk.at?, Disk.lookUp, Disk.empty, Pairs.get?, hq]

/-! ## In a row -/

theorem WritesAll.append (h : WritesAll docs d d₁) (h' : WritesAll docs' d₁ d') : WritesAll (docs ++ docs') d d' := by
  induction h with
  | nil => exact h'
  | cons hw _ ih => exact .cons hw (ih h')

variable (hd : ∀ p ∈ docs, IsDocument p.1)

include hd in
theorem WritesAll.within (h : WritesAll docs d d') : Within d d' := by
  induction h with
  | nil => exact .refl _
  | cons hw _ ih =>
    rw [List.forall_mem_cons] at hd
    exact (written_of_isDocument hd.1 hw).within.trans (ih hd.2)

include hd in
theorem WritesAll.keeps (h : WritesAll docs d d') : ∀ p ∈ docs, Keeps d' p.1 := by
  induction h with
  | nil => simp
  | cons hw hrest ih =>
    rw [List.forall_mem_cons] at hd ⊢
    exact ⟨(written_of_isDocument hd.1 hw).keeps.mono (hrest.within hd.2), ih hd.2⟩

include hd in
/-- Nothing new stands at a locked place. -/
theorem WritesAll.open (h : WritesAll docs d d') : Open d d' := by
  induction h with
  | nil => exact fun q hq hne => absurd hq hne
  | @cons path v rest d d₁ d' hw hrest ih =>
    rw [List.forall_mem_cons] at hd
    have hwritten := written_of_isDocument hd.1 hw
    have hlocked : d'.locked = d.locked := (hrest.within hd.2).locked.symm.trans hwritten.locked
    intro q hq hne
    cases hq₁ : d₁.at? q with
    | none => exact ih hd.2 q hq₁ hne
    | some e =>
      rw [hlocked]
      by_cases hg : q = placeAt d.home path
      · rw [hg]
        exact hwritten.unlocked
      · rcases hwritten.others q hg with he | ⟨-, -, hl, -⟩
        · rw [he, hq] at hq₁
          cases hq₁
        · exact hl

include hd in
/-- New entries stand at the places of the documents and on the way to them. -/
theorem WritesAll.new (h : WritesAll docs d d') (hq : d.at? q = none) (hne : d'.at? q ≠ none) :
    ∃ p ∈ docs, q = placeAt d.home p.1 ∨
      OnWay (start d.home p.1) (Path.names p.1).dropLast q := by
  induction h with
  | nil => exact absurd hq hne
  | @cons path v rest d d₁ d' hw hrest ih =>
    rw [List.forall_mem_cons] at hd
    have hwritten := written_of_isDocument hd.1 hw
    by_cases hg : q = placeAt d.home path
    · exact ⟨(path, v), List.mem_cons_self, .inl hg⟩
    · rcases hwritten.others q hg with he | ⟨-, -, -, hway⟩
      · obtain ⟨p, hp, hor⟩ := ih hd.2 (he.trans hq) hne
        rw [hwritten.home] at hor
        exact ⟨p, List.mem_cons_of_mem _ hp, hor⟩
      · exact ⟨(path, v), List.mem_cons_self, .inr hway⟩

include hd in
theorem WritesAll.text?_congr {e e' : Disk} (h : WritesAll docs d d') (h' : WritesAll docs e e') (hh : d.home = e.home)
    (hq : (∃ p ∈ docs, q = placeAt d.home p.1) ∨ d.text? q = e.text? q) :
    d'.text? q = e'.text? q := by
  induction h generalizing e with
  | nil =>
    cases h' with
    | nil => simpa using hq
  | @cons path v rest d d₁ d' hw hrest ih =>
    cases h' with
    | cons hw' hrest' =>
      rw [List.forall_mem_cons] at hd
      have hwritten := written_of_isDocument hd.1 hw
      have hwritten' := written_of_isDocument hd.1 hw'
      refine ih hd.2 hrest' (by rw [hwritten.home, hwritten'.home, hh]) ?_
      -- Once a place is written, it agrees until another document is written there, on both disks.
      rw [hwritten.text?, hwritten'.text?, hwritten.home, ← hh]
      by_cases hg : q = placeAt d.home path
      · exact .inr (by rw [if_pos hg, if_pos hg])
      · rw [if_neg hg, if_neg hg]
        refine hq.imp_left fun ⟨p, hp, hpq⟩ => ?_
        rcases List.mem_cons.1 hp with rfl | hp
        · exact absurd hpq hg
        · exact ⟨p, hp, hpq⟩

include hd in
theorem WritesAll.text?_of_ne (h : WritesAll docs d d') (hq : ∀ p ∈ docs, q ≠ placeAt d.home p.1) :
    d'.text? q = d.text? q := by
  induction h with
  | nil => rfl
  | @cons path v rest d d₁ d' hw hrest ih =>
    rw [List.forall_mem_cons] at hd hq
    have hwritten := written_of_isDocument hd.1 hw
    rw [ih hd.2 (by rw [hwritten.home]; exact hq.2), hwritten.text?, if_neg hq.1]

include hd in
/-- Documents at places of their own are all there in the end. -/
theorem WritesAll.text?_of_mem (hn : (docs.map fun p => placeAt d.home p.1).Nodup) (h : WritesAll docs d d') :
    ∀ p ∈ docs, d'.text? (placeAt d.home p.1) = some (p.2.pretty ++ "\n") := by
  induction h with
  | nil => simp
  | @cons path v rest d d₁ d' hw hrest ih =>
    rw [List.forall_mem_cons] at hd ⊢
    rw [List.map_cons, List.nodup_cons] at hn
    have hwritten := written_of_isDocument hd.1 hw
    refine ⟨?_, ?_⟩
    · have hothers : ∀ p ∈ rest, placeAt d.home path ≠ placeAt d₁.home p.1 := by
        intro p hp he
        rw [hwritten.home] at he
        exact hn.1 (he ▸ List.mem_map_of_mem hp)
      rw [hrest.text?_of_ne hd.2 hothers, hwritten.text?, if_pos rfl]
    · rw [← hwritten.home]
      exact ih hd.2 (by rw [hwritten.home]; exact hn.2)

/-- Where two rows of documents go to the same paths, each place holds the same one of either row, or is left alone. -/
theorem WritesAll.text?_rows {e e' : Disk} {rows : List (String × Json × Json)} (hd : ∀ r ∈ rows, IsDocument r.1)
    (h : WritesAll (rows.map fun r => (r.1, r.2.1)) d d') (h' : WritesAll (rows.map fun r => (r.1, r.2.2)) e e')
    (hh : d.home = e.home) (q : Place) :
    (∃ r ∈ rows, q = placeAt d.home r.1 ∧ d'.text? q = some (r.2.1.pretty ++ "\n") ∧
      e'.text? q = some (r.2.2.pretty ++ "\n")) ∨ d'.text? q = d.text? q ∧ e'.text? q = e.text? q := by
  induction rows generalizing d e with
  | nil =>
    cases h
    cases h'
    exact .inr ⟨rfl, rfl⟩
  | cons r rows ih =>
    rw [List.forall_mem_cons] at hd
    obtain _ | ⟨hw, hrest⟩ := h
    obtain _ | ⟨hw', hrest'⟩ := h'
    have hwritten := written_of_isDocument hd.1 hw
    have hwritten' := written_of_isDocument hd.1 hw'
    -- What a later row writes to the place counts; else this row does.
    rcases ih hd.2 hrest hrest' (by rw [hwritten.home, hwritten'.home, hh]) with ⟨r', hr', hq, ht, ht'⟩ | ⟨ht, ht'⟩
    · exact .inl ⟨r', List.mem_cons_of_mem _ hr', hwritten.home ▸ hq, ht, ht'⟩
    · rw [ht, ht', hwritten.text?, hwritten'.text?, ← hh]
      by_cases hq : q = placeAt d.home r.1
      · exact .inl ⟨r, List.mem_cons_self, hq, if_pos hq, if_pos hq⟩
      · exact .inr ⟨if_neg hq, if_neg hq⟩

include hd in
theorem WritesAll.again (h : Within S T) (ho : Open S T) (hk : ∀ p ∈ docs, Keeps T p.1)
    (hs : ∀ p ∈ docs, S.at? (start S.home p.1) = some .folder) :
    ∃ S', WritesAll docs S S' ∧ Within S' T ∧ Open S' T := by
  induction docs generalizing S with
  | nil => exact ⟨S, .nil, h, ho⟩
  | cons p rest ih =>
    obtain ⟨path, v⟩ := p
    rw [List.forall_mem_cons] at hd hk hs
    obtain ⟨ps, n, hp⟩ := hd.1
    obtain ⟨S₁, hw⟩ := writeDocument_again hp (proper_json n) h ho hk.1 hs.1 v
    have hwritten := written_of_isDocument hd.1 hw
    obtain ⟨S', hrest, hS', ho'⟩ := ih hd.2 (h.of_written hwritten hk.1) (ho.of_written hwritten) hk.2 fun p hp => by
      rw [hwritten.home]
      exact hwritten.within.folder _ (hs.2 p hp)
    exact ⟨S', .cons hw hrest, hS', ho'⟩

end ApiDocs.Disk
