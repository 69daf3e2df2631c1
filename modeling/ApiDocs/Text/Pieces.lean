/-!
# Pieces of text

Cutting a text at a character, replacing one text by another, and the length of a text in bytes.
-/
namespace ApiDocs.Text

/-- What follows the last `c`, or all of the text without one. -/
def afterLast (c : Char) (cs : List Char) : List Char :=
  (cs.reverse.takeWhile (· != c)).reverse

/-- One character more at the front of pieces cut at `c`. -/
def cutPiece (c d : Char) (pieces : List (List Char)) : List (List Char) :=
  if d = c then [] :: pieces
  else match pieces with
    | [] => [[d]]
    | piece :: rest => (d :: piece) :: rest

/-- The pieces between the occurrences of `c`, never empty. -/
def splitAt (c : Char) (cs : List Char) : List (List Char) :=
  cs.foldr (cutPiece c) [[]]

theorem splitAt_cons_self (c : Char) (cs : List Char) : splitAt c (c :: cs) = [] :: splitAt c cs := by
  simp [splitAt, cutPiece]

theorem exists_splitAt (c : Char) (cs : List Char) : ∃ piece rest, splitAt c cs = piece :: rest := by
  cases cs with
  | nil => exact ⟨[], [], rfl⟩
  | cons d cs =>
    by_cases h : d = c
    · exact ⟨[], splitAt c cs, h ▸ splitAt_cons_self d cs⟩
    · cases hs : splitAt c cs with
      | nil => exact ⟨[d], [], by simp [splitAt, cutPiece, h] at hs ⊢; rw [hs]⟩
      | cons piece rest => exact ⟨d :: piece, rest, by simp [splitAt, cutPiece, h] at hs ⊢; rw [hs]⟩

theorem splitAt_cons_of_ne {c d : Char} {cs piece : List Char} {rest : List (List Char)} (h : d ≠ c)
    (hs : splitAt c cs = piece :: rest) : splitAt c (d :: cs) = (d :: piece) :: rest := by
  simp only [splitAt, List.foldr_cons] at hs ⊢
  simp [hs, cutPiece, h]

theorem splitAt_of_not_mem {c : Char} {cs : List Char} (h : c ∉ cs) : splitAt c cs = [cs] := by
  induction cs with
  | nil => rfl
  | cons d cs ih =>
    rw [List.mem_cons, not_or] at h
    exact splitAt_cons_of_ne (Ne.symm h.1) (ih h.2)

theorem splitAt_append (c : Char) (cs ds : List Char) :
    splitAt c (cs ++ c :: ds) = splitAt c cs ++ splitAt c ds := by
  induction cs with
  | nil => exact splitAt_cons_self c ds
  | cons e cs ih =>
    rw [List.cons_append]
    by_cases h : e = c
    · rw [h, splitAt_cons_self, splitAt_cons_self, ih, List.cons_append]
    · obtain ⟨piece, rest, hs⟩ := exists_splitAt c cs
      rw [hs, List.cons_append] at ih
      rw [splitAt_cons_of_ne h ih, splitAt_cons_of_ne h hs, List.cons_append]

/-- The text grows in its last piece as long as `c` does not occur. -/
theorem splitAt_append_of_not_mem {c : Char} {ds : List Char} (h : c ∉ ds) (cs : List Char) :
    ∃ before last, splitAt c cs = before ++ [last] ∧ splitAt c (cs ++ ds) = before ++ [last ++ ds] := by
  induction cs with
  | nil => exact ⟨[], [], rfl, splitAt_of_not_mem h⟩
  | cons e cs ih =>
    obtain ⟨before, last, hcs, hds⟩ := ih
    rw [List.cons_append]
    by_cases he : e = c
    · rw [he, splitAt_cons_self, splitAt_cons_self, hcs, hds]
      exact ⟨[] :: before, last, rfl, rfl⟩
    · cases before with
      | nil => exact ⟨[], e :: last, splitAt_cons_of_ne he hcs, splitAt_cons_of_ne he hds⟩
      | cons piece before =>
        exact ⟨(e :: piece) :: before, last, splitAt_cons_of_ne he hcs, splitAt_cons_of_ne he hds⟩

theorem not_mem_of_mem_splitAt {c : Char} {cs piece : List Char} (h : piece ∈ splitAt c cs) : c ∉ piece := by
  induction cs generalizing piece with
  | nil =>
    rw [List.mem_singleton.1 h]
    simp
  | cons d cs ih =>
    by_cases hd : d = c
    · rw [hd, splitAt_cons_self] at h
      rcases List.mem_cons.1 h with rfl | h
      · simp
      · exact ih h
    · obtain ⟨first, rest, hs⟩ := exists_splitAt c cs
      rw [splitAt_cons_of_ne hd hs] at h
      rcases List.mem_cons.1 h with rfl | h
      · simp [Ne.symm hd, ih (hs ▸ List.mem_cons_self)]
      · exact ih (hs ▸ List.mem_cons_of_mem _ h)

/-- No more pieces have something in them than there are characters. -/
theorem countP_splitAt_le (c : Char) (cs : List Char) :
    (splitAt c cs).countP (fun piece => !piece.isEmpty) ≤ cs.length := by
  induction cs with
  | nil => simp [splitAt]
  | cons d cs ih =>
    by_cases hd : d = c
    · rw [hd, splitAt_cons_self, List.countP_cons_of_neg (by simp), List.length_cons]
      omega
    · obtain ⟨first, rest, hs⟩ := exists_splitAt c cs
      rw [hs] at ih
      rw [splitAt_cons_of_ne hd hs, List.countP_cons_of_pos (by simp), List.length_cons]
      have hrest : rest.countP (fun piece => !piece.isEmpty) ≤ (first :: rest).countP (fun piece => !piece.isEmpty) :=
        (List.sublist_cons_self first rest).countP_le
      omega

/-- The lines of a text: cut after each line feed, without it and without a carriage return just
before it. -/
def lines (s : String) : List String :=
  let pieces := splitAt '\n' s.toList
  let chop (cs : List Char) : List Char :=
    if cs.getLast? = some '\r' then cs.dropLast else cs
  let whole := pieces.dropLast.map chop
  let last := pieces.getLast?.getD []
  (if last.isEmpty then whole else whole ++ [last]).map String.ofList

/-- What follows `lead`, if the text starts with it. -/
def stripLead? : List Char → List Char → Option (List Char)
  | [], cs => some cs
  | _ :: _, [] => none
  | l :: ls, c :: cs => if l = c then stripLead? ls cs else none

theorem stripLead?_eq_some_iff {lead cs rest : List Char} :
    stripLead? lead cs = some rest ↔ cs = lead ++ rest := by
  induction lead generalizing cs with
  | nil => simp [stripLead?, eq_comm]
  | cons l lead ih =>
    cases cs with
    | nil => simp [stripLead?]
    | cons c cs =>
      by_cases hl : l = c
      · subst hl
        simp [stripLead?, ih]
      · simp [stripLead?, hl, Ne.symm hl]

/-- Cuts at the first occurrence of `sep`, where `before`, reversed, has been passed over. -/
def cutAfter? (sep before : List Char) : List Char → Option (List Char × List Char)
  | [] => (stripLead? sep []).map fun r => (before.reverse, r)
  | c :: cs =>
    match stripLead? sep (c :: cs) with
    | some r => some (before.reverse, r)
    | none => cutAfter? sep (c :: before) cs

/-- Cuts at the first occurrence of `sep`: what stands before and after it. -/
def cutAt? (sep cs : List Char) : Option (List Char × List Char) :=
  cutAfter? sep [] cs

/-- Replaces every occurrence of `old`, from the left. `done`, reversed, is the text so far and
`skip` counts the characters of the last occurrence that are still to be passed over. -/
def replaceFrom (old new : List Char) : List Char → Nat → List Char → List Char
  | done, _, [] => done.reverse
  | done, skip + 1, _ :: cs => replaceFrom old new done skip cs
  | done, 0, c :: cs =>
    match stripLead? old (c :: cs) with
    | some _ => replaceFrom old new (new.reverse ++ done) (old.length - 1) cs
    | none => replaceFrom old new (c :: done) 0 cs

/-- Replaces every occurrence of `old`, from the left. The empty text occurs around each
character. -/
def replace (old new s : String) : String :=
  if old.isEmpty then String.ofList (new.toList ++ s.toList.flatMap fun c => c :: new.toList)
  else String.ofList (replaceFrom old.toList new.toList [] 0 s.toList)

/-- Whether `part` occurs in `s`. -/
def contains (s part : String) : Bool :=
  (cutAt? part.toList s.toList).isSome

def startsWith (s lead : String) : Bool :=
  lead.toList.isPrefixOf s.toList

def endsWith (s tail : String) : Bool :=
  tail.toList.isSuffixOf s.toList

/-- The text before `tail`, if the text ends with it. -/
def stripTail? (tail s : String) : Option String :=
  (stripLead? tail.toList.reverse s.toList.reverse).map fun r => String.ofList r.reverse

theorem stripTail?_eq_some_iff {tail s rest : String} :
    stripTail? tail s = some rest ↔ s.toList = rest.toList ++ tail.toList := by
  simp only [stripTail?, Option.map_eq_some_iff, stripLead?_eq_some_iff]
  constructor
  · rintro ⟨r, hr, rfl⟩
    rw [← List.reverse_reverse s.toList, hr]
    simp
  · intro h
    exact ⟨rest.toList.reverse, by simp [h], by simp⟩

theorem isSome_stripTail? (tail s : String) : (stripTail? tail s).isSome = endsWith s tail := by
  rw [Bool.eq_iff_iff, Option.isSome_iff_exists, endsWith, List.isSuffixOf_iff_suffix]
  simp only [stripTail?_eq_some_iff]
  constructor
  · rintro ⟨rest, hr⟩
    exact ⟨rest.toList, hr.symm⟩
  · rintro ⟨rest, hr⟩
    exact ⟨String.ofList rest, by simp [hr]⟩

/-- How many bytes the text takes in UTF-8. -/
def byteLength (cs : List Char) : Nat :=
  cs.foldr (fun c n => c.utf8Size + n) 0

theorem byteLength_append (cs ds : List Char) :
    byteLength (cs ++ ds) = byteLength cs + byteLength ds := by
  induction cs with
  | nil => simp [byteLength]
  | cons c cs ih =>
    have hcons : ∀ l, byteLength (c :: l) = c.utf8Size + byteLength l := fun _ => rfl
    rw [List.cons_append, hcons, hcons, ih, Nat.add_assoc]

/-- The texts one after the other with `sep` between them. -/
def join (sep : String) : List String → String
  | [] => ""
  | [s] => s
  | s :: t :: r => s ++ sep ++ join sep (t :: r)

end ApiDocs.Text
