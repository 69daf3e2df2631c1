import ApiDocs.Proofs.Json.Tokens
import ApiDocs.Proofs.Keyed
/-!
# Values of JSON

The laid-out text of a value is read back as that value, if its numbers are ones that can be read,
no object has a name twice, and no more containers stand inside each other than the reader takes.
Every value that was read is like that.
-/
namespace ApiDocs

namespace Json

/-! ## Blanks -/

theorem dropSpace_newLine (level : Nat) (cs : List Char) : dropSpace (newLine level ++ cs) = dropSpace cs := by
  have hsp : ∀ n, dropSpace (List.replicate n ' ' ++ cs) = dropSpace cs := by
    intro n
    induction n with
    | zero => rfl
    | succ n ih => exact ih
  exact hsp _

theorem dropSpace_cons {c : Char} (h : isSpace c = false) (cs : List Char) : dropSpace (c :: cs) = c :: cs := by
  simp [dropSpace, h]

/-- Blanks before a value do not count. -/
theorem readValue_congr {cs cs' : List Char} (h : dropSpace cs = dropSpace cs') (fuel depth : Nat) :
    readValue fuel depth cs = readValue fuel depth cs' := by
  cases fuel with
  | zero => simp only [readValue]
  | succ fuel => simp only [readValue, h]

theorem readValue_blank (fuel depth : Nat) (cs : List Char) :
    readValue fuel depth (' ' :: cs) = readValue fuel depth cs := by
  have h : dropSpace (' ' :: cs) = dropSpace cs := rfl
  exact readValue_congr h fuel depth

theorem readItems_newLine (fuel depth level : Nat) (before : List Node) (cs : List Char) :
    readItems fuel depth before (newLine level ++ cs) = readItems fuel depth before cs := by
  cases fuel with
  | zero => simp only [readItems]
  | succ fuel => simp only [readItems, readValue_congr (dropSpace_newLine level cs)]

theorem readMembers_newLine (fuel depth level : Nat) (before : List (Option String × Node)) (cs : List Char) :
    readMembers fuel depth before (newLine level ++ cs) = readMembers fuel depth before cs := by
  cases fuel with
  | zero => simp only [readMembers]
  | succ fuel => simp only [readMembers, dropSpace_newLine]

/-! ## Values -/

/-- Whether a value is one that a text can spell: whole numbers of 64 bits, decimals that are kept,
and distinct names in every object. -/
inductive Canonical : Json → Prop
  | null : Canonical .null
  | bool (b : Bool) : Canonical (.bool b)
  | int {i : Int} (h : Fits i) : Canonical (.int i)
  | float {x : Decimal} (h : x.IsKept) : Canonical (.float x)
  | str (s : String) : Canonical (.str s)
  | list {items : List Json} (h : ∀ v ∈ items, Canonical v) : Canonical (.list items)
  | obj {members : List (String × Json)} (hn : (Pairs.keys members).Nodup)
      (h : ∀ m ∈ members, Canonical m.2) : Canonical (.obj members)

mutual

/-- How many containers stand inside each other. -/
def height : Json → Nat
  | .list items => heightItems items + 1
  | .obj members => heightMembers members + 1
  | _ => 0

def heightItems : List Json → Nat
  | [] => 0
  | v :: rest => max (height v) (heightItems rest)

def heightMembers : List (String × Json) → Nat
  | [] => 0
  | (_, v) :: rest => max (height v) (heightMembers rest)

end

theorem heightItems_le_iff {items : List Json} {n : Nat} :
    heightItems items ≤ n ↔ ∀ v ∈ items, v.height ≤ n := by
  induction items with
  | nil => simp [heightItems]
  | cons v rest ih => simp [heightItems, ih]

theorem heightMembers_le_iff {members : List (String × Json)} {n : Nat} :
    heightMembers members ≤ n ↔ ∀ m ∈ members, m.2.height ≤ n := by
  induction members with
  | nil => simp [heightMembers]
  | cons m rest ih => simp [heightMembers, ih]

mutual

/-- The node that the text of a value inside `depth` containers is read as. -/
def nodeAt (depth : Nat) : Json → Node
  | .list items => container (depth + 1) (.list (nodesAt (depth + 1) items))
  | .obj members => container (depth + 1) (.obj (membersAt (depth + 1) members))
  | .null => .null
  | .bool b => .bool b
  | .int i => .int i
  | .float x => .float x
  | .str s => .str s

def nodesAt (depth : Nat) : List Json → List Node
  | [] => []
  | v :: rest => nodeAt depth v :: nodesAt depth rest

def membersAt (depth : Nat) : List (String × Json) → List (String × Node)
  | [] => []
  | (k, v) :: rest => (k, nodeAt depth v) :: membersAt depth rest

end

/-! ## One step of the reader -/

section

variable {fuel depth level : Nat} {cs tail rest : List Char} {c : Char} {n : Node}

theorem readValue_signed {negative : Bool} (hc : c.isDigit = true) :
    readValue (fuel + 1) depth (signed negative (c :: cs)) = readNumber negative (c :: cs) := by
  have hne : ∀ d : Char, d.isDigit = false → c ≠ d := fun d hd e => by simp [e, hd] at hc
  have hsp : isSpace c = false := by
    simp [isSpace, hne ' ' (by decide), hne '\n' (by decide), hne '\t' (by decide), hne '\r' (by decide)]
  cases negative with
  | true => simp [readValue, signed, dropSpace, isSpace]
  | false =>
    rw [signed, if_neg (by simp), readValue, dropSpace_cons hsp]
    split
    all_goals simp_all

theorem readValue_list (hsp : isSpace c = false) (hc : c ≠ ']') :
    readValue (fuel + 1) depth ('[' :: (newLine level ++ c :: cs)) =
      (readItems fuel (depth + 1) [] (c :: cs)).map fun p => (container (depth + 1) (.list p.1), p.2) := by
  rw [readValue, dropSpace_cons (by decide)]
  simp only [dropSpace_newLine, dropSpace_cons hsp]
  split
  case h_1 h => exact absurd (List.cons.inj h).1 hc
  case h_2 => cases readItems fuel (depth + 1) [] (c :: cs) <;> rfl

theorem readValue_obj (hsp : isSpace c = false) (hc : c ≠ '\x7d') :
    readValue (fuel + 1) depth ('\x7b' :: (newLine level ++ c :: cs)) =
      (readMembers fuel (depth + 1) [] (c :: cs)).map fun p => (container (depth + 1) (objectNode p.1), p.2) := by
  rw [readValue, dropSpace_cons (by decide)]
  simp only [dropSpace_newLine, dropSpace_cons hsp]
  split
  case h_1 h => exact absurd (List.cons.inj h).1 hc
  case h_2 => cases readMembers fuel (depth + 1) [] (c :: cs) <;> rfl

variable (h : readValue fuel depth cs = some (n, tail))

include h

theorem readItems_more {before : List Node} (ht : dropSpace tail = ',' :: rest) :
    readItems (fuel + 1) depth before cs = readItems fuel depth (n :: before) rest := by
  rw [readItems, h]
  simp only [ht]

theorem readItems_last {before : List Node} (ht : dropSpace tail = ']' :: rest) :
    readItems (fuel + 1) depth before cs = some ((n :: before).reverse, rest) := by
  rw [readItems, h]
  simp only [ht]

theorem readMembers_more {before : List (Option String × Node)} (k : String) (ht : dropSpace tail = ',' :: rest) :
    readMembers (fuel + 1) depth before (quote k ++ ':' :: cs) =
      readMembers fuel depth ((some k, n) :: before) rest := by
  rw [readMembers, quote_append, dropSpace_cons (by decide)]
  simp only [readString_quote, dropSpace_cons (show isSpace ':' = false by decide), h, ht]

theorem readMembers_last {before : List (Option String × Node)} (k : String) (ht : dropSpace tail = '\x7d' :: rest) :
    readMembers (fuel + 1) depth before (quote k ++ ':' :: cs) = some (((some k, n) :: before).reverse, rest) := by
  rw [readMembers, quote_append, dropSpace_cons (by decide)]
  simp only [readString_quote, dropSpace_cons (show isSpace ':' = false by decide), h, ht]

end

/-! ## Reading back -/

/-- Whether the laid-out text of a value is read as the node of the value, at every place. -/
def ReadsBack (v : Json) : Prop :=
  ∀ (level depth fuel : Nat) {rest : List Char}, Stops rest → (prettyChars level v).length ≤ fuel →
    readValue fuel depth (prettyChars level v ++ rest) = some (nodeAt depth v, rest)

/-- Behind a value stand a comma or a line feed. -/
theorem stops_prettyItems (level : Nat) (items : List Json) (rest : List Char) :
    Stops (prettyItems level items ++ rest) := by
  cases items <;> simp [prettyItems, newLine, Stops]

theorem stops_prettyMembers (level : Nat) (members : List (String × Json)) (rest : List Char) :
    Stops (prettyMembers level members ++ rest) := by
  cases members <;> simp [prettyMembers, newLine, Stops]

/-- Items are read up to their closing bracket, the first of them at the start of the text. -/
theorem readItems_pretty (level depth : Nat) (rest : List Char) (items : List Json) :
    ∀ (v : Json), (∀ w ∈ v :: items, ReadsBack w) → ∀ (before : List Node) (fuel : Nat),
      (prettyChars (level + 1) v ++ prettyItems level items).length < fuel →
      readItems fuel depth before (prettyChars (level + 1) v ++ (prettyItems level items ++ rest)) =
        some (before.reverse ++ nodeAt depth v :: nodesAt depth items, rest) := by
  induction items with
  | nil =>
    intro v hv before fuel hf
    obtain ⟨fuel, rfl⟩ := Nat.exists_eq_succ_of_ne_zero (Nat.pos_iff_ne_zero.1 (Nat.zero_lt_of_lt hf))
    rw [List.length_append] at hf
    have hread := hv v List.mem_cons_self (level + 1) depth fuel
      (stops_prettyItems level [] rest) (by omega)
    have hclose : dropSpace (prettyItems level [] ++ rest) = ']' :: rest := by
      rw [prettyItems, List.append_assoc, dropSpace_newLine]
      exact dropSpace_cons (by decide) rest
    rw [readItems_last hread hclose]
    simp [nodesAt]
  | cons w items ih =>
    intro v hv before fuel hf
    obtain ⟨fuel, rfl⟩ := Nat.exists_eq_succ_of_ne_zero (Nat.pos_iff_ne_zero.1 (Nat.zero_lt_of_lt hf))
    simp only [prettyItems, List.length_append, List.length_cons] at hf
    have hread := hv v List.mem_cons_self (level + 1) depth fuel
      (stops_prettyItems level (w :: items) rest) (by omega)
    have hmore : dropSpace (prettyItems level (w :: items) ++ rest) =
        ',' :: (newLine (level + 1) ++ (prettyChars (level + 1) w ++ (prettyItems level items ++ rest))) := by
      simp only [prettyItems, List.cons_append, List.append_assoc]
      exact dropSpace_cons (by decide) _
    rw [readItems_more hread hmore, readItems_newLine,
      ih w (fun u hu => hv u (List.mem_cons_of_mem _ hu)) _ _ (by rw [List.length_append]; omega)]
    simp [nodesAt]

/-- The same for members. -/
theorem readMembers_pretty (level depth : Nat) (rest : List Char) (members : List (String × Json)) :
    ∀ (k : String) (v : Json), (∀ m ∈ (k, v) :: members, ReadsBack m.2) →
      ∀ (before : List (Option String × Node)) (fuel : Nat),
      (prettyChars (level + 1) v ++ prettyMembers level members).length < fuel →
      readMembers fuel depth before
          (quote k ++ ':' :: ' ' :: (prettyChars (level + 1) v ++ (prettyMembers level members ++ rest))) =
        some (before.reverse ++ (some k, nodeAt depth v) ::
          (membersAt depth members).map (fun m => (some m.1, m.2)), rest) := by
  induction members with
  | nil =>
    intro k v hv before fuel hf
    obtain ⟨fuel, rfl⟩ := Nat.exists_eq_succ_of_ne_zero (Nat.pos_iff_ne_zero.1 (Nat.zero_lt_of_lt hf))
    rw [List.length_append] at hf
    have hread := hv (k, v) List.mem_cons_self (level + 1) depth fuel
      (stops_prettyMembers level [] rest) (by simp only; omega)
    rw [← readValue_blank] at hread
    have hclose : dropSpace (prettyMembers level [] ++ rest) = '\x7d' :: rest := by
      rw [prettyMembers, List.append_assoc, dropSpace_newLine]
      exact dropSpace_cons (by decide) rest
    rw [readMembers_last hread k hclose]
    simp [membersAt]
  | cons m members ih =>
    obtain ⟨k', w⟩ := m
    intro k v hv before fuel hf
    obtain ⟨fuel, rfl⟩ := Nat.exists_eq_succ_of_ne_zero (Nat.pos_iff_ne_zero.1 (Nat.zero_lt_of_lt hf))
    simp only [prettyMembers, List.length_append, List.length_cons] at hf
    have hread := hv (k, v) List.mem_cons_self (level + 1) depth fuel
      (stops_prettyMembers level ((k', w) :: members) rest) (by simp only; omega)
    rw [← readValue_blank] at hread
    have hmore : dropSpace (prettyMembers level ((k', w) :: members) ++ rest) = ',' :: (newLine (level + 1) ++
        (quote k' ++ ':' :: ' ' :: (prettyChars (level + 1) w ++ (prettyMembers level members ++ rest)))) := by
      simp only [prettyMembers, List.cons_append, List.append_assoc]
      exact dropSpace_cons (by decide) _
    rw [readMembers_more hread k hmore, readMembers_newLine, ih k' w (fun u hu => hv u (List.mem_cons_of_mem _ hu)) _ _
      (by rw [List.length_append]; omega)]
    simp [membersAt]

/-- The laid-out text of a value starts with no blank and no closing bracket. -/
theorem head_prettyChars (level : Nat) (v : Json) :
    ∃ c cs, prettyChars level v = c :: cs ∧ isSpace c = false ∧ c ≠ ']' := by
  have hdigit : ∀ (negative : Bool) {c : Char} (cs : List Char), c.isDigit = true →
      ∃ c' cs', signed negative (c :: cs) = c' :: cs' ∧ isSpace c' = false ∧ c' ≠ ']' := by
    intro negative c cs hc
    have hne : ∀ d : Char, d.isDigit = false → c ≠ d := fun d hd e => by simp [e, hd] at hc
    cases negative with
    | true => exact ⟨'-', _, rfl, by decide, by decide⟩
    | false =>
      refine ⟨c, _, rfl, ?_, hne ']' (by decide)⟩
      simp [isSpace, hne ' ' (by decide), hne '\n' (by decide), hne '\t' (by decide), hne '\r' (by decide)]
  cases v with
  | null => exact ⟨'n', _, rfl, by decide, by decide⟩
  | bool b => cases b <;> exact ⟨_, _, rfl, by decide, by decide⟩
  | int i =>
    obtain ⟨c, cs, hcs⟩ := List.exists_cons_of_ne_nil (Nat.toDigits_ne_nil (n := i.natAbs) (b := 10))
    rw [prettyChars, scalarText, toList_toString, hcs]
    · exact hdigit _ _ (isDigit_of_mem_toDigits (n := i.natAbs) (by simp [hcs]))
    all_goals simp
  | float x =>
    obtain ⟨c, cs, hcs, hc⟩ := head_decimalChars x
    rw [prettyChars, scalarText, toList_render, hcs]
    · exact hdigit _ _ hc
    all_goals simp
  | str s => exact ⟨'"', _, by simp only [prettyChars, scalarText]; rfl, by decide, by decide⟩
  | list items => cases items <;> exact ⟨'[', _, rfl, by decide, by decide⟩
  | obj members => cases members <;> exact ⟨'\x7b', _, rfl, by decide, by decide⟩

/-- All names are texts exactly when every member has the form of a named one. -/
theorem mapM_name_eq_some {members : List (Option String × Node)} {named : List (String × Node)} :
    members.mapM (fun m => m.1.map fun k => (k, m.2)) = some named ↔
      members = named.map fun m => (some m.1, m.2) := by
  induction members generalizing named with
  | nil => cases named <;> simp
  | cons m rest ih =>
    obtain ⟨k, n⟩ := m
    cases k with
    | none => cases named <;> simp
    | some k =>
      cases named with
      | nil => simp [Option.bind_eq_some_iff]
      | cons m' named =>
        simp only [List.mapM_cons, Option.map_some, Option.bind_eq_bind, Option.bind_some, Option.bind_eq_some_iff,
          Option.pure_def, Option.some.injEq, List.cons.injEq, List.map_cons, Prod.mk.injEq, ih]
        constructor
        · rintro ⟨_, hrest, rfl, rfl⟩
          exact ⟨⟨rfl, rfl⟩, hrest⟩
        · rintro ⟨⟨rfl, rfl⟩, hrest⟩
          exact ⟨named, hrest, rfl, rfl⟩

theorem objectNode_some (members : List (String × Node)) :
    objectNode (members.map fun m => (some m.1, m.2)) = .obj members := by
  simp only [objectNode, mapM_name_eq_some.2 rfl]

/-- Reading a value takes one call at least. -/
theorem readsBack_of {v : Json} (h : ∀ (level depth fuel : Nat) {rest : List Char}, Stops rest →
    (prettyChars level v).length ≤ fuel + 1 →
    readValue (fuel + 1) depth (prettyChars level v ++ rest) = some (nodeAt depth v, rest)) : ReadsBack v := by
  intro level depth fuel rest hr hf
  obtain ⟨c, cs, hcs, -⟩ := head_prettyChars level v
  have hpos : 0 < fuel := by
    rw [hcs] at hf
    exact Nat.lt_of_lt_of_le (Nat.succ_pos _) hf
  obtain ⟨fuel, rfl⟩ := Nat.exists_eq_succ_of_ne_zero (Nat.pos_iff_ne_zero.1 hpos)
  exact h level depth fuel hr hf

/-- A number is read by what follows its sign, which begins with a digit. -/
theorem readsBack_number {v : Json} (negative : Bool) (c : Char) (cs : List Char) (hc : c.isDigit = true)
    (htext : ∀ level, prettyChars level v = signed negative (c :: cs))
    (hread : ∀ (depth : Nat) {rest : List Char}, Stops rest →
      readNumber negative (c :: cs ++ rest) = some (nodeAt depth v, rest)) : ReadsBack v := by
  refine readsBack_of fun level depth fuel rest hr hf => ?_
  rw [htext, signed_append, List.cons_append, readValue_signed hc, ← List.cons_append, hread depth hr]

theorem readsBack_int {i : Int} (h : Fits i) : ReadsBack (.int i) := by
  obtain ⟨c, cs, hcs⟩ := List.exists_cons_of_ne_nil (Nat.toDigits_ne_nil (n := i.natAbs) (b := 10))
  have hc : c.isDigit = true := isDigit_of_mem_toDigits (n := i.natAbs) (by simp [hcs])
  refine readsBack_number (decide (i < 0)) c cs hc (fun level => ?_) fun depth rest hr => ?_
  · simp only [prettyChars, scalarText, toList_toString, hcs]
  · have hread := readNumber_whole (decide (i < 0)) (leads_toDigits i.natAbs) hr
    rwa [digitsValue_toDigits, numberNode_whole h, hcs] at hread

theorem readsBack_float {x : Decimal} (h : x.IsKept) : ReadsBack (.float x) := by
  obtain ⟨c, cs, hcs, hc⟩ := head_decimalChars x
  refine readsBack_number x.negative c cs hc (fun level => ?_) fun depth rest hr => ?_
  · simp only [prettyChars, scalarText, toList_render, hcs]
  · have hread := readNumber_decimal h hr
    rwa [hcs] at hread

theorem readsBack_list {items : List Json} (h : ∀ v ∈ items, ReadsBack v) : ReadsBack (.list items) := by
  refine readsBack_of fun level depth fuel rest hr hf => ?_
  cases items with
  | nil => simp [readValue, prettyChars, nodeAt, nodesAt, dropSpace, isSpace]
  | cons v items =>
    obtain ⟨c, cs, hcs, hsp, hc⟩ := head_prettyChars (level + 1) v
    have hlen : (prettyChars (level + 1) v ++ prettyItems level items).length < fuel := by
      simp only [prettyChars, newLine, List.length_cons, List.length_append] at hf ⊢
      omega
    have hread := readItems_pretty level (depth + 1) rest items v h [] fuel hlen
    rw [hcs] at hread
    simp only [prettyChars, List.cons_append, List.append_assoc, hcs] at hread ⊢
    rw [readValue_list hsp hc, hread]
    rfl

theorem readsBack_obj {members : List (String × Json)} (h : ∀ m ∈ members, ReadsBack m.2) :
    ReadsBack (.obj members) := by
  refine readsBack_of fun level depth fuel rest hr hf => ?_
  cases members with
  | nil => simp [readValue, prettyChars, nodeAt, membersAt, dropSpace, isSpace]
  | cons m members =>
    obtain ⟨k, v⟩ := m
    have hlen : (prettyChars (level + 1) v ++ prettyMembers level members).length < fuel := by
      simp only [prettyChars, newLine, List.length_cons, List.length_append] at hf ⊢
      omega
    have hread := readMembers_pretty level (depth + 1) rest members k v h [] fuel hlen
    simp only [prettyChars, List.cons_append, List.append_assoc] at hread ⊢
    rw [quote_append] at hread ⊢
    rw [readValue_obj (by decide) (by decide), hread]
    have hnode := objectNode_some (membersAt (depth + 1) ((k, v) :: members))
    simp only [List.reverse_nil, List.nil_append, Option.map_some, nodeAt, ← hnode]
    rfl

/-- The laid-out text of a canonical value is read as its node. -/
theorem Canonical.readsBack {v : Json} (h : v.Canonical) : ReadsBack v := by
  induction h with
  | null =>
    refine readsBack_of fun level depth fuel rest hr hf => ?_
    simp [readValue, prettyChars, scalarText, nodeAt, dropSpace, isSpace]
  | bool b =>
    refine readsBack_of fun level depth fuel rest hr hf => ?_
    cases b <;> simp [readValue, prettyChars, scalarText, nodeAt, dropSpace, isSpace]
  | int h => exact readsBack_int h
  | float h => exact readsBack_float h
  | str s =>
    refine readsBack_of fun level depth fuel rest hr hf => ?_
    simp only [prettyChars, scalarText, quote_append, nodeAt]
    rw [readValue, dropSpace_cons (by decide)]
    simp only [readString_quote]
  | list h ih => exact readsBack_list ih
  | obj hn h ih => exact readsBack_obj ih

/-! ## The value of a text -/

/-- What is left of the depth decides whether a list has a value. -/
theorem jsonItems?_nodesAt {items : List Json} {depth : Nat}
    (h : ∀ v ∈ items, (nodeAt depth v).json? = if v.height ≤ maxDepth - depth then some v else none) :
    Node.jsonItems? (nodesAt depth items) = if heightItems items ≤ maxDepth - depth then some items else none := by
  induction items with
  | nil => simp [nodesAt, Node.jsonItems?, heightItems]
  | cons v items ih =>
    have hv := h v List.mem_cons_self
    have hrest := ih fun w hw => h w (List.mem_cons_of_mem _ hw)
    simp only [nodesAt, Node.jsonItems?, hv, hrest, heightItems, Nat.max_le]
    by_cases h₁ : v.height ≤ maxDepth - depth <;> by_cases h₂ : heightItems items ≤ maxDepth - depth <;>
      simp [h₁, h₂]

theorem jsonMembers?_membersAt {members : List (String × Json)} {depth : Nat}
    (h : ∀ m ∈ members, (nodeAt depth m.2).json? = if m.2.height ≤ maxDepth - depth then some m.2 else none) :
    ∀ taken : List (String × Json), (Pairs.keys (taken ++ members)).Nodup →
      Node.jsonMembers? taken (membersAt depth members) =
        if heightMembers members ≤ maxDepth - depth then some (taken ++ members) else none := by
  induction members with
  | nil => intro taken hn; simp [membersAt, Node.jsonMembers?, heightMembers]
  | cons m members ih =>
    obtain ⟨k, v⟩ := m
    intro taken hn
    have hv := h (k, v) List.mem_cons_self
    have hput : Pairs.put k v taken ++ members = taken ++ (k, v) :: members := Pairs.put_append_of_nodup hn
    have hrest := ih (fun w hw => h w (List.mem_cons_of_mem _ hw)) (Pairs.put k v taken) (hput ▸ hn)
    simp only [membersAt, Node.jsonMembers?, hv, heightMembers, Nat.max_le]
    by_cases h₁ : v.height ≤ maxDepth - depth
    · simp only [h₁, if_true, true_and, hrest, hput]
    · simp [h₁]

theorem json?_container (depth : Nat) (n : Node) :
    (container depth n).json? = if depth ≤ maxDepth then n.json? else none := by
  unfold container
  split <;> simp [Node.json?]

/-- A container takes one of the containers that may stand inside each other. -/
theorem json?_container_of {depth height : Nat} {n : Node} {v : Json}
    (h : n.json? = if height ≤ maxDepth - (depth + 1) then some v else none) :
    (container (depth + 1) n).json? = if height + 1 ≤ maxDepth - depth then some v else none := by
  rw [json?_container, h]
  by_cases hd : depth + 1 ≤ maxDepth
  · have hiff : height ≤ maxDepth - (depth + 1) ↔ height + 1 ≤ maxDepth - depth := by omega
    simp only [hd, if_true, hiff]
  · rw [if_neg hd, if_neg (by omega)]

theorem Canonical.json?_nodeAt {v : Json} (h : v.Canonical) (depth : Nat) :
    (nodeAt depth v).json? = if v.height ≤ maxDepth - depth then some v else none := by
  induction h generalizing depth with
  | null | bool | int | float | str => simp [nodeAt, Node.json?, height]
  | @list items h ih =>
    have hitems := jsonItems?_nodesAt fun v hv => ih v hv (depth + 1)
    rw [nodeAt, height]
    refine json?_container_of ?_
    rw [Node.json?, hitems]
    split <;> rfl
  | @obj members hn h ih =>
    have hmembers := jsonMembers?_membersAt (fun m hm => ih m hm (depth + 1)) [] (by simpa using hn)
    rw [nodeAt, height]
    refine json?_container_of ?_
    rw [Node.json?, hmembers]
    split <;> rfl

theorem stops_nil : Stops [] := by
  simp [Stops]

/-- The laid-out text of a canonical value spells the value, unless too many containers stand inside
each other; then it spells none. -/
theorem Canonical.value?_pretty {v : Json} (h : v.Canonical) :
    value? v.pretty = if v.height ≤ maxDepth then some v else none := by
  have hread := h.readsBack 0 0 ((prettyChars 0 v).length + 1) stops_nil (Nat.le_succ _)
  rw [List.append_nil] at hread
  have hnode : read v.pretty = some (nodeAt 0 v) := by
    simp [read, readChars, pretty, hread, dropSpace]
  simp [value?, hnode, h.json?_nodeAt]

/-! ## What is read -/

/-- The nodes that a value inside `depth` containers can be read as. -/
inductive Spelled : Nat → Node → Prop
  | null {depth : Nat} : Spelled depth .null
  | bool {depth : Nat} (b : Bool) : Spelled depth (.bool b)
  | int {depth : Nat} {i : Int} (h : Fits i) : Spelled depth (.int i)
  | float {depth : Nat} {x : Decimal} (h : x.IsKept) : Spelled depth (.float x)
  | str {depth : Nat} (s : String) : Spelled depth (.str s)
  | unreadable {depth : Nat} : Spelled depth .unreadable
  | list {depth : Nat} {items : List Node} (hd : depth < maxDepth) (h : ∀ n ∈ items, Spelled (depth + 1) n) :
      Spelled depth (.list items)
  | obj {depth : Nat} {members : List (String × Node)} (hd : depth < maxDepth)
      (h : ∀ m ∈ members, Spelled (depth + 1) m.2) : Spelled depth (.obj members)

/-- Whether the value of a node inside `depth` containers, if it has one, can be spelled. -/
def Sound (depth : Nat) (n : Node) : Prop :=
  ∀ v, n.json? = some v → v.Canonical ∧ v.height ≤ maxDepth - depth

theorem canonical_of_jsonItems? {depth : Nat} {items : List Node} (h : ∀ n ∈ items, Sound depth n) :
    ∀ vs, Node.jsonItems? items = some vs → ∀ v ∈ vs, v.Canonical ∧ v.height ≤ maxDepth - depth := by
  induction items with
  | nil =>
    intro vs hvs
    simp only [Node.jsonItems?, Option.some.injEq] at hvs
    simp [← hvs]
  | cons n items ih =>
    intro vs hvs
    simp only [Node.jsonItems?] at hvs
    split at hvs
    case h_2 => cases hvs
    case h_1 v ws hv hws =>
      simp only [Option.some.injEq] at hvs
      subst hvs
      exact List.forall_mem_cons.2 ⟨h n List.mem_cons_self v hv, ih (fun m hm => h m (List.mem_cons_of_mem _ hm)) ws hws⟩

theorem canonical_of_jsonMembers? {depth : Nat} {members : List (String × Node)} (h : ∀ m ∈ members, Sound depth m.2) :
    ∀ taken vs, (Pairs.keys taken).Nodup → (∀ m ∈ taken, m.2.Canonical ∧ m.2.height ≤ maxDepth - depth) →
      Node.jsonMembers? taken members = some vs →
      (Pairs.keys vs).Nodup ∧ ∀ m ∈ vs, m.2.Canonical ∧ m.2.height ≤ maxDepth - depth := by
  induction members with
  | nil =>
    intro taken vs hn ht hvs
    simp only [Node.jsonMembers?, Option.some.injEq] at hvs
    subst hvs
    exact ⟨hn, ht⟩
  | cons m members ih =>
    obtain ⟨k, n⟩ := m
    intro taken vs hn ht hvs
    simp only [Node.jsonMembers?] at hvs
    split at hvs
    case h_2 => cases hvs
    case h_1 v hv =>
      refine ih (fun m hm => h m (List.mem_cons_of_mem _ hm)) _ vs (Pairs.nodup_keys_put hn) (fun m hm => ?_) hvs
      rcases Pairs.mem_put hm with rfl | hm
      · exact h (k, n) List.mem_cons_self v hv
      · exact ht m hm

/-- A value that was read can be spelled again, as deep as it stood. -/
theorem Spelled.sound {depth : Nat} {n : Node} (h : Spelled depth n) : Sound depth n := by
  induction h with
  | null => intro v hv; cases hv; exact ⟨.null, Nat.zero_le _⟩
  | bool b => intro v hv; cases hv; exact ⟨.bool b, Nat.zero_le _⟩
  | int h => intro v hv; cases hv; exact ⟨.int h, Nat.zero_le _⟩
  | float h => intro v hv; cases hv; exact ⟨.float h, Nat.zero_le _⟩
  | str s => intro v hv; cases hv; exact ⟨.str s, Nat.zero_le _⟩
  | unreadable => intro v hv; cases hv
  | @list depth items hd h ih =>
    intro v hv
    obtain ⟨vs, hvs, rfl⟩ := Option.map_eq_some_iff.1 (by simpa only [Node.json?] using hv)
    have hall := canonical_of_jsonItems? ih vs hvs
    have hle : heightItems vs ≤ maxDepth - (depth + 1) := heightItems_le_iff.2 fun v hv => (hall v hv).2
    exact ⟨.list fun v hv => (hall v hv).1, by simp only [height]; omega⟩
  | @obj depth members hd h ih =>
    intro v hv
    obtain ⟨vs, hvs, rfl⟩ := Option.map_eq_some_iff.1 (by simpa only [Node.json?] using hv)
    obtain ⟨hn, hall⟩ := canonical_of_jsonMembers? ih [] vs List.nodup_nil (by simp) hvs
    have hle : heightMembers vs ≤ maxDepth - (depth + 1) := heightMembers_le_iff.2 fun v hv => (hall v hv).2
    exact ⟨.obj hn fun v hv => (hall v hv).1, by simp only [height]; omega⟩

theorem spelled_numberNode (depth : Nat) (negative : Bool) (digits places : Nat) (exponent : Option Int)
    (whole : Bool) : Spelled depth (numberNode negative digits places exponent whole) := by
  have hpow : Nat.pow 2 63 = 2 ^ 63 ∧ Nat.pow 2 64 = 2 ^ 64 := ⟨rfl, rfl⟩
  unfold numberNode
  rw [hpow.1, hpow.2]
  split
  case isTrue h => exact .int ⟨by omega, by omega⟩
  split
  case isTrue h => exact .int ⟨by omega, by omega⟩
  split
  case h_1 x hx => exact .float (Decimal.isKept_of_ofParts? hx)
  case h_2 => exact .unreadable

theorem spelled_readNumber {depth : Nat} {negative : Bool} {cs rest : List Char} {n : Node}
    (h : readNumber negative cs = some (n, rest)) : Spelled depth n := by
  unfold readNumber at h
  split at h
  · cases h
  · cases h
  split at h
  · cases h
  split at h
  · cases h
  simp only [Option.some.injEq, Prod.mk.injEq] at h
  rw [← h.1]
  exact spelled_numberNode _ _ _ _ _ _

theorem spelled_list {depth : Nat} {items : List Node} (h : ∀ n ∈ items, Spelled (depth + 1) n) :
    Spelled depth (container (depth + 1) (.list items)) := by
  unfold container
  split
  · exact .list ‹_› h
  · exact .unreadable

theorem spelled_obj {depth : Nat} {members : List (Option String × Node)}
    (h : ∀ m ∈ members, Spelled (depth + 1) m.2) : Spelled depth (container (depth + 1) (objectNode members)) := by
  unfold container
  split
  case isFalse => exact .unreadable
  case isTrue hd =>
    unfold objectNode
    split
    case h_2 => exact .unreadable
    case h_1 named hnamed =>
      exact .obj hd fun m hm => h (some m.1, m.2) (mapM_name_eq_some.1 hnamed ▸ List.mem_map_of_mem hm)

/-- Whether all nodes that are read with some fuel are spelled ones. -/
structure ReadsSpelled (fuel : Nat) : Prop where
  value : ∀ {depth cs n rest}, readValue fuel depth cs = some (n, rest) → Spelled depth n
  items : ∀ {depth before cs items rest}, (∀ n ∈ before, Spelled depth n) →
    readItems fuel depth before cs = some (items, rest) → ∀ n ∈ items, Spelled depth n
  members : ∀ {depth before cs members rest}, (∀ m ∈ before, Spelled depth m.2) →
    readMembers fuel depth before cs = some (members, rest) → ∀ m ∈ members, Spelled depth m.2

variable {fuel depth : Nat}

theorem ReadsSpelled.readValue (hs : ReadsSpelled fuel) {cs rest : List Char} {n : Node}
    (h : readValue (fuel + 1) depth cs = some (n, rest)) : Spelled depth n := by
  rw [Json.readValue] at h
  split at h
  case h_1 =>
    obtain ⟨rfl, -⟩ := Prod.mk.inj (Option.some.inj h)
    exact .null
  case h_2 | h_3 =>
    obtain ⟨rfl, -⟩ := Prod.mk.inj (Option.some.inj h)
    exact .bool _
  case h_4 =>
    split at h
    case h_1 s _ _ =>
      obtain ⟨rfl, -⟩ := Prod.mk.inj (Option.some.inj h)
      exact .str s
    case h_2 =>
      obtain ⟨rfl, -⟩ := Prod.mk.inj (Option.some.inj h)
      exact .unreadable
    case h_3 => cases h
  case h_5 =>
    split at h
    case h_1 =>
      obtain ⟨rfl, -⟩ := Prod.mk.inj (Option.some.inj h)
      exact spelled_list (by simp)
    case h_2 =>
      split at h
      case h_1 items _ hitems =>
        obtain ⟨rfl, -⟩ := Prod.mk.inj (Option.some.inj h)
        exact spelled_list (hs.items (by simp) hitems)
      case h_2 => cases h
  case h_6 =>
    split at h
    case h_1 =>
      obtain ⟨rfl, -⟩ := Prod.mk.inj (Option.some.inj h)
      exact spelled_obj (List.forall_mem_nil _)
    case h_2 =>
      split at h
      case h_1 members _ hmembers =>
        obtain ⟨rfl, -⟩ := Prod.mk.inj (Option.some.inj h)
        exact spelled_obj (hs.members (by simp) hmembers)
      case h_2 => cases h
  case h_7 | h_8 => exact spelled_readNumber h

theorem ReadsSpelled.readItems (hs : ReadsSpelled fuel) {before items : List Node} {cs rest : List Char}
    (hb : ∀ n ∈ before, Spelled depth n) (h : readItems (fuel + 1) depth before cs = some (items, rest)) :
    ∀ n ∈ items, Spelled depth n := by
  rw [Json.readItems] at h
  split at h
  case h_1 => cases h
  case h_2 n tail hn =>
  have hcons : ∀ m ∈ n :: before, Spelled depth m := List.forall_mem_cons.2 ⟨hs.value hn, hb⟩
  split at h
  · exact hs.items hcons h
  · obtain ⟨rfl, -⟩ := Prod.mk.inj (Option.some.inj h)
    exact fun m hm => hcons m (List.mem_reverse.1 hm)
  · cases h

theorem ReadsSpelled.readMembers (hs : ReadsSpelled fuel) {before members : List (Option String × Node)}
    {cs rest : List Char} (hb : ∀ m ∈ before, Spelled depth m.2)
    (h : readMembers (fuel + 1) depth before cs = some (members, rest)) : ∀ m ∈ members, Spelled depth m.2 := by
  rw [Json.readMembers] at h
  split at h
  case h_2 => cases h
  split at h
  case h_1 => cases h
  case h_2 k _ _ =>
  split at h
  case h_2 => cases h
  split at h
  case h_1 => cases h
  case h_2 n _ hn =>
  have hcons : ∀ m ∈ (k, n) :: before, Spelled depth m.2 := List.forall_mem_cons.2 ⟨hs.value hn, hb⟩
  split at h
  · exact hs.members hcons h
  · obtain ⟨rfl, -⟩ := Prod.mk.inj (Option.some.inj h)
    exact fun m hm => hcons m (List.mem_reverse.1 hm)
  · cases h

theorem readsSpelled (fuel : Nat) : ReadsSpelled fuel := by
  induction fuel with
  | zero => constructor <;> simp [readValue, readItems, readMembers]
  | succ fuel ih => exact ⟨ih.readValue, ih.readItems, ih.readMembers⟩

/-- What a text is read as. -/
theorem spelled_of_read {s : String} {n : Node} (h : read s = some n) : Spelled 0 n := by
  unfold read readChars at h
  split at h
  case h_2 => cases h
  case h_1 n' rest hread =>
    split at h
    case isFalse => cases h
    case isTrue =>
      obtain rfl := Option.some.inj h
      exact (readsSpelled _).value hread

/-- A value that a text spells is canonical, and no deeper than the reader takes. -/
theorem canonical_of_value? {s : String} {v : Json} (h : value? s = some v) :
    v.Canonical ∧ v.height ≤ maxDepth := by
  obtain ⟨n, hn, hv⟩ := Option.bind_eq_some_iff.1 h
  exact (spelled_of_read hn).sound v hv

end Json

end ApiDocs
