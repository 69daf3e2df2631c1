/-!
# Keyed lists

Values under distinct texts, in the order in which the texts first came. Writing under a text that
is already there keeps its place. The plain operations work on lists of pairs, whatever their keys;
`Keyed` is the type of those lists in which no key stands twice.
-/
namespace ApiDocs

namespace Pairs

variable {κ α : Type}

def keys (pairs : List (κ × α)) : List κ :=
  pairs.map (·.1)

theorem nodup_keys_filter {keep : κ × α → Bool} {pairs : List (κ × α)}
    (h : (keys pairs).Nodup) : (keys (pairs.filter keep)).Nodup :=
  List.Nodup.sublist (List.Sublist.map _ List.filter_sublist) h

theorem keys_map {β : Type} (f : κ → α → β) (pairs : List (κ × α)) :
    keys (pairs.map fun p => (p.1, f p.1 p.2)) = keys pairs := by
  simp [keys, Function.comp_def]

/-- What the values weigh together. -/
def total (weigh : α → Nat) (pairs : List (κ × α)) : Nat :=
  pairs.foldr (fun p n => weigh p.2 + n) 0

variable [DecidableEq κ]

/-- The value of the first pair with the key. -/
def get? (key : κ) : List (κ × α) → Option α
  | [] => none
  | (k, v) :: rest => if k = key then some v else get? key rest

def hasKey (key : κ) (pairs : List (κ × α)) : Bool :=
  pairs.any fun p => p.1 == key

/-- Writes a value: in place of the first pair with the key, or at the end. -/
def put (key : κ) (value : α) : List (κ × α) → List (κ × α)
  | [] => [(key, value)]
  | (k, v) :: rest => if k = key then (key, value) :: rest else (k, v) :: put key value rest

theorem mem_keys_put {key k : κ} {value : α} {pairs : List (κ × α)} :
    k ∈ keys (put key value pairs) ↔ k = key ∨ k ∈ keys pairs := by
  induction pairs with
  | nil => simp [put, keys]
  | cons p rest ih =>
    simp only [keys] at ih
    by_cases h : p.1 = key
    · simp [put, keys, h]
    · simp only [put, h, keys, List.map_cons, List.mem_cons, ih, if_false]
      exact or_left_comm

theorem nodup_keys_put {key : κ} {value : α} {pairs : List (κ × α)}
    (h : (keys pairs).Nodup) : (keys (put key value pairs)).Nodup := by
  induction pairs with
  | nil => simp [put, keys]
  | cons p rest ih =>
    simp only [keys, List.map_cons, List.nodup_cons] at h
    by_cases hk : p.1 = key
    · simp only [put, hk, keys, if_true, List.map_cons, List.nodup_cons]
      exact ⟨hk ▸ h.1, h.2⟩
    · simp only [put, hk, keys, if_false, List.map_cons, List.nodup_cons]
      exact ⟨fun hm => (mem_keys_put.1 hm).elim hk h.1, ih h.2⟩

theorem get?_put {key k : κ} {value : α} {pairs : List (κ × α)} :
    get? k (put key value pairs) = if key = k then some value else get? k pairs := by
  induction pairs with
  | nil => simp [put, get?]
  | cons p rest ih =>
    obtain ⟨q, v⟩ := p
    by_cases h : q = key
    · subst h
      by_cases hk : q = k <;> simp [put, get?, hk]
    · by_cases hk : key = k
      · subst hk
        simp [put, get?, h, ih]
      · simp [put, get?, h, ih, hk]

theorem get?_filter {k : κ} {keep : κ → Bool} {pairs : List (κ × α)} (h : keep k = true) :
    get? k (pairs.filter fun p => keep p.1) = get? k pairs := by
  induction pairs with
  | nil => rfl
  | cons p rest ih =>
    obtain ⟨q, v⟩ := p
    by_cases hq : q = k
    · subst hq
      simp [get?, h]
    · by_cases hp : keep q = true <;> simp [get?, hp, hq, ih]

end Pairs

/-- Values under distinct keys, in the order in which the keys first came. -/
structure Keyed (α : Type) where
  entries : List (String × α)
  distinct : (Pairs.keys entries).Nodup

namespace Keyed

variable {α : Type}

instance [BEq α] : BEq (Keyed α) where
  beq a b := a.entries == b.entries

instance [DecidableEq α] : DecidableEq (Keyed α) := fun a b =>
  if h : a.entries = b.entries then
    isTrue (by cases a; cases b; cases h; rfl)
  else isFalse fun he => h (he ▸ rfl)

def empty : Keyed α where
  entries := []
  distinct := by simp [Pairs.keys]

instance : Inhabited (Keyed α) := ⟨empty⟩

/-- Writes a value: an old key keeps its place, a new one comes last. -/
def put (key : String) (value : α) (m : Keyed α) : Keyed α where
  entries := Pairs.put key value m.entries
  distinct := Pairs.nodup_keys_put m.distinct

/-- The list with each key at its first place and with its last value. -/
def ofList (pairs : List (String × α)) : Keyed α :=
  pairs.foldl (fun m p => m.put p.1 p.2) empty

def get? (m : Keyed α) (key : String) : Option α :=
  Pairs.get? key m.entries

def contains (m : Keyed α) (key : String) : Bool :=
  Pairs.hasKey key m.entries

def keys (m : Keyed α) : List String :=
  Pairs.keys m.entries

def values (m : Keyed α) : List α :=
  m.entries.map (·.2)

def size (m : Keyed α) : Nat :=
  m.entries.length

def isEmpty (m : Keyed α) : Bool :=
  m.entries.isEmpty

/-- What the values weigh together. -/
def total (weigh : α → Nat) (m : Keyed α) : Nat :=
  Pairs.total weigh m.entries

/-- Writes what `change` makes of the value that is there, if one is. -/
def alter (key : String) (change : Option α → α) (m : Keyed α) : Keyed α :=
  m.put key (change (m.get? key))

end Keyed

namespace Pairs

variable {α : Type}

/-- Writes a value where the order of the keys puts it. -/
def putSorted (key : String) (value : α) : List (String × α) → List (String × α)
  | [] => [(key, value)]
  | (k, v) :: rest =>
    if k = key then (key, value) :: rest
    else if key < k then (key, value) :: (k, v) :: rest
    else (k, v) :: putSorted key value rest

theorem mem_keys_putSorted {key k : String} {value : α} {pairs : List (String × α)} :
    k ∈ keys (putSorted key value pairs) ↔ k = key ∨ k ∈ keys pairs := by
  induction pairs with
  | nil => simp [putSorted, keys]
  | cons p rest ih =>
    simp only [keys] at ih
    by_cases h : p.1 = key
    · simp [putSorted, keys, h]
    · by_cases hl : key < p.1
      · simp [putSorted, keys, h, hl]
      · simp only [putSorted, h, hl, keys, List.map_cons, List.mem_cons, ih, if_false]
        exact or_left_comm

theorem ordered_putSorted {key : String} {value : α} {pairs : List (String × α)}
    (h : (keys pairs).Pairwise (· < ·)) : (keys (putSorted key value pairs)).Pairwise (· < ·) := by
  induction pairs with
  | nil => simp [putSorted, keys]
  | cons p rest ih =>
    simp only [keys, List.map_cons, List.pairwise_cons] at h
    by_cases hk : p.1 = key
    · simp only [putSorted, hk, keys, if_true, List.map_cons, List.pairwise_cons]
      exact ⟨fun k hm => hk ▸ h.1 k hm, h.2⟩
    · by_cases hl : key < p.1
      · simp only [putSorted, hk, hl, keys, if_true, if_false, List.map_cons, List.pairwise_cons,
          List.mem_cons]
        refine ⟨fun k hm => ?_, h.1, h.2⟩
        exact hm.elim (fun e => e ▸ hl) fun hm => String.lt_trans hl (h.1 k hm)
      · simp only [putSorted, hk, hl, keys, if_false, List.map_cons, List.pairwise_cons]
        refine ⟨fun k hm => ?_, ih h.2⟩
        rcases mem_keys_putSorted.1 hm with rfl | hm
        · exact String.not_le.1 fun hle => hk (String.le_antisymm (String.not_lt.1 hl) hle)
        · exact h.1 k hm

end Pairs

/-- Values under distinct keys, in the order of the code points of the keys. -/
structure Sorted (α : Type) where
  entries : List (String × α)
  ordered : (Pairs.keys entries).Pairwise (· < ·)

namespace Sorted

variable {α : Type}

instance [BEq α] : BEq (Sorted α) where
  beq a b := a.entries == b.entries

instance [DecidableEq α] : DecidableEq (Sorted α) := fun a b =>
  if h : a.entries = b.entries then
    isTrue (by cases a; cases b; cases h; rfl)
  else isFalse fun he => h (he ▸ rfl)

def empty : Sorted α where
  entries := []
  ordered := by simp [Pairs.keys]

instance : Inhabited (Sorted α) := ⟨empty⟩

/-- Writes a value where the order puts it. -/
def put (key : String) (value : α) (m : Sorted α) : Sorted α where
  entries := Pairs.putSorted key value m.entries
  ordered := Pairs.ordered_putSorted m.ordered

/-- The list in order, each key with its last value. -/
def ofList (pairs : List (String × α)) : Sorted α :=
  pairs.foldl (fun m p => m.put p.1 p.2) empty

def get? (m : Sorted α) (key : String) : Option α :=
  Pairs.get? key m.entries

def keys (m : Sorted α) : List String :=
  Pairs.keys m.entries

def isEmpty (m : Sorted α) : Bool :=
  m.entries.isEmpty

end Sorted

end ApiDocs
