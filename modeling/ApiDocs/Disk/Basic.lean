import ApiDocs.Disk.Path
import ApiDocs.Keyed
/-!
# Disks

Folders and text files by place, as far as a run can see and change them. Everything stands in a
folder, which the type makes sure of. Paths are followed name by name, from the root or from the home
folder of the disk.
-/
namespace ApiDocs

namespace Disk

/-- The names that lead from the root to a place. -/
abbrev Place := List String

inductive Entry where
  | folder
  | file (text : String)
  deriving DecidableEq, Repr, Inhabited

namespace Entry

def isFolder : Entry → Bool
  | .folder => true
  | .file _ => false

def isFile : Entry → Bool
  | .folder => false
  | .file _ => true

end Entry

/-- What stands at a place; the root is a folder. -/
def lookUp (entries : List (Place × Entry)) (place : Place) : Option Entry :=
  if place = [] then some .folder else Pairs.get? place entries

/-- Every entry stands in a folder. -/
def Closed (entries : List (Place × Entry)) : Prop :=
  ∀ place ∈ Pairs.keys entries, place ≠ [] ∧ lookUp entries place.dropLast = some .folder

end Disk

structure Disk where
  entries : List (Disk.Place × Disk.Entry)
  /-- Where relative paths start. -/
  home : Disk.Place
  /-- Where nothing can be made or written. -/
  locked : Disk.Place → Bool
  distinct : (Pairs.keys entries).Nodup
  closed : Disk.Closed entries

namespace Disk

/-- A disk with nothing but its root. -/
def empty : Disk where
  entries := []
  home := []
  locked := fun _ => false
  distinct := by simp [Pairs.keys]
  closed := by simp [Closed, Pairs.keys]

def at? (d : Disk) (place : Place) : Option Entry :=
  lookUp d.entries place

/-! ## Changes at a place -/

theorem lookUp_put {key k : Place} {e : Entry} {entries : List (Place × Entry)}
    (h : key ≠ []) :
    lookUp (Pairs.put key e entries) k = if key = k then some e else lookUp entries k := by
  by_cases hk : k = []
  · subst hk
    simp [lookUp, h]
  · simp [lookUp, hk, Pairs.get?_put]

/-- Whether an entry can stand at a place: in a folder, and not in place of one. -/
def Fits (d : Disk) (place : Place) (e : Entry) : Prop :=
  place ≠ [] ∧ d.at? place.dropLast = some .folder ∧ (d.at? place = some .folder → e = .folder)

instance (d : Disk) (place : Place) (e : Entry) : Decidable (d.Fits place e) := by
  unfold Fits; infer_instance

theorem closed_put {d : Disk} {place : Place} {e : Entry} (h : d.Fits place e) :
    Closed (Pairs.put place e d.entries) := by
  obtain ⟨hne, hparent, hkeep⟩ := h
  intro k hk
  rcases Pairs.mem_keys_put.1 hk with rfl | hk
  · refine ⟨hne, ?_⟩
    have hne' : k ≠ k.dropLast := fun he => by
      have := congrArg List.length he
      rw [List.length_dropLast] at this
      have : 0 < k.length := List.length_pos_iff.2 hne
      omega
    rw [lookUp_put hne, if_neg hne']
    exact hparent
  · obtain ⟨hk0, hkp⟩ := d.closed k hk
    refine ⟨hk0, ?_⟩
    rw [lookUp_put hne]
    by_cases he : place = k.dropLast
    · rw [if_pos he]
      exact congrArg some (hkeep (he ▸ hkp))
    · rw [if_neg he]
      exact hkp

/-- Writes an entry at a place, if it can stand there. -/
def put (d : Disk) (place : Place) (e : Entry) : Disk :=
  if h : d.Fits place e then
    { d with
      entries := Pairs.put place e d.entries
      distinct := Pairs.nodup_keys_put d.distinct
      closed := closed_put h }
  else d

theorem closed_erase (d : Disk) (place : Place) :
    Closed (d.entries.filter fun p => !place.isPrefixOf p.1) := by
  intro k hk
  obtain ⟨p, hp, rfl⟩ := List.mem_map.1 hk
  obtain ⟨hp, hkeep⟩ := List.mem_filter.1 hp
  obtain ⟨hne, hparent⟩ := d.closed p.1 (List.mem_map.2 ⟨p, hp, rfl⟩)
  refine ⟨hne, ?_⟩
  unfold lookUp at hparent ⊢
  by_cases h0 : p.1.dropLast = []
  · simp [h0]
  · simp only [h0, if_false] at hparent ⊢
    rw [@Pairs.get?_filter _ _ _ p.1.dropLast (fun k => !place.isPrefixOf k) d.entries, hparent]
    simp only [Bool.not_eq_true', Bool.eq_false_iff] at hkeep ⊢
    exact fun h => hkeep (List.isPrefixOf_iff_prefix.2
      ((List.isPrefixOf_iff_prefix.1 h).trans (List.dropLast_prefix _)))

/-- Takes away what stands at a place, with everything below it. -/
def erase (d : Disk) (place : Place) : Disk :=
  { d with
    entries := d.entries.filter fun p => !place.isPrefixOf p.1
    distinct := Pairs.nodup_keys_filter d.distinct
    closed := closed_erase d place }

/-! ## Problems -/

/-- Why something cannot be done at a path. -/
inductive Problem where
  | missing
  | denied
  | exists
  | notFolder
  | isFolder
  | nameTooLong
  | nul
  deriving DecidableEq, Repr

namespace Problem

def message : Problem → String
  | .missing => "No such file or directory (os error 2)"
  | .denied => "Permission denied (os error 13)"
  | .exists => "File exists (os error 17)"
  | .notFolder => "Not a directory (os error 20)"
  | .isFolder => "Is a directory (os error 21)"
  | .nameTooLong => "File name too long (os error 36)"
  | .nul => "file name contained an unexpected NUL byte"

end Problem

/-! ## Paths on a disk -/

/-- The most bytes that a name may have. -/
def nameLimit : Nat := 255

/-- The bytes that a path has to stay below. -/
def pathLimit : Nat := 4096

/-- The place that names lead to from a folder. Every name but the last has to be one of a folder;
at the last there may be nothing. -/
def follow (d : Disk) (here : Place) : List String → Except Problem Place
  | [] => .ok here
  | name :: rest =>
    match d.at? here with
    | none => .error .missing
    | some (.file _) => .error .notFolder
    | some .folder =>
      if name = "" ∨ name = "." then follow d here rest
      else if name = ".." then follow d here.dropLast rest
      else if nameLimit < Text.byteLength name.toList then .error .nameTooLong
      else follow d (here ++ [name]) rest

/-- The place that the pieces of a path lead to. -/
def placeOf (d : Disk) (path : String) (pieces : List String) : Except Problem Place :=
  if path.toList.contains '\x00' then .error .nul
  else if pathLimit ≤ Text.byteLength path.toList then .error .nameTooLong
  else if path = "" then .error .missing
  else d.follow (if Path.isAbsolute path then [] else d.home) pieces

/-- What stands at a path. -/
def find (d : Disk) (path : String) : Except Problem (Place × Entry) :=
  match d.placeOf path (Path.pieces path) with
  | .error p => .error p
  | .ok place =>
    match d.at? place with
    | some e => .ok (place, e)
    | none => .error .missing

def hasEntry (d : Disk) (path : String) : Bool :=
  match d.find path with
  | .ok _ => true
  | .error _ => false

def hasFolder (d : Disk) (path : String) : Bool :=
  match d.find path with
  | .ok (_, e) => e.isFolder
  | .error _ => false

def hasFile (d : Disk) (path : String) : Bool :=
  match d.find path with
  | .ok (_, e) => e.isFile
  | .error _ => false

/-- The text of the file at a path. -/
def readText (d : Disk) (path : String) : Except Problem String :=
  match d.find path with
  | .error p => .error p
  | .ok (_, .folder) => .error .isFolder
  | .ok (_, .file text) => .ok text

/-- The names in a folder. -/
def namesIn (d : Disk) (place : Place) : List String :=
  d.entries.filterMap fun p => if p.1.dropLast = place then p.1.getLast? else none

/-- The names in the folder at a path, in the order of their code points. -/
def list (d : Disk) (path : String) : Except Problem (List String) :=
  match d.find path with
  | .error p => .error p
  | .ok (_, .file _) => .error .notFolder
  | .ok (place, .folder) => .ok ((d.namesIn place).mergeSort fun a b => !(b < a))

/-- The pieces of a path without the slashes at its end, and whether there are any. -/
def withoutSlashes (path : String) : List String × Bool :=
  let ps := Path.pieces path
  ((ps.reverse.dropWhile String.isEmpty).reverse, ps.getLast? == some "")

/-- Writes a file; the folder that it stands in has to be there. -/
def writeText (path text : String) (d : Disk) : Except Problem Unit × Disk :=
  let (pieces, slashed) := withoutSlashes path
  match d.placeOf path pieces with
  | .error p => (.error p, d)
  | .ok place =>
    if slashed || d.at? place == some .folder then (.error .isFolder, d)
    else if d.locked place then (.error .denied, d)
    else (.ok (), d.put place (.file text))

/-- Makes a folder; the folder that it stands in has to be there. -/
def makeFolder (path : String) (d : Disk) : Except Problem Unit × Disk :=
  match d.placeOf path (withoutSlashes path).1 with
  | .error p => (.error p, d)
  | .ok place =>
    if (d.at? place).isSome then (.error .exists, d)
    else if d.locked place then (.error .denied, d)
    else (.ok (), d.put place .folder)

/-- Makes the first folder of a path and its ancestors, and those it stands in where they are
missing. A folder that is there already is good, and the empty path is always there. -/
def makeFoldersFrom : List String → Disk → Except Problem Unit × Disk
  | [], d => (.ok (), d)
  | path :: above, d =>
    if path = "" then (.ok (), d)
    else
      match makeFolder path d with
      | (.ok (), d) => (.ok (), d)
      | (.error .missing, d) =>
        match makeFoldersFrom above d with
        | (.error p, d) => (.error p, d)
        | (.ok (), d) =>
          match makeFolder path d with
          | (.ok (), d) => (.ok (), d)
          | (.error p, d) => if d.hasFolder path then (.ok (), d) else (.error p, d)
      | (.error p, d) => if d.hasFolder path then (.ok (), d) else (.error p, d)

/-- Makes a folder and those it stands in, where they are missing. -/
def makeFolders (path : String) (d : Disk) : Except Problem Unit × Disk :=
  makeFoldersFrom (Path.ancestors path) d

/-- Takes away a folder with everything in it. -/
def removeFolder (path : String) (d : Disk) : Except Problem Unit × Disk :=
  match d.find path with
  | .error p => (.error p, d)
  | .ok (_, .file _) => (.error .notFolder, d)
  | .ok (place, .folder) => (.ok (), d.erase place)

/-- Takes away a file. -/
def removeFile (path : String) (d : Disk) : Except Problem Unit × Disk :=
  match d.find path with
  | .error p => (.error p, d)
  | .ok (_, .folder) => (.error .isFolder, d)
  | .ok (place, .file _) => (.ok (), d.erase place)

end Disk

end ApiDocs
