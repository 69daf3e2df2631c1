import ApiDocs.Json.Basic
/-!
# Document nodes

What a text says before it is taken as a value of some type: repeated members stand side by side, a
bare word has no type yet, and a part that no value can be made of is kept as unreadable, so that a
reader which passes over it is not disturbed. Every document type reads itself from a node.
-/
namespace ApiDocs

inductive Node where
  | null
  | bool (b : Bool)
  | int (i : Int)
  | float (x : Decimal)
  | str (s : String)
  /-- A bare word; the type it is read as decides what it means. -/
  | bare (word : String)
  | list (items : List Node)
  /-- A list that never spells a record. -/
  | sequence (items : List Node)
  | obj (members : List (String × Node))
  /-- Well formed, but out of range, nested too deeply or not a text. -/
  | unreadable
  deriving Inhabited

namespace Node

mutual

/-- The node that the text of a value is read as. -/
def ofJson : Json → Node
  | .null => .null
  | .bool b => .bool b
  | .int i => .int i
  | .float x => .float x
  | .str s => .str s
  | .list items => .list (ofItems items)
  | .obj members => .obj (ofMembers members)

def ofItems : List Json → List Node
  | [] => []
  | v :: rest => ofJson v :: ofItems rest

def ofMembers : List (String × Json) → List (String × Node)
  | [] => []
  | (k, v) :: rest => (k, ofJson v) :: ofMembers rest

end

mutual

/-- The value of a node. A repeated member keeps its first place and takes the last value. -/
def json? : Node → Option Json
  | .null => some .null
  | .bool b => some (.bool b)
  | .int i => some (.int i)
  | .float x => some (.float x)
  | .str s => some (.str s)
  | .list items | .sequence items => (jsonItems? items).map .list
  | .obj members => (jsonMembers? [] members).map .obj
  | .bare _ | .unreadable => none

def jsonItems? : List Node → Option (List Json)
  | [] => some []
  | n :: rest =>
    match json? n, jsonItems? rest with
    | some v, some vs => some (v :: vs)
    | _, _ => none

/-- The members after those already taken. -/
def jsonMembers? (taken : List (String × Json)) : List (String × Node) →
    Option (List (String × Json))
  | [] => some taken
  | (k, n) :: rest =>
    match json? n with
    | some v => jsonMembers? (Pairs.put k v taken) rest
    | none => none

end

mutual

/-- How many lists and objects stand inside each other at most, and one more. -/
def height : Node → Nat
  | .list items | .sequence items => heightItems items + 1
  | .obj members => heightMembers members + 1
  | _ => 1

def heightItems : List Node → Nat
  | [] => 0
  | n :: rest => max (height n) (heightItems rest)

def heightMembers : List (String × Node) → Nat
  | [] => 0
  | (_, n) :: rest => max (height n) (heightMembers rest)

end

end Node

/-- Why a node is not a value of some type. -/
inductive Misfit where
  /-- A wrong form: a type, a range, or a member that is missing or stands twice. -/
  | form
  /-- The text of a type has a blank that cannot be passed over. -/
  | wideBlank
  deriving DecidableEq, Repr

/-- A value read from a node, or why there is none. -/
abbrev Reading (α : Type) := Except Misfit α

namespace Reading

/-- A value that has to be there. -/
def ofOption {α : Type} : Option α → Reading α
  | some a => .ok a
  | none => .error .form

/-! ## Scalars -/

def text : Node → Reading String
  | .str s | .bare s => .ok s
  | _ => .error .form

def boolean : Node → Reading Bool
  | .bool b => .ok b
  | .bare w =>
    if w = "true" ∨ w = "True" ∨ w = "TRUE" then .ok true
    else if w = "false" ∨ w = "False" ∨ w = "FALSE" then .ok false
    else .error .form
  | _ => .error .form

/-- A whole number below `bound`. -/
def natBelow (bound : Nat) : Node → Reading Nat
  | .int i => if 0 ≤ i ∧ i < bound then .ok i.toNat else .error .form
  | _ => .error .form

/-- Any value. -/
def json (n : Node) : Reading Json :=
  .ofOption n.json?

/-- Null, or a value. -/
def nullable {α : Type} (read : Node → Reading α) : Node → Reading (Option α)
  | .null => .ok none
  | .bare w =>
    if w ∈ ["", "~", "null", "Null", "NULL"] then .ok none else (read (.bare w)).map some
  | n => (read n).map some

/-- One of a few words, also spelled as an object whose one member is the word with null. -/
def word {α : Type} (choices : List (String × α)) : Node → Reading α
  | .str s | .bare s => .ofOption (choices.lookup s)
  | .obj [(k, .null)] => .ofOption (choices.lookup k)
  | _ => .error .form

/-! ## Lists and objects -/

def list {α : Type} (read : Node → Reading α) : Node → Reading (List α)
  | .list items | .sequence items => items.mapM read
  | .bare "" => .ok []
  | _ => .error .form

/-- The members of an object, each read; an empty bare word is an empty object. -/
def members {α : Type} (read : Node → Reading α) : Node → Reading (List (String × α))
  | .obj members => members.mapM fun (k, n) => (read n).map fun v => (k, v)
  | .bare "" => .ok []
  | _ => .error .form

def keyed {α : Type} (read : Node → Reading α) (n : Node) : Reading (Keyed α) :=
  (members read n).map Keyed.ofList

def sorted {α : Type} (read : Node → Reading α) (n : Node) : Reading (Sorted α) :=
  (members read n).map Sorted.ofList

end Reading

/-- The members of a record that a node spells, and whether it names them. -/
structure Record where
  named : Bool
  members : List (String × Node)

namespace Record

/-- The record with the declared names that an object spells, each at most once; all other members
are passed over. -/
def byName (names : List String) : Node → Reading Record
  | .obj members =>
    let known := members.filter fun m => names.contains m.1
    if (Pairs.keys known).Nodup then .ok ⟨true, known⟩ else .error .form
  | .bare "" => .ok ⟨true, []⟩
  | _ => .error .form

/-- As `byName`, but the other members are read as well and have to be readable. -/
def byNameAmong (names : List String) (n : Node) : Reading Record :=
  match n with
  | .obj members =>
    if members.all fun m => names.contains m.1 || m.2.json?.isSome then byName names n
    else .error .form
  | n => byName names n

/-- The record that a node spells: by name, or as the list of its members in declared order. -/
def ofNode (names : List String) : Node → Reading Record
  | .list items =>
    if items.length ≤ names.length then .ok ⟨false, names.zip items⟩ else .error .form
  | n => byName names n

/-- A member that has to be there. -/
def required {α : Type} (r : Record) (name : String) (read : Node → Reading α) : Reading α :=
  match Pairs.get? name r.members with
  | some n => read n
  | none => .error .form

/-- A member with a value of its own when it is left out. -/
def withDefault {α : Type} (r : Record) (name : String) (value : α) (read : Node → Reading α) :
    Reading α :=
  match Pairs.get? name r.members with
  | some n => read n
  | none => .ok value

/-- A member that may be null, and left out wherever members are named. -/
def nullable {α : Type} (r : Record) (name : String) (read : Node → Reading α) :
    Reading (Option α) :=
  match Pairs.get? name r.members with
  | some n => Reading.nullable read n
  | none => if r.named then .ok none else .error .form

/-- A member that may be null or left out. -/
def optional {α : Type} (r : Record) (name : String) (read : Node → Reading α) :
    Reading (Option α) :=
  r.withDefault name none (Reading.nullable read)

/-- A text that is empty when it is left out. -/
def textOrEmpty (r : Record) (name : String) : Reading String :=
  r.withDefault name "" Reading.text

/-- A flag that is off when it is left out. -/
def flag (r : Record) (name : String) : Reading Bool :=
  r.withDefault name false Reading.boolean

/-- A list that is empty when it is left out. -/
def listOrEmpty {α : Type} (r : Record) (name : String) (read : Node → Reading α) :
    Reading (List α) :=
  r.withDefault name [] (Reading.list read)

end Record

end ApiDocs
