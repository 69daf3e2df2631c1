import ApiDocs.Node
/-!
# Reading JSON

A text is one value with blanks around it. What the grammar allows but no value stands for (a number
beyond double precision, half of a surrogate pair, containers nested too deeply) becomes an
unreadable node, and everything else that is not JSON is refused.
-/
namespace ApiDocs.Json

/-- The blanks between the tokens of JSON. -/
def isSpace (c : Char) : Bool :=
  c == ' ' || c == '\n' || c == '\t' || c == '\r'

def dropSpace (cs : List Char) : List Char :=
  cs.dropWhile isSpace

/-- As many containers may stand inside each other. -/
def maxDepth : Nat := 127

/-! ## Strings -/

def hexValue? (c : Char) : Option Nat :=
  if '0' ≤ c ∧ c ≤ '9' then some (c.toNat - '0'.toNat)
  else if 'a' ≤ c ∧ c ≤ 'f' then some (c.toNat - 'a'.toNat + 10)
  else if 'A' ≤ c ∧ c ≤ 'F' then some (c.toNat - 'A'.toNat + 10)
  else none

def hex4? (a b c d : Char) : Option Nat := do
  let a ← hexValue? a
  let b ← hexValue? b
  let c ← hexValue? c
  let d ← hexValue? d
  return ((a * 16 + b) * 16 + c) * 16 + d

/-- What an escaped character other than `u` stands for. -/
def unescape? (c : Char) : Option Char :=
  if c = '"' ∨ c = '\\' ∨ c = '/' then some c
  else if c = 'b' then some (Char.ofNat 8)
  else if c = 'f' then some (Char.ofNat 12)
  else if c = 'n' then some '\n'
  else if c = 'r' then some '\r'
  else if c = 't' then some '\t'
  else none

def isHighSurrogate (n : Nat) : Bool := 0xD800 ≤ n && n ≤ 0xDBFF

def isLowSurrogate (n : Nat) : Bool := 0xDC00 ≤ n && n ≤ 0xDFFF

/-- The state of reading a string: the characters so far, the last one first; the high surrogate
that waits for its low one; and whether all of it has been a text. -/
structure StringState where
  chars : List Char
  high : Option Nat
  sound : Bool

namespace StringState

def start : StringState := ⟨[], none, true⟩

/-- A character that is no surrogate. A high surrogate before it stays without its half. -/
def push (st : StringState) (c : Char) : StringState :=
  ⟨c :: st.chars, none, st.sound && st.high.isNone⟩

/-- A code unit. -/
def pushUnit (st : StringState) (n : Nat) : StringState :=
  if isHighSurrogate n then ⟨st.chars, some n, st.sound && st.high.isNone⟩
  else if isLowSurrogate n then
    match st.high with
    | some h => ⟨Char.ofNat (0x10000 + (h - 0xD800) * 0x400 + (n - 0xDC00)) :: st.chars, none, st.sound⟩
    | none => ⟨st.chars, none, false⟩
  else st.push (Char.ofNat n)

/-- The text, if it is one. -/
def finish (st : StringState) : Option String :=
  if st.sound && st.high.isNone then some (String.ofList st.chars.reverse) else none

end StringState

/-- Reads to the closing quote. -/
def readString (st : StringState) : List Char → Option (Option String × List Char)
  | [] => none
  | '"' :: rest => some (st.finish, rest)
  | '\\' :: 'u' :: a :: b :: c :: d :: rest =>
    match hex4? a b c d with
    | some n => readString (st.pushUnit n) rest
    | none => none
  | '\\' :: c :: rest =>
    match unescape? c with
    | some c => readString (st.push c) rest
    | none => none
  | c :: rest => if c.toNat < 32 ∨ c = '\\' then none else readString (st.push c) rest

/-! ## Numbers -/

/-- The leading digits and what follows them. -/
def spanDigits (cs : List Char) : List Char × List Char :=
  (cs.takeWhile Char.isDigit, cs.dropWhile Char.isDigit)

def digitsValue (ds : List Char) : Nat :=
  ds.foldl (fun n d => 10 * n + (d.toNat - '0'.toNat)) 0

/-- The places after a point, if there is one; a point needs at least one. -/
def readFraction : List Char → Option (Option (List Char) × List Char)
  | '.' :: rest =>
    match spanDigits rest with
    | ([], _) => none
    | (ds, rest) => some (some ds, rest)
  | cs => some (none, cs)

/-- The power of ten, if there is one. -/
def readExponent : List Char → Option (Option Int × List Char)
  | c :: rest =>
    if c = 'e' ∨ c = 'E' then
      let (negative, rest) := match rest with
        | '-' :: r => (true, r)
        | '+' :: r => (false, r)
        | r => (false, r)
      match spanDigits rest with
      | ([], _) => none
      | (ds, rest) => some (some (if negative then -(digitsValue ds : Int) else digitsValue ds), rest)
    else some (none, c :: rest)
  | [] => some (none, [])

/-- The node of a number. Whole numbers of 64 bits are whole numbers; zero with a sign is not. -/
def numberNode (negative : Bool) (digits : Nat) (places : Nat) (exponent : Option Int)
    (whole : Bool) : Node :=
  if whole ∧ negative = false ∧ digits < Nat.pow 2 64 then .int digits
  else if whole ∧ negative = true ∧ 0 < digits ∧ digits ≤ Nat.pow 2 63 then .int (-(digits : Int))
  else match Decimal.ofParts? negative digits (exponent.getD 0 - places) with
    | some x => .float x
    | none => .unreadable

/-- Reads a number after its sign. -/
def readNumber (negative : Bool) (cs : List Char) : Option (Node × List Char) :=
  match spanDigits cs with
  | ([], _) => none
  | ('0' :: _ :: _, _) => none
  | (ds, rest) =>
    match readFraction rest with
    | none => none
    | some (fraction, rest) =>
      match readExponent rest with
      | none => none
      | some (exponent, rest) =>
        let places := fraction.getD []
        let whole := fraction.isNone && exponent.isNone
        some (numberNode negative (digitsValue (ds ++ places)) places.length exponent whole, rest)

/-! ## Values -/

/-- A container at this depth, unless it stands too deep. -/
def container (depth : Nat) (n : Node) : Node :=
  if depth ≤ maxDepth then n else .unreadable

/-- An object, unless one of its names is no text. -/
def objectNode (members : List (Option String × Node)) : Node :=
  match members.mapM fun (k, n) => k.map fun k => (k, n) with
  | some members => .obj members
  | none => .unreadable

mutual

/-- Reads a value that stands inside `depth` containers. The first number bounds the calls. -/
def readValue : Nat → Nat → List Char → Option (Node × List Char)
  | 0, _, _ => none
  | fuel + 1, depth, cs =>
    match dropSpace cs with
    | 'n' :: 'u' :: 'l' :: 'l' :: rest => some (.null, rest)
    | 't' :: 'r' :: 'u' :: 'e' :: rest => some (.bool true, rest)
    | 'f' :: 'a' :: 'l' :: 's' :: 'e' :: rest => some (.bool false, rest)
    | '"' :: rest =>
      match readString .start rest with
      | some (some s, rest) => some (.str s, rest)
      | some (none, rest) => some (.unreadable, rest)
      | none => none
    | '[' :: rest =>
      match dropSpace rest with
      | ']' :: rest => some (container (depth + 1) (.list []), rest)
      | rest =>
        match readItems fuel (depth + 1) [] rest with
        | some (items, rest) => some (container (depth + 1) (.list items), rest)
        | none => none
    | '\x7b' :: rest =>
      match dropSpace rest with
      | '\x7d' :: rest => some (container (depth + 1) (.obj []), rest)
      | rest =>
        match readMembers fuel (depth + 1) [] rest with
        | some (members, rest) => some (container (depth + 1) (objectNode members), rest)
        | none => none
    | '-' :: rest => readNumber true rest
    | rest => readNumber false rest

/-- Reads items up to the closing bracket, those before them given in reverse. -/
def readItems : Nat → Nat → List Node → List Char → Option (List Node × List Char)
  | 0, _, _, _ => none
  | fuel + 1, depth, before, cs =>
    match readValue fuel depth cs with
    | none => none
    | some (n, rest) =>
      match dropSpace rest with
      | ',' :: rest => readItems fuel depth (n :: before) rest
      | ']' :: rest => some ((n :: before).reverse, rest)
      | _ => none

/-- Reads members up to the closing brace, those before them given in reverse. -/
def readMembers : Nat → Nat → List (Option String × Node) → List Char →
    Option (List (Option String × Node) × List Char)
  | 0, _, _, _ => none
  | fuel + 1, depth, before, cs =>
    match dropSpace cs with
    | '"' :: rest =>
      match readString .start rest with
      | none => none
      | some (k, rest) =>
        match dropSpace rest with
        | ':' :: rest =>
          match readValue fuel depth rest with
          | none => none
          | some (n, rest) =>
            match dropSpace rest with
            | ',' :: rest => readMembers fuel depth ((k, n) :: before) rest
            | '\x7d' :: rest => some (((k, n) :: before).reverse, rest)
            | _ => none
        | _ => none
    | _ => none

end

/-- The node that all of a text spells. -/
def readChars (cs : List Char) : Option Node :=
  match readValue (cs.length + 1) 0 cs with
  | some (n, rest) => if (dropSpace rest).isEmpty then some n else none
  | none => none

/-- The node that a text spells. -/
def read (s : String) : Option Node :=
  readChars s.toList

/-- The value that a text spells. -/
def value? (s : String) : Option Json :=
  (read s).bind Node.json?

end ApiDocs.Json
