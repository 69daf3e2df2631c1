import ApiDocs.Json.Basic
/-!
# Writing JSON

The compact form has no blanks. The laid-out form puts every item and member on a line of its own,
indented by two spaces a level, and writes an empty list or object in two characters.
-/
namespace ApiDocs.Json

/-- A hexadecimal digit in lower case. -/
def hexDigit (n : Nat) : Char :=
  (Nat.digitChar n)

/-- A character inside quotes: quotes, backslashes and control characters are escaped. -/
def escapeChar (c : Char) : List Char :=
  if c = '"' then ['\\', '"']
  else if c = '\\' then ['\\', '\\']
  else if c = '\n' then ['\\', 'n']
  else if c = '\r' then ['\\', 'r']
  else if c = '\t' then ['\\', 't']
  else if c.toNat = 8 then ['\\', 'b']
  else if c.toNat = 12 then ['\\', 'f']
  else if c.toNat < 32 then
    ['\\', 'u', '0', '0', hexDigit (c.toNat / 16), hexDigit (c.toNat % 16)]
  else [c]

/-- A text in quotes. -/
def quote (s : String) : List Char :=
  '"' :: (s.toList.flatMap escapeChar ++ ['"'])

/-- The text of a value that holds no other. -/
def scalarText : Json → List Char
  | .bool true => ['t', 'r', 'u', 'e']
  | .bool false => ['f', 'a', 'l', 's', 'e']
  | .int i => (toString i).toList
  | .float x => x.render.toList
  | .str s => quote s
  | _ => ['n', 'u', 'l', 'l']

mutual

def compactChars : Json → List Char
  | .list items => '[' :: compactItems items
  | .obj members => '\x7b' :: compactMembers members
  | scalar => scalarText scalar

/-- The items and the closing bracket. -/
def compactItems : List Json → List Char
  | [] => [']']
  | [v] => compactChars v ++ [']']
  | v :: w :: rest => compactChars v ++ ',' :: compactItems (w :: rest)

/-- The members and the closing brace. -/
def compactMembers : List (String × Json) → List Char
  | [] => ['\x7d']
  | [(k, v)] => quote k ++ ':' :: (compactChars v ++ ['\x7d'])
  | (k, v) :: m :: rest => quote k ++ ':' :: (compactChars v ++ ',' :: compactMembers (m :: rest))

end

/-- A line feed and the indentation of a level. -/
def newLine (level : Nat) : List Char :=
  '\n' :: List.replicate (2 * level) ' '

mutual

/-- The laid-out text of a value inside `level` others. -/
def prettyChars (level : Nat) : Json → List Char
  | .list [] => ['[', ']']
  | .list (v :: rest) =>
    '[' :: (newLine (level + 1) ++ prettyChars (level + 1) v ++ prettyItems level rest)
  | .obj [] => ['\x7b', '\x7d']
  | .obj ((k, v) :: rest) =>
    '\x7b' :: (newLine (level + 1) ++ quote k ++ ':' :: ' ' :: prettyChars (level + 1) v ++
      prettyMembers level rest)
  | scalar => scalarText scalar

/-- The items after the first, and the closing bracket. -/
def prettyItems (level : Nat) : List Json → List Char
  | [] => newLine level ++ [']']
  | v :: rest => ',' :: (newLine (level + 1) ++ prettyChars (level + 1) v ++ prettyItems level rest)

/-- The members after the first, and the closing brace. -/
def prettyMembers (level : Nat) : List (String × Json) → List Char
  | [] => newLine level ++ ['\x7d']
  | (k, v) :: rest =>
    ',' :: (newLine (level + 1) ++ quote k ++ ':' :: ' ' :: prettyChars (level + 1) v ++
      prettyMembers level rest)

end

/-- The text without blanks. -/
def compact (j : Json) : String :=
  String.ofList j.compactChars

/-- The laid-out text. -/
def pretty (j : Json) : String :=
  String.ofList (j.prettyChars 0)

end ApiDocs.Json
