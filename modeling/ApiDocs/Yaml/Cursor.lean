/-!
# Places in a YAML text

The classes of characters that a YAML text is laid out with, and a place in the text: what is still
to be read, with the line and column that decide about indentation.
-/
namespace ApiDocs.Yaml

/-- A space or a tab. -/
def isSpace (c : Char) : Bool :=
  c == ' ' || c == '\t'

/-- Carriage return, line feed, next line, line separator and paragraph separator. -/
def isBreak (c : Char) : Bool :=
  c == '\r' || c == '\n' || c == '\u0085' || c == '\u2028' || c == '\u2029'

/-- The characters of anchors and handles. -/
def isWordChar (c : Char) : Bool :=
  c.isAlphanum || c == '_' || c == '-'

/-- The characters that a text may hold. -/
def isPrintable (c : Char) : Bool :=
  let n := c.toNat
  n == 0x09 || n == 0x0A || n == 0x0D || (0x20 ≤ n && n ≤ 0x7E) || n == 0x85 ||
  (0xA0 ≤ n && n ≤ 0xD7FF) || (0xE000 ≤ n && n ≤ 0xFFFD) || 0x10000 ≤ n

/-- Whether nothing, a space or a line break comes next. -/
def endsWord : List Char → Bool
  | [] => true
  | c :: _ => isSpace c || isBreak c

/-- Whether nothing or a line break comes next. -/
def endsLine : List Char → Bool
  | [] => true
  | c :: _ => isBreak c

/-- A place in a text. -/
structure Cursor where
  rest : List Char
  /-- How many characters stand before it. -/
  index : Nat
  line : Nat
  column : Nat

namespace Cursor

/-- The beginning of a text. A byte order mark before it is no part of it. -/
def start : List Char → Cursor
  | '\uFEFF' :: rest => ⟨rest, 0, 0, 0⟩
  | rest => ⟨rest, 0, 0, 0⟩

/-- The place `n` characters further on the same line. -/
def advance (c : Cursor) (n : Nat) : Cursor :=
  ⟨c.rest.drop n, c.index + n, c.line, c.column + n⟩

/-- The place after the longest run of `p`. -/
def skipWhile (c : Cursor) (p : Char → Bool) : Cursor :=
  c.advance (c.rest.takeWhile p).length

/-- The text of the line break that comes next, and the start of the line after it. Only the
separators of lines and paragraphs stand for themselves; all other breaks are a line feed. -/
def nextLine (c : Cursor) : List Char × Cursor :=
  match c.rest with
  | '\r' :: '\n' :: rest => (['\n'], ⟨rest, c.index + 2, c.line + 1, 0⟩)
  | b :: rest =>
    if b == '\u2028' || b == '\u2029' then ([b], ⟨rest, c.index + 1, c.line + 1, 0⟩)
    else if isBreak b then (['\n'], ⟨rest, c.index + 1, c.line + 1, 0⟩)
    else ([], c)
  | [] => ([], c)

/-- The place after a comment, which reaches to the end of its line. -/
def skipComment (c : Cursor) : Cursor :=
  if c.rest.head? == some '#' then c.skipWhile fun ch => !isBreak ch else c

/-- Whether a document begins or ends here: three hyphens or three dots that start a line. -/
def atDocumentMark (c : Cursor) : Bool :=
  c.column == 0 &&
    match c.rest with
    | '-' :: '-' :: '-' :: rest => endsWord rest
    | '.' :: '.' :: '.' :: rest => endsWord rest
    | _ => false

end Cursor

end ApiDocs.Yaml
