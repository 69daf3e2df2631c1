import ApiDocs.Yaml.Text
/-!
# Tokens of a YAML text

The words and marks of a text in order. Indentation is made explicit: a block collection opens with
a token of its own and closes when a line is indented less than its entries. What turns out to be a
key only at the colon after it gets its key token put in front of it afterwards.
-/
namespace ApiDocs.Yaml

inductive Token where
  /-- `%YAML`, with the number after the first point. -/
  | version (major minor : Nat)
  /-- `%TAG` -/
  | handle (name expansion : String)
  | documentStart
  | documentEnd
  | blockSequence
  | blockMapping
  | blockEnd
  | openSequence
  | closeSequence
  | openMapping
  | closeMapping
  /-- A hyphen before an entry. -/
  | entry
  /-- A comma between entries. -/
  | comma
  | key
  | value
  | alias (name : String)
  | anchor (name : String)
  | tag (handle suffix : String)
  /-- A plain text. -/
  | word (text : String)
  /-- A text in quotes or a block of lines. -/
  | text (text : String)
  deriving DecidableEq, Repr, Inhabited

/-- Where a key may have begun. -/
structure KeyStart where
  /-- How many tokens stand before it. -/
  place : Nat
  index : Nat
  line : Nat
  column : Nat
  /-- Whether nothing but a key can stand there. -/
  required : Bool

/-- The tokens read so far and what decides about the next one. -/
structure Lexer where
  tokens : Array Token
  /-- The columns of the open block collections, the innermost first. -/
  columns : List Nat
  /-- Where the current key may have begun. -/
  keyStart : Option KeyStart
  /-- The same around each open bracket, the innermost first. -/
  outerKeys : List (Option KeyStart)
  /-- Whether a key may begin here. -/
  keyAllowed : Bool
  cursor : Cursor

namespace Lexer

def start (text : List Char) : Lexer :=
  ⟨#[], [], none, [], true, Cursor.start text⟩

/-- Whether a bracket is open. -/
def bracketed (l : Lexer) : Bool :=
  !l.outerKeys.isEmpty

def push (l : Lexer) (t : Token) : Lexer :=
  { l with tokens := l.tokens.push t }

def skip (l : Lexer) (n : Nat) : Lexer :=
  { l with cursor := l.cursor.advance n }

def allowKey (l : Lexer) (allowed : Bool) : Lexer :=
  { l with keyAllowed := allowed }

/-- Gives up the current key, unless one is required. -/
def dropKey (l : Lexer) : Option Lexer :=
  if l.keyStart.any (·.required) then none else some { l with keyStart := none }

/-- Notes that a key may begin here. -/
def noteKey (l : Lexer) : Option Lexer :=
  if l.keyAllowed then
    let c := l.cursor
    let required := !l.bracketed && l.columns.head? == some c.column
    l.dropKey.map fun l =>
      { l with keyStart := some ⟨l.tokens.size, c.index, c.line, c.column, required⟩ }
  else some l

/-- Whether a key that began at `k` cannot end at `c`: it stays on its line and within 1024
characters. -/
def isStale (c : Cursor) (k : KeyStart) : Bool :=
  k.line < c.line || k.index + 1024 < c.index

/-- Gives up all keys that cannot end here. -/
def dropStaleKeys (l : Lexer) : Option Lexer :=
  let stale := isStale l.cursor
  let keys := l.keyStart :: l.outerKeys
  if keys.any fun k => k.any fun k => stale k && k.required then none
  else
    let keep (k : Option KeyStart) := k.filter fun k => !stale k
    some { l with keyStart := keep l.keyStart, outerKeys := l.outerKeys.map keep }

/-- Opens a block collection at `column` before the token at `place`, unless one is open there. -/
def openBlock (l : Lexer) (column place : Nat) (t : Token) : Lexer :=
  if l.bracketed || l.columns.head?.any (column ≤ ·) then l
  else { l with tokens := l.tokens.insertIdxIfInBounds place t, columns := column :: l.columns }

/-- Closes the block collections whose entries stand right of `column`; all of them if none is
given. -/
def closeBlocks (l : Lexer) (column : Option Nat) : Lexer :=
  if l.bracketed then l
  else
    let closed := l.columns.takeWhile fun k => column.all (· < k)
    { l with
      tokens := l.tokens ++ Array.replicate closed.length Token.blockEnd
      columns := l.columns.drop closed.length }

/-- Passes over spaces, comments and line breaks. Tabs count as spaces only where no key of a block
can begin. -/
def skipBlanks : Nat → Lexer → Lexer
  | 0, l => l
  | fuel + 1, l =>
    let c := l.cursor
    let c := if c.column == 0 && c.rest.head? == some '\uFEFF' then c.advance 1 else c
    let tabs := l.bracketed || !l.keyAllowed
    let c := (c.skipWhile fun ch => ch == ' ' || (tabs && ch == '\t')).skipComment
    if c.rest.head?.any isBreak then
      skipBlanks fuel { l with cursor := c.nextLine.2, keyAllowed := l.keyAllowed || !l.bracketed }
    else { l with cursor := c }

/-! ## Directives, anchors and tags -/

/-- A number of at most nine digits, and what comes after it. -/
def directiveNumber? (cs : List Char) : Option (Nat × List Char) :=
  let digits := cs.takeWhile Char.isDigit
  if digits.isEmpty || 9 < digits.length then none
  else some (digits.foldl (fun n d => 10 * n + (d.toNat - 48)) 0, cs.drop digits.length)

/-- The characters of tags. -/
def isTagChar (verbatim : Bool) (c : Char) : Bool :=
  isWordChar c || ";/?:@&=+$.%!~*'()".contains c || (verbatim && ",[]".contains c)

/-- The longest tag text, its escapes decoded, and how long it is spelled. -/
def tagText? (verbatim : Bool) : List Char → Option (List Char × Nat)
  | [] => some ([], 0)
  | '%' :: a :: b :: rest => do
    let code ← charOfCode? (16 * (← hexDigit? a) + (← hexDigit? b))
    let (text, n) ← tagText? verbatim rest
    return (code :: text, n + 3)
  | c :: rest =>
    if c == '%' then none
    else if isTagChar verbatim c then
      (tagText? verbatim rest).map fun (text, n) => (c :: text, n + 1)
    else some ([], 0)

/-- A tag handle: an exclamation mark, or a word between two of them. -/
def handle? : List Char → Option (List Char)
  | '!' :: rest =>
    let word := rest.takeWhile isWordChar
    if (rest.drop word.length).head? == some '!' then some ('!' :: word ++ ['!'])
    else some ('!' :: word)
  | _ => none

/-- The directive on this line. -/
def directive? (c : Cursor) : Option (Token × Cursor) := do
  let c := c.advance 1
  let name := c.rest.takeWhile isWordChar
  let c := c.advance name.length
  if !endsWord c.rest then none
  else do
    let c := c.skipWhile isSpace
    let (token, c) ← match String.ofList name with
      | "YAML" => do
        let (major, rest) ← directiveNumber? c.rest
        let (minor, after) ← match rest with
          | '.' :: rest => directiveNumber? rest
          | _ => none
        pure (Token.version major minor, c.advance (c.rest.length - after.length))
      | "TAG" => do
        let name ← handle? c.rest
        if name.getLast? != some '!' then none
        else do
          let c := c.advance name.length
          let space := c.rest.takeWhile isSpace
          let c := c.advance space.length
          let (expansion, n) ← tagText? true c.rest
          let c := c.advance n
          if space.isEmpty || expansion.isEmpty || !endsWord c.rest then none
          else pure (Token.handle (String.ofList name) (String.ofList expansion), c)
      | _ => none
    let c := (c.skipWhile isSpace).skipComment
    if endsLine c.rest then some (token, c.nextLine.2) else none

/-- The name of the anchor or alias that begins here. -/
def anchorName? (c : Cursor) : Option (String × Cursor) :=
  let c := c.advance 1
  let name := c.rest.takeWhile isWordChar
  let c := c.advance name.length
  if !name.isEmpty && (endsWord c.rest || c.rest.head?.any fun ch => "?:,]\x7d%@\x60".contains ch) then
    some (String.ofList name, c)
  else none

/-- The tag that begins here. -/
def tag? (bracketed : Bool) (c : Cursor) : Option (Token × Cursor) := do
  let (token, c) ← match c.rest with
    | '!' :: '<' :: rest => do
      let (uri, n) ← tagText? true rest
      let c := c.advance (n + 2)
      if uri.isEmpty || c.rest.head? != some '>' then none
      else pure (Token.tag "" (String.ofList uri), c.advance 1)
    | _ => do
      let name ← handle? c.rest
      let c := c.advance name.length
      let (suffix, n) ← tagText? false c.rest
      let c := c.advance n
      if name.length > 1 && name.getLast? == some '!' then
        if suffix.isEmpty then none
        else pure (Token.tag (String.ofList name) (String.ofList suffix), c)
      else
        let suffix := name.drop 1 ++ suffix
        if suffix.isEmpty then pure (Token.tag "" "!", c)
        else pure (Token.tag "!" (String.ofList suffix), c)
  if endsWord c.rest || (bracketed && c.rest.head? == some ',') then some (token, c) else none

/-! ## The next token -/

/-- Ends whatever is open before a line that belongs to no document. -/
def leaveDocument (l : Lexer) : Option Lexer :=
  (l.closeBlocks none).dropKey.map (·.allowKey false)

def openBracket (l : Lexer) (t : Token) : Option Lexer :=
  l.noteKey.map fun l =>
    { l with keyStart := none, outerKeys := l.keyStart :: l.outerKeys, keyAllowed := true,
             tokens := l.tokens.push t, cursor := l.cursor.advance 1 }

def closeBracket (l : Lexer) (t : Token) : Option Lexer :=
  l.dropKey.map fun l =>
    let l := match l.outerKeys with
      | key :: outer => { l with keyStart := key, outerKeys := outer }
      | [] => l
    ((l.allowKey false).push t).skip 1

/-- An entry of a block sequence, or a key of a block mapping that is marked as one. -/
def openEntry (l : Lexer) (block t : Token) : Option Lexer :=
  if !l.bracketed && !l.keyAllowed then none
  else (l.openBlock l.cursor.column l.tokens.size block).dropKey.map fun l => (l.push t).skip 1

/-- The colon before a value. If a key may have begun before it, it has. -/
def openValue (l : Lexer) : Option Lexer :=
  match l.keyStart with
  | some k =>
    let l := { l with
      tokens := l.tokens.insertIdxIfInBounds k.place .key, keyStart := none, keyAllowed := false }
    some (((l.openBlock k.column k.place .blockMapping).push .value).skip 1)
  | none =>
    if l.bracketed then some (((l.allowKey false).push .value).skip 1)
    else if !l.keyAllowed then none
    else some (((l.openBlock l.cursor.column l.tokens.size .blockMapping).push .value).skip 1)

/-- A text that was spelled here. -/
def spelled (l : Lexer) (t : String → Token) (s : Spelled) : Lexer :=
  { l.push (t s.text) with cursor := s.next, keyAllowed := s.endsLine }

/-- A text, anchor, alias or tag, which a key may begin with. -/
def keyed (l : Lexer) (read : Lexer → Option Lexer) : Option Lexer :=
  l.noteKey.bind fun l => read (l.allowKey false)

/-- What begins with `c`, the character before `rest`; nothing if no token does. -/
def tokenAt (l : Lexer) (c : Char) (rest : List Char) : Option Lexer :=
  let here := l.cursor
  if here.column == 0 && c == '%' then do
    let l ← l.leaveDocument
    let (t, next) ← directive? here
    return { l.push t with cursor := next }
  else if here.atDocumentMark then
    l.leaveDocument.map fun l =>
      (l.push (if c == '-' then .documentStart else .documentEnd)).skip 3
  else if c == '[' then l.openBracket .openSequence
  else if c == '\x7b' then l.openBracket .openMapping
  else if c == ']' then l.closeBracket .closeSequence
  else if c == '\x7d' then l.closeBracket .closeMapping
  else if c == ',' then l.dropKey.map fun l => ((l.allowKey true).push .comma).skip 1
  else if c == '-' && endsWord rest then
    (l.openEntry .blockSequence .entry).map (·.allowKey true)
  else if c == '?' && (l.bracketed || endsWord rest) then
    (l.openEntry .blockMapping .key).map fun l => l.allowKey (!l.bracketed)
  else if c == ':' && (l.bracketed || endsWord rest) then l.openValue
  else if c == '*' then
    l.keyed fun l => (anchorName? here).map fun (n, next) => { l.push (.alias n) with cursor := next }
  else if c == '&' then
    l.keyed fun l => (anchorName? here).map fun (n, next) => { l.push (.anchor n) with cursor := next }
  else if c == '!' then
    l.keyed fun l => (tag? l.bracketed here).map fun (t, next) => { l.push t with cursor := next }
  else if (c == '|' || c == '>') && !l.bracketed then
    l.dropKey.bind fun l => (block? (c == '>') l.columns.head? here).map (l.spelled .text)
  else if c == '\'' || c == '"' then
    l.keyed fun l => (quoted? c here).map (l.spelled .text)
  else if (c == '-' && !rest.head?.any isSpace) || (!l.bracketed && (c == '?' || c == ':')) ||
      !(isSpace c || "-?:#|>%@\x60".contains c) then
    l.keyed fun l =>
      let margin := match l.columns with
        | k :: _ => k + 1
        | [] => 0
      (plain? l.bracketed margin here).map (l.spelled .word)
  else none

/-- All tokens from here on. -/
def run : Nat → Lexer → Option (List Token)
  | 0, _ => none
  | fuel + 1, l => do
    let l ← (skipBlanks (l.cursor.rest.length + 1) l).dropStaleKeys
    let l := l.closeBlocks (some l.cursor.column)
    match l.cursor.rest with
    | [] => l.leaveDocument.map (·.tokens.toList)
    | c :: rest => run fuel (← l.tokenAt c rest)

end Lexer

/-- The tokens of a text, if it is well formed. -/
def Token.ofText? (text : String) : Option (List Token) :=
  let cs := text.toList
  if cs.all isPrintable then Lexer.run (cs.length + 1) (Lexer.start cs) else none

end ApiDocs.Yaml
