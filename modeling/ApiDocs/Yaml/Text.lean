import ApiDocs.Yaml.Cursor
/-!
# Texts in YAML

The four ways to spell a text: plain, in single or double quotes, and as an indented block whose
lines are kept or folded. Each is read from its first character on; the place after it is returned,
or nothing if it is malformed.
-/
namespace ApiDocs.Yaml

/-- What stands between two words: spaces on one line, or a first line break and more breaks. -/
inductive Gap where
  | spaces (text : List Char)
  | breaks (first others : List Char)

namespace Gap

/-- What a gap stands for. A single line feed is folded to a space, and of more breaks the first is
dropped. -/
def text : Gap → List Char
  | .spaces t => t
  | .breaks ['\n'] [] => [' ']
  | .breaks ['\n'] others => others
  | .breaks first others => first ++ others

def isMultiline : Gap → Bool
  | .spaces _ => false
  | .breaks .. => true

/-- The gap with what comes next of it. A tab left of `margin` cannot indent a line. -/
def read (margin : Nat) : Nat → Gap → Cursor → Option (Gap × Cursor)
  | 0, gap, c => some (gap, c)
  | fuel + 1, gap, c =>
    match c.rest.head? with
    | none => some (gap, c)
    | some ch =>
      if isSpace ch then
        match gap with
        | .spaces t => read margin fuel (.spaces (t ++ [ch])) (c.advance 1)
        | .breaks .. =>
          if ch == '\t' && c.column < margin then none else read margin fuel gap (c.advance 1)
      else if isBreak ch then
        let (b, c) := c.nextLine
        match gap with
        | .spaces _ => read margin fuel (.breaks b []) c
        | .breaks first others => read margin fuel (.breaks first (others ++ b)) c
      else some (gap, c)

end Gap

/-! ## Plain text -/

/-- The characters before a space, a line break, a colon that ends a key and, inside brackets, a
punctuation mark; and those after them. -/
def plainWord (bracketed : Bool) : List Char → Option (List Char × List Char)
  | [] => some ([], [])
  | ch :: rest =>
    if isSpace ch || isBreak ch then some ([], ch :: rest)
    else if bracketed && ch == ':' && (rest.head?.any fun next => ",?[]\x7b\x7d".contains next) then
      none
    else if (ch == ':' && endsWord rest) || (bracketed && ",[]\x7b\x7d".contains ch) then
      some ([], ch :: rest)
    else (plainWord bracketed rest).map fun (word, rest) => (ch :: word, rest)

/-- A text and the place after it. -/
structure Spelled where
  text : String
  next : Cursor
  /-- Whether line breaks after the text were passed over. -/
  endsLine : Bool

/-- The words from here on, after those of `taken`, which are in reverse. -/
def plainFrom (bracketed : Bool) (margin : Nat) :
    Nat → List Char → Gap → Cursor → Option Spelled
  | 0, _, _, _ => none
  | fuel + 1, taken, gap, c =>
    let stop (taken : List Char) (gap : Gap) (c : Cursor) : Option Spelled :=
      some ⟨String.ofList taken.reverse, c, gap.isMultiline⟩
    if c.atDocumentMark || c.rest.head? == some '#' then stop taken gap c
    else
      match plainWord bracketed c.rest with
      | none => none
      | some ([], _) => stop taken gap c
      | some (word, rest) =>
        let taken := word.reverse ++ gap.text.reverse ++ taken
        let c := c.advance word.length
        if rest.isEmpty || !endsWord rest then stop taken (.spaces []) c
        else
          match Gap.read margin rest.length (.spaces []) c with
          | none => none
          | some (gap, c) =>
            if !bracketed && c.column < margin then stop taken gap c
            else plainFrom bracketed margin fuel taken gap c

/-- A plain text; its lines after the first are indented at least as far as `margin`. -/
def plain? (bracketed : Bool) (margin : Nat) (c : Cursor) : Option Spelled :=
  plainFrom bracketed margin (c.rest.length + 1) [] (.spaces []) c

/-! ## Quoted text -/

/-- The characters that a letter after a backslash stands for. -/
def escapes : List (Char × Char) :=
  [('0', '\x00'), ('a', '\x07'), ('b', '\x08'), ('t', '\t'), ('\t', '\t'), ('n', '\n'),
   ('v', '\x0b'), ('f', '\x0c'), ('r', '\r'), ('e', '\x1b'), (' ', ' '), ('"', '"'), ('/', '/'),
   ('\\', '\\'), ('N', '\u0085'), ('_', '\u00a0'), ('L', '\u2028'), ('P', '\u2029')]

/-- How many hexadecimal digits follow a letter after a backslash. -/
def codeLengths : List (Char × Nat) :=
  [('x', 2), ('u', 4), ('U', 8)]

def hexDigit? (c : Char) : Option Nat :=
  if c.isDigit then some (c.toNat - 48)
  else if 'a' ≤ c && c ≤ 'f' then some (c.toNat - 87)
  else if 'A' ≤ c && c ≤ 'F' then some (c.toNat - 55)
  else none

/-- The number that exactly `n` hexadecimal digits spell. -/
def hexNumber? (n : Nat) (cs : List Char) : Option Nat :=
  if cs.length < n then none
  else (cs.take n).foldlM (fun value c => (hexDigit? c).map (16 * value + ·)) 0

/-- The character of a code point, if it is one. -/
def charOfCode? (n : Nat) : Option Char :=
  if h : n.isValidChar then some (Char.ofNatAux n h) else none

/-- The character that is spelled after a backslash, and the length of its spelling. -/
def escaped? : List Char → Option (Char × Nat)
  | [] => none
  | c :: rest =>
    match escapes.lookup c, codeLengths.lookup c with
    | some ch, _ => some (ch, 1)
    | none, some n => do return (← charOfCode? (← hexNumber? n rest), n + 1)
    | none, none => none

/-- The rest of a quoted text, after what is `taken` in reverse. -/
def quotedFrom (quote : Char) : Nat → List Char → Cursor → Option Spelled
  | 0, _, _ => none
  | fuel + 1, taken, c =>
    if c.atDocumentMark then none
    else
      match c.rest with
      | [] => none
      | ch :: rest =>
        if isSpace ch || isBreak ch then do
          let (gap, c) ← Gap.read 0 c.rest.length (.spaces []) c
          quotedFrom quote fuel (gap.text.reverse ++ taken) c
        else if ch == quote then
          if quote == '\'' && rest.head? == some '\'' then
            quotedFrom quote fuel ('\'' :: taken) (c.advance 2)
          else some ⟨String.ofList taken.reverse, c.advance 1, false⟩
        else if quote == '"' && ch == '\\' then
          if rest.head?.any isBreak then do
            let (gap, c) ← Gap.read 0 rest.length (.breaks [] []) (c.advance 1).nextLine.2
            quotedFrom quote fuel (gap.text.reverse ++ taken) c
          else do
            let (ch, n) ← escaped? rest
            quotedFrom quote fuel (ch :: taken) (c.advance (n + 1))
        else quotedFrom quote fuel (ch :: taken) (c.advance 1)

/-- A text in the quotes that stand here. -/
def quoted? (quote : Char) (c : Cursor) : Option Spelled :=
  quotedFrom quote (c.rest.length + 1) [] (c.advance 1)

/-! ## Blocks of lines -/

/-- What becomes of the line breaks at the end of a block. -/
inductive Chomping where
  | strip
  | clip
  | keep

/-- The signs after the mark of a block: how it ends and how far it is indented, in any order. -/
def blockSigns? (cs : List Char) : Option (Chomping × Option Nat × Nat) :=
  let chomping? (c : Char) : Option Chomping :=
    if c == '+' then some .keep else if c == '-' then some .strip else none
  match cs with
  | [] => some (.clip, none, 0)
  | c :: rest =>
    match chomping? c with
    | some chomping =>
      match rest.head? with
      | some d =>
        if d == '0' then none
        else if d.isDigit then some (chomping, some (d.toNat - 48), 2)
        else some (chomping, none, 1)
      | none => some (chomping, none, 1)
    | none =>
      if c == '0' then none
      else if c.isDigit then
        match rest.head?.bind chomping? with
        | some chomping => some (chomping, some (c.toNat - 48), 2)
        | none => some (.clip, some (c.toNat - 48), 1)
      else some (.clip, none, 0)

/-- Passes over indentation up to `indent`, or any if it is not known yet, and over empty lines.
Their breaks are returned, and the widest indentation met. -/
def skipEmptyLines (indent : Option Nat) :
    Nat → Nat → List Char → Cursor → Option (List Char × Nat × Cursor)
  | 0, widest, breaks, c => some (breaks, widest, c)
  | fuel + 1, widest, breaks, c =>
    let spaces := (c.rest.takeWhile (· == ' ')).length
    let c := c.advance (match indent with | some n => min spaces (n - c.column) | none => spaces)
    let widest := max widest c.column
    if (indent.all fun n => c.column < n) && c.rest.head? == some '\t' then none
    else if c.rest.head?.any isBreak then
      let (b, c) := c.nextLine
      skipEmptyLines indent fuel widest (breaks ++ b) c
    else some (breaks, widest, c)

/-- The lines of a block from here on. `pending` is the break of the line before, `empties` those of
the empty lines after it, and `deeper` tells whether that line began with a space. -/
def blockFrom (folded : Bool) (chomping : Chomping) (indent : Nat) :
    Nat → List Char → List Char → List Char → Bool → Cursor → Option Spelled
  | 0, _, _, _, _, _ => none
  | fuel + 1, taken, pending, empties, deeper, c =>
    if c.column == indent && !c.rest.isEmpty then
      let deep := c.rest.head?.any isSpace
      let between :=
        if folded && pending == ['\n'] && !deeper && !deep then
          if empties.isEmpty then [' '] else empties
        else pending ++ empties
      let line := c.rest.takeWhile fun ch => !isBreak ch
      let (pending, c) := (c.advance line.length).nextLine
      match skipEmptyLines (some indent) (c.rest.length + 1) 0 [] c with
      | none => none
      | some (empties, _, c) =>
        blockFrom folded chomping indent fuel (line.reverse ++ between.reverse ++ taken) pending
          empties deep c
    else
      let tail := match chomping with
        | .strip => []
        | .clip => pending
        | .keep => pending ++ empties
      some ⟨String.ofList (taken.reverse ++ tail), c, true⟩

/-- The block whose mark stands here, in a collection whose entries are at `column`, if any. -/
def block? (folded : Bool) (column : Option Nat) (c : Cursor) : Option Spelled := do
  let c := c.advance 1
  let (chomping, given, n) ← blockSigns? c.rest
  let c := ((c.advance n).skipWhile isSpace).skipComment
  if !endsLine c.rest then none
  else do
    let c := c.nextLine.2
    let given := given.map fun n => column.getD 0 + n
    let (empties, widest, c) ← skipEmptyLines given (c.rest.length + 1) 0 [] c
    let least := match column with
      | some k => k + 1
      | none => 0
    let indent := given.getD (max 1 (max widest least))
    blockFrom folded chomping indent (c.rest.length + 1) [] [] empties false c

end ApiDocs.Yaml
