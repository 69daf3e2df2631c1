import ApiDocs.Text.Blank
import ApiDocs.Text.Letter
import ApiDocs.TypeExpr.Basic
/-!
# Reading type expressions

The grammar is

    type ::= '?' | '?' 'extends' type | name [ '<' type {',' type} '>' ] { '[' ']' }

with blanks before every token. A name is a run of letters, digits, dots, underscores and dollar
signs. Blanks are those of ASCII; any other blank at a place where blanks are passed over is a
defect of its own, since blanks are passed over one byte at a time.
-/
namespace ApiDocs.TypeExpr

/-- What is wrong with the text of a type. Offsets count bytes. -/
inductive Defect where
  | missingName (offset : Nat)
  | unclosedArguments
  | malformedArray
  | trailingInput (offset : Nat)
  | wideBlank
  deriving DecidableEq, Repr

/-- The report of a defect of a text. -/
def Defect.message (text : String) : Defect → String
  | .missingName offset =>
    "Expected a type name in '" ++ text ++ "' at offset " ++ toString offset
  | .unclosedArguments => "Unterminated type arguments in '" ++ text ++ "'"
  | .malformedArray => "Malformed array suffix in '" ++ text ++ "'"
  | .trailingInput offset =>
    "Unexpected trailing input in type '" ++ text ++ "' at offset " ++ toString offset
  | .wideBlank => "A blank beyond ASCII cannot be passed over in '" ++ text ++ "'"

/-- A part of the text and what follows it. -/
abbrev Step (α : Type) := Except Defect (α × List Char)

/-- Passes over blanks. -/
def skipBlanks : List Char → Except Defect (List Char)
  | [] => .ok []
  | c :: rest =>
    if Text.isAsciiBlank c then skipBlanks rest
    else if Text.isBlank c then .error .wideBlank
    else .ok (c :: rest)

/-- Passes over blanks and then over `c`, and says whether `c` was there. -/
def eat (c : Char) (cs : List Char) : Step Bool :=
  (skipBlanks cs).map fun
    | d :: rest => if d = c then (true, rest) else (false, d :: rest)
    | [] => (false, [])

/-- The characters of names. -/
def isNameChar (c : Char) : Bool :=
  Text.isAlphanumeric c || c == '.' || c == '_' || c == '$'

/-- One capital of ASCII, perhaps with one digit. -/
def isVariableName : List Char → Bool
  | [c] => 'A' ≤ c && c ≤ 'Z'
  | [c, d] => 'A' ≤ c && c ≤ 'Z' && d.isDigit
  | _ => false

/-- Reads a name in a text of `size` bytes. -/
def parseName (size : Nat) (cs : List Char) : Step (List Char) :=
  match skipBlanks cs with
  | .error e => .error e
  | .ok cs =>
    match cs.takeWhile isNameChar with
    | [] => .error (.missingName (size - Text.byteLength cs))
    | name => .ok (name, cs.dropWhile isNameChar)

/-- Reads pairs of brackets and appends them to a name. -/
def parseSuffixes : Nat → List Char → List Char → Step (List Char)
  | 0, path, cs => .ok (path, cs)
  | fuel + 1, path, cs =>
    match eat '[' cs with
    | .error e => .error e
    | .ok (false, rest) => .ok (path, rest)
    | .ok (true, rest) =>
      match eat ']' rest with
      | .error e => .error e
      | .ok (false, _) => .error .malformedArray
      | .ok (true, rest) => parseSuffixes fuel (path ++ ['[', ']']) rest

/-- The type of a name with its arguments. -/
def assemble (path : List Char) (args : List TypeExpr) : TypeExpr :=
  if args.isEmpty && isVariableName path then unbound (String.ofList path)
  else generic (String.ofList path) args

mutual

/-- Reads a type. The first number bounds the calls, the second is the size of the text. -/
def parseType : Nat → Nat → List Char → Step TypeExpr
  | 0, size, cs => .error (.missingName (size - Text.byteLength cs))
  | fuel + 1, size, cs =>
    match eat '?' cs with
    | .error e => .error e
    | .ok (true, rest) =>
      match skipBlanks rest with
      | .error e => .error e
      | .ok rest =>
        match Text.stripLead? "extends".toList rest with
        | some rest => parseType fuel size rest
        | none => .ok (unbound "?", rest)
    | .ok (false, rest) =>
      match parseName size rest with
      | .error e => .error e
      | .ok (name, rest) =>
        match parseArguments fuel size rest with
        | .error e => .error e
        | .ok (args, rest) =>
          match parseSuffixes (rest.length + 1) name rest with
          | .error e => .error e
          | .ok (path, rest) => .ok (assemble path args, rest)

/-- Reads arguments in angle brackets, if there are any. -/
def parseArguments : Nat → Nat → List Char → Step (List TypeExpr)
  | 0, _, _ => .error .unclosedArguments
  | fuel + 1, size, cs =>
    match eat '<' cs with
    | .error e => .error e
    | .ok (false, rest) => .ok ([], rest)
    | .ok (true, rest) => parseList fuel size [] rest

/-- Reads types up to the closing bracket, those before them given in reverse. -/
def parseList : Nat → Nat → List TypeExpr → List Char → Step (List TypeExpr)
  | 0, _, _, _ => .error .unclosedArguments
  | fuel + 1, size, before, cs =>
    match parseType fuel size cs with
    | .error e => .error e
    | .ok (t, rest) =>
      match eat ',' rest with
      | .error e => .error e
      | .ok (true, rest) => parseList fuel size (t :: before) rest
      | .ok (false, rest) =>
        match eat '>' rest with
        | .error e => .error e
        | .ok (true, rest) => .ok ((t :: before).reverse, rest)
        | .ok (false, _) => .error .unclosedArguments

end

/-- Reads all of a text as a type. -/
def parseChars (cs : List Char) : Except Defect TypeExpr :=
  let size := Text.byteLength cs
  match parseType (3 * cs.length + 3) size cs with
  | .error e => .error e
  | .ok (t, rest) =>
    match skipBlanks rest with
    | .error e => .error e
    | .ok [] => .ok t
    | .ok rest => .error (.trailingInput (size - Text.byteLength rest))

/-- Reads the text of a type. -/
def parse (s : String) : Except Defect TypeExpr :=
  parseChars s.toList

end ApiDocs.TypeExpr
