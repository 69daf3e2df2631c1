import ApiDocs.Json.Reader
import ApiDocs.Text.Capital
/-!
# Literals

The value of a text that stands for a whole number, a number or a truth value. A number may have a
sign, may lack digits on one side of its point, and may be infinite or none at all; such numbers
have no value in a document and become null.
-/
namespace ApiDocs.Literal

/-- A sign, and what follows it. -/
def signed : List Char → Bool × List Char
  | '-' :: rest => (true, rest)
  | '+' :: rest => (false, rest)
  | cs => (false, cs)

/-- A whole number of 64 bits. -/
def integer? (s : String) : Option Json :=
  let (negative, digits) := signed s.toList
  if digits.isEmpty || !digits.all Char.isDigit then none
  else
    let n := Json.digitsValue digits
    if negative then if n ≤ Nat.pow 2 63 then some (.int (-(n : Int))) else none
    else if n < Nat.pow 2 63 then some (.int n) else none

/-- The words for numbers that are not finite. -/
def notFinite : List String := ["inf", "infinity", "nan"]

/-- The power of ten at the end of a number; zero if there is nothing. -/
def exponent? : List Char → Option Int
  | [] => some 0
  | c :: rest =>
    if c = 'e' ∨ c = 'E' then
      let (negative, digits) := signed rest
      if digits.isEmpty || !digits.all Char.isDigit then none
      else some (if negative then -(Json.digitsValue digits : Int) else Json.digitsValue digits)
    else none

/-- A number with its digits on both sides of the point. -/
def finite? (negative : Bool) (cs : List Char) : Option Json :=
  let (whole, rest) := Json.spanDigits cs
  let (places, rest) := match rest with
    | '.' :: rest => Json.spanDigits rest
    | rest => ([], rest)
  if whole.isEmpty && places.isEmpty then none
  else (exponent? rest).map fun e =>
    match Decimal.ofParts? negative (Json.digitsValue (whole ++ places)) (e - places.length) with
    | some x => .float x
    | none => .null

/-- A number of double precision; null if it is not finite. -/
def number? (s : String) : Option Json :=
  let (negative, cs) := signed s.toList
  if notFinite.contains (Text.lowerAscii (String.ofList cs)) then some .null
  else finite? negative cs

def boolean? (s : String) : Option Json :=
  if s = "true" then some (.bool true) else if s = "false" then some (.bool false) else none

/-- The value of a text of a scalar type: the text itself where it is no literal of the type. -/
def valueOf (type s : String) : Json :=
  let parsed :=
    if type = "integer" then integer? s
    else if type = "number" then number? s
    else if type = "boolean" then boolean? s
    else none
  parsed.getD (.str s)

end ApiDocs.Literal
