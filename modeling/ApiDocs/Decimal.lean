/-!
# Decimal numbers of double precision

A number with a fraction is kept as the decimal that is written for it: the shortest one that rounds
to the same binary fraction of double precision. Rounding is done in whole numbers, to nearest with
ties to the even neighbour, so nothing here depends on machine floats.
-/
namespace ApiDocs

/-- The magnitude `mantissa · 2 ^ exponent`. -/
structure Binary where
  mantissa : Nat
  exponent : Int
  deriving DecidableEq, Repr

/-- A sign and the magnitude `digits · 10 ^ exponent`. -/
structure Decimal where
  negative : Bool
  digits : Nat
  exponent : Int
  deriving DecidableEq, Repr, Inhabited

/-- A fraction of whole numbers times a power of a base, as numerator and denominator. -/
def scaled (n : Nat) (base : Nat) (e : Int) : Nat × Nat :=
  if 0 ≤ e then (n * Nat.pow base e.toNat, 1) else (n, Nat.pow base (-e).toNat)

/-- The quotient rounded to nearest, a half going to the even neighbour. -/
def roundDiv (num den : Nat) : Nat :=
  let q := num / den
  let r := num % den
  if 2 * r < den then q
  else if den < 2 * r then q + 1
  else if q % 2 = 0 then q else q + 1

namespace Binary

/-- The least exponent of double precision. -/
def minExponent : Int := -1074

/-- The greatest exponent of double precision. -/
def maxExponent : Int := 971

/-- The whole number `k` with `2 ^ k ≤ num / den < 2 ^ (k + 1)`, for a positive fraction. -/
def magnitude (num den : Nat) : Int :=
  let k : Int := (Nat.log2 num : Int) - (Nat.log2 den : Int)
  let (pow, one) := scaled 1 2 k
  if num * one < den * pow then k - 1 else k

/-- The double nearest to the fraction `num / den`; none when it lies beyond the greatest one. -/
def nearestFraction (num den : Nat) : Option Binary :=
  if num = 0 then some ⟨0, minExponent⟩
  else
    let q := max (magnitude num den - 52) minExponent
    let (pow, one) := scaled 1 2 q
    let m := roundDiv (num * one) (den * pow)
    let b : Binary := if m = Nat.pow 2 53 then ⟨Nat.pow 2 52, q + 1⟩ else ⟨m, q⟩
    if maxExponent < b.exponent then none else some b

/-- How many decimal digits a number has. -/
def digitCount (n : Nat) : Nat :=
  (Nat.toDigits 10 n).length

/-- The double nearest to `digits · 10 ^ exponent`; none when it lies beyond the greatest one. Far
outside the range of doubles the answer is given without computing the power. -/
def nearest (digits : Nat) (exponent : Int) : Option Binary :=
  if digits = 0 then some ⟨0, minExponent⟩
  else
    let top : Int := exponent + digitCount digits
    if 400 < top then none
    else if top < -400 then some ⟨0, minExponent⟩
    else
      let (num, den) := scaled digits 10 exponent
      nearestFraction num den

/-- The neighbours of `b` on the grid of the multiples of `10 ^ e` that round to `b`. -/
def readingBack (b : Binary) (e : Int) : List Nat :=
  let (num, den) := scaled b.mantissa 2 b.exponent
  let (pow, one) := scaled 1 10 e
  let below := num * one / (den * pow)
  [below, below + 1].filter fun d => d ≠ 0 && nearest d e == some b

/-- Of the neighbours that round to `b` the nearer one, the even one when both are as near. -/
def onGrid? (b : Binary) (e : Int) : Option Nat :=
  match readingBack b e with
  | [d, d'] =>
    let (num, den) := scaled b.mantissa 2 b.exponent
    let (pow, one) := scaled 1 10 e
    -- twice the value against the middle of the two neighbours
    let twice := 2 * (num * one)
    let middle := (d + d') * (den * pow)
    some (if twice < middle then d else if middle < twice then d' else if d % 2 = 0 then d else d')
  | [d] => some d
  | _ => none

/-- The first grid, from `10 ^ e` down to finer ones, on which a decimal rounds to `b`. -/
def searchGrids (b : Binary) (e : Int) : Nat → Option (Nat × Int)
  | 0 => none
  | steps + 1 =>
    match onGrid? b e with
    | some d => some (d, e)
    | none => searchGrids b (e - 1) steps

/-- The power of ten just above the value. -/
def topGrid (b : Binary) : Int :=
  let (num, den) := scaled b.mantissa 2 b.exponent
  if den ≤ num then (digitCount (num / den) : Int)
  else 1 - (digitCount (den / num) : Int)

/-- The shortest decimal that rounds to `b`, as digits and exponent. -/
def shortest (b : Binary) : Nat × Int :=
  if b.mantissa = 0 then (0, 0)
  else (searchGrids b (topGrid b) 20).getD (0, 0)

end Binary

namespace Decimal

/-- The number that `digits · 10 ^ exponent` is kept as; none when it is out of range. -/
def ofParts? (negative : Bool) (digits : Nat) (exponent : Int) : Option Decimal :=
  (Binary.nearest digits exponent).map fun b =>
    let (d, e) := b.shortest
    ⟨negative, d, e⟩

/-- Positional notation is used while the point stands at most this far behind the first digit. -/
def pointLimit : Int := 16

/-- Positional notation is used while fewer zeros than this stand behind the point. -/
def zeroLimit : Int := 5

/-- The digits with a point and at least one place behind it, or in scientific notation: `1.0`,
`0.1`, `1e-7`, `1.5e+16`. -/
def render (x : Decimal) : String :=
  let sign := if x.negative then "-" else ""
  let ds := Nat.toDigits 10 x.digits
  let count := ds.length
  let point : Int := count + x.exponent
  let body :=
    if x.digits = 0 then "0.0"
    else if 0 < point ∧ point ≤ pointLimit then
      if (count : Int) ≤ point then
        String.ofList (ds ++ List.replicate (point.toNat - count) '0') ++ ".0"
      else
        String.ofList (ds.take point.toNat) ++ "." ++ String.ofList (ds.drop point.toNat)
    else if -zeroLimit < point ∧ point ≤ 0 then
      "0." ++ String.ofList (List.replicate (-point).toNat '0' ++ ds)
    else
      let power := point - 1
      let exponent := (if power < 0 then "e-" else "e+") ++ toString power.natAbs
      match ds with
      | [d] => String.ofList [d] ++ exponent
      | d :: rest => String.ofList (d :: '.' :: rest) ++ exponent
      | [] => exponent
  sign ++ body

end Decimal

end ApiDocs
