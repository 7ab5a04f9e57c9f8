import ServiceEngine.Decimal.Binary
import ServiceEngine.Decimal.Natural

/-!
# Reading floats

The float nearest to a decimal, and the reading of a free text as a float: an optional sign, then
digits with at most one point and an optional exponent, or one of the words `inf`, `infinity` and
`nan` in any case.
-/

namespace ServiceEngine.Decimal

/-- The float nearest to `significand · 10 ^ exponent`, infinite beyond the range. -/
def floatOfDecimal (negative : Bool) (significand : Nat) (exponent : Int) : Float :=
  let x := Float.ofScientific significand (exponent < 0) exponent.natAbs
  if negative then -x else x

/-- The exponent part of a number: nothing, or `e`, an optional sign and digits. -/
def exponentPart? : List Char → Option Int
  | [] => some 0
  | c :: rest =>
    if c.toLower ≠ 'e' then none
    else match rest with
      | '-' :: digits => (natural? digits).map (fun n => -(n : Int))
      | '+' :: digits => (natural? digits).map Int.ofNat
      | digits => (natural? digits).map Int.ofNat

/-- The float spelled by digits, a point, digits and an exponent; one digit is needed. -/
def unsignedFloat? (negative : Bool) (cs : List Char) : Option Float :=
  let whole := cs.takeWhile Char.isDigit
  let (fraction, tail) := match cs.dropWhile Char.isDigit with
    | '.' :: rest => (rest.takeWhile Char.isDigit, rest.dropWhile Char.isDigit)
    | rest => ([], rest)
  if whole.isEmpty && fraction.isEmpty then none
  else (exponentPart? tail).map (fun e =>
    floatOfDecimal negative (ofDigits (whole ++ fraction)) (e - fraction.length))

def float? (cs : List Char) : Option Float :=
  let (negative, body) := match cs with
    | '-' :: rest => (true, rest)
    | '+' :: rest => (false, rest)
    | _ => (false, cs)
  let word := String.ofList (body.map Char.toLower)
  if word = "inf" ∨ word = "infinity" then some (if negative then -1.0 / 0.0 else 1.0 / 0.0)
  else if word = "nan" then some (0.0 / 0.0)
  else unsignedFloat? negative body

end ServiceEngine.Decimal
