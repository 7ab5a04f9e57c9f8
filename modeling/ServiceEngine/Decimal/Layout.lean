import ServiceEngine.Decimal.Shortest

/-!
# Writing floats

A layout says how the shortest digits of a float become text: between which exponents the point is
written in its place, whether a whole number keeps a point, and which of two equally near decimals
is taken.
-/

namespace ServiceEngine.Decimal

/-- The choices of a written form of floats. -/
structure Layout where
  /-- Whether a number with this decimal exponent is written without an exponent. -/
  positional : Int → Bool
  /-- Whether a whole number written without exponent ends in `.0`. -/
  keepsPoint : Bool
  /-- Which of two equally near shortest decimals is written. -/
  tie : Tie

namespace Layout

/-- The digits of a number with decimal exponent `e`, the point in its place. -/
def place (layout : Layout) (digits : List Char) (e : Int) : String :=
  if e < 0 then "0." ++ String.ofList (List.replicate (-e - 1).toNat '0' ++ digits)
  else
    let count := e.toNat + 1
    if digits.length ≤ count then
      String.ofList (digits ++ List.replicate (count - digits.length) '0') ++
        (if layout.keepsPoint then ".0" else "")
    else String.ofList (digits.take count) ++ "." ++ String.ofList (digits.drop count)

/-- The digits of a number with decimal exponent `e`, one before the point, and the exponent. -/
def scientific (digits : List Char) (e : Int) : String :=
  let point := if digits.length ≤ 1 then "" else "."
  let exponent := if e < 0 then "e-" ++ toString e.natAbs else "e+" ++ toString e.natAbs
  String.ofList (digits.take 1) ++ point ++ String.ofList (digits.drop 1) ++ exponent

/-- The text of an exact number. -/
def writeBinary (layout : Layout) (b : Binary) : String :=
  let sign := if b.negative then "-" else ""
  if b.mantissa = 0 then sign ++ (if layout.keepsPoint then "0.0" else "0")
  else
    let decimal := b.shortest layout.tie
    let e := decimal.exponent
    sign ++ (if layout.positional e then layout.place decimal.digits e
      else scientific decimal.digits e)

def write (layout : Layout) (x : Float) : String :=
  match binary? x with
  | some b => layout.writeBinary b
  | none => if x.isNaN then "NaN" else if x < 0 then "-inf" else "inf"

end Layout

/-- Floats in messages and settings never carry an exponent, and whole ones no point. -/
def plain : Layout := ⟨fun _ => true, false, .up⟩

end ServiceEngine.Decimal
