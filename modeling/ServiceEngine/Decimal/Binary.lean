/-!
# Floats as exact numbers

A finite float is `± m · 2 ^ e` for a natural `m` and an integer `e`. Whether it is whole, and which
whole number it is, is read off `m` and `e` in exact arithmetic; whole numbers become floats by
rounding to the nearest, an exact half to the even mantissa.
-/

namespace ServiceEngine.Decimal

/-- The number `mantissa · 2 ^ exponent`, negated if `negative`. -/
structure Binary where
  negative : Bool
  mantissa : Nat
  exponent : Int
  deriving DecidableEq, Repr

/-- The exact number that a finite float stands for. -/
def binary? (x : Float) : Option Binary :=
  match x.toModel.unpack with
  | .finite sign mantissa exponent _ => some ⟨sign matches .negative, mantissa, exponent⟩
  | .zero sign => some ⟨sign matches .negative, 0, 0⟩
  | .infinity _ => none
  | .notANumber => none

namespace Binary

/-- Whether the number has no fraction. -/
def isWhole (b : Binary) : Bool :=
  0 ≤ b.exponent || b.mantissa % Nat.pow 2 (-b.exponent).toNat = 0

/-- The number without sign and fraction. -/
def magnitude (b : Binary) : Nat :=
  if 0 ≤ b.exponent then b.mantissa * Nat.pow 2 b.exponent.toNat
  else b.mantissa / Nat.pow 2 (-b.exponent).toNat

/-- The number without its fraction. -/
def truncate (b : Binary) : Int := if b.negative then -(b.magnitude : Int) else b.magnitude

end Binary

/-- The whole number that `x` is, if it is one. -/
def whole? (x : Float) : Option Int :=
  (binary? x).bind (fun b => if b.isWhole then some b.truncate else none)

def floatOfInt (n : Int) : Float := Float.ofModel (Float.Model.ofInt n)

def floatOfNat (n : Nat) : Float := floatOfInt n

end ServiceEngine.Decimal
