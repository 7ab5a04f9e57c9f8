import ServiceEngine.Decimal.Binary
import ServiceEngine.Decimal.Natural

/-!
# The fewest digits that read back

A float stands for every real number that rounds to it. Its shortest decimal is the decimal number
in that interval with the fewest significant digits and, of those, the one nearest to the float
itself. On the grid of `n`-digit decimals only the two neighbours of the float can be that number,
so the search tries them for `n = 1, 2, …, 17`; seventeen digits always suffice.
-/

namespace ServiceEngine.Decimal

/-- Which of two equally near decimals is taken. -/
inductive Tie where
  | toEven
  | up
  deriving DecidableEq, Repr

/-- The decimal number `significand · 10 ^ scale`. -/
structure Scaled where
  significand : Nat
  scale : Int
  deriving DecidableEq, Repr

namespace Scaled

/-- Compare the decimal `d` with the binary number `m · 2 ^ e`. -/
def compareBinary (d : Scaled) (m : Nat) (e : Int) : Ordering :=
  compare (d.significand * Nat.pow 10 d.scale.toNat * Nat.pow 2 (-e).toNat)
    (m * Nat.pow 2 e.toNat * Nat.pow 10 (-d.scale).toNat)

/-- The digits of the significand without trailing zeros. -/
def digits (d : Scaled) : List Char :=
  ((digitsOf d.significand).reverse.dropWhile (· = '0')).reverse

/-- The exponent `e` of the number written as one digit, a point, more digits, times `10 ^ e`. -/
def exponent (d : Scaled) : Int := d.scale + (digitsOf d.significand).length - 1

end Scaled

namespace Binary

/-- The decimal exponent of a positive number: the `e` with `10 ^ e ≤ m · 2 ^ q < 10 ^ (e + 1)`. -/
def decimalExponent (b : Binary) : Int :=
  let numerator := b.mantissa * Nat.pow 2 b.exponent.toNat
  let denominator := Nat.pow 2 (-b.exponent).toNat
  if denominator ≤ numerator then (digitsOf (numerator / denominator)).length - 1
  else -(digitsOf ((denominator + numerator - 1) / numerator - 1)).length

/-- The largest decimal of the grid `10 ^ scale` that does not exceed the number. -/
def below (b : Binary) (scale : Int) : Nat :=
  (b.mantissa * Nat.pow 2 b.exponent.toNat * Nat.pow 10 (-scale).toNat) /
    (Nat.pow 2 (-b.exponent).toNat * Nat.pow 10 scale.toNat)

/-- Whether the decimal `d` rounds to the positive float `b`. The gap below a power of two is half
the gap above it, except at the smallest exponent; an end of the interval belongs to it if the
mantissa is even. -/
def holds (b : Binary) (d : Scaled) : Bool :=
  let gap := if b.mantissa = 4503599627370496 ∧ -1074 < b.exponent then 1 else 2
  let low := d.compareBinary (4 * b.mantissa - gap) (b.exponent - 2)
  let high := d.compareBinary (4 * b.mantissa + 2) (b.exponent - 2)
  (low = .gt && high = .lt) || (b.mantissa % 2 = 0 && (low = .eq || high = .eq))

/-- The decimal on the grid of `count` digits that rounds to the positive float `b` and is nearest
to it. -/
def onGrid? (b : Binary) (tie : Tie) (count : Nat) : Option Scaled :=
  let scale := b.decimalExponent - count + 1
  let lower : Scaled := ⟨b.below scale, scale⟩
  let upper : Scaled := ⟨b.below scale + 1, scale⟩
  let middle : Scaled := ⟨2 * b.below scale + 1, scale⟩
  match b.holds lower, b.holds upper with
  | true, false => some lower
  | false, true => some upper
  | false, false => none
  | true, true =>
    -- Both neighbours read back: the nearer one is taken.
    match middle.compareBinary (2 * b.mantissa) b.exponent, tie with
    | .gt, _ => some lower
    | .lt, _ => some upper
    | .eq, .up => some upper
    | .eq, .toEven => if lower.significand % 2 = 0 then some lower else some upper

/-- The shortest decimal of a positive float. -/
def shortest (b : Binary) (tie : Tie) : Scaled :=
  ((List.range 17).findSome? (fun n => b.onGrid? tie (n + 1))).getD ⟨0, 0⟩

end Binary

end ServiceEngine.Decimal
