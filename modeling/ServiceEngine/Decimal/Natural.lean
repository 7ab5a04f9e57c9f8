/-!
# Unsigned decimals

Reading of texts made of the digits `0` to `9`, with leading zeros allowed, and of such texts behind
an optional `+` and under a bound.
-/

namespace ServiceEngine.Decimal

def digitValue (c : Char) : Nat := c.toNat - '0'.toNat

/-- The number that the digits `cs` spell, most significant first. -/
def ofDigits (cs : List Char) : Nat := cs.foldl (fun n c => 10 * n + digitValue c) 0

/-- The number spelled by `cs`, if it is a non-empty run of digits. -/
def natural? (cs : List Char) : Option Nat :=
  if cs.isEmpty || !cs.all Char.isDigit then none else some (ofDigits cs)

/-- The number below `bound` spelled by `cs`: digits behind an optional `+`. -/
def unsigned? (bound : Nat) (cs : List Char) : Option Nat :=
  let digits := match cs with
    | '+' :: rest => rest
    | _ => cs
  (natural? digits).filter (· < bound)

/-- The digits of `n`, most significant first. -/
def digitsOf (n : Nat) : List Char := Nat.toDigits 10 n

end ServiceEngine.Decimal
