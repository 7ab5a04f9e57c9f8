import ServiceEngine.Decimal.Reader
import ServiceEngine.Json.Basic

/-!
# The tokens of a JSON text

A text is cut into brackets, separators, the three words, numbers and strings. A numeral may be too
large for any number, and a string may spell half of a surrogate pair: such a token is well-formed
but stands for nothing, and its content is `none`.
-/

namespace ServiceEngine.Json

inductive Token where
  | openArray
  | closeArray
  | openObject
  | closeObject
  | comma
  | colon
  | null
  | bool (b : Bool)
  | number (n : Option Number)
  | string (s : Option String)

namespace Token

/-! ## Numbers -/

/-- The number of a numeral without point and exponent. The integers of 64 bits stay integers,
except for a negative zero; the others become floats. -/
def ofInteger? (negative : Bool) (magnitude : Nat) : Option Number :=
  if negative && magnitude = 0 then some (.float (-0.0) (by decide))
  else Number.ofInt? (if negative then -(magnitude : Int) else magnitude)

/-- The number of a numeral with point or exponent, if it is not too large for a float. -/
def ofDecimal? (negative : Bool) (significand : Nat) (exponent : Int) : Option Number :=
  let x := Decimal.floatOfDecimal negative significand exponent
  if h : x.isFinite = true then some (.float x h) else none

/-- The fraction of a numeral: a point and at least one digit, or nothing. -/
def fraction? : List Char → Option (List Char × List Char)
  | '.' :: rest =>
    let digits := rest.takeWhile Char.isDigit
    if digits.isEmpty then none else some (digits, rest.dropWhile Char.isDigit)
  | rest => some ([], rest)

/-- The digits of an exponent and what follows; at least one digit is needed. -/
def exponentDigits? (cs : List Char) : Option (Nat × List Char) :=
  let digits := cs.takeWhile Char.isDigit
  if digits.isEmpty then none else some (Decimal.ofDigits digits, cs.dropWhile Char.isDigit)

/-- The exponent of a numeral, if it has one. -/
def exponent? (cs : List Char) : Option (Option Int × List Char) :=
  match cs with
  | c :: rest =>
    if c = 'e' ∨ c = 'E' then
      match rest with
      | '-' :: rest => (exponentDigits? rest).map (fun (n, rest) => (some (-(n : Int)), rest))
      | '+' :: rest => (exponentDigits? rest).map (fun (n, rest) => (some (n : Int), rest))
      | _ => (exponentDigits? rest).map (fun (n, rest) => (some (n : Int), rest))
    else some (none, cs)
  | [] => some (none, cs)

/-- The numeral at the front of a text, its sign already read, and what follows. A zero stands
alone before the point. -/
def numeral? (negative : Bool) (cs : List Char) : Option (Token × List Char) := do
  let (whole, rest) ← match cs with
    | '0' :: rest => some (['0'], rest)
    | _ =>
      let digits := cs.takeWhile Char.isDigit
      if digits.isEmpty then none else some (digits, cs.dropWhile Char.isDigit)
  let (fraction, rest) ← fraction? rest
  let (exponent, rest) ← exponent? rest
  let number := match fraction, exponent with
    | [], none => ofInteger? negative (Decimal.ofDigits whole)
    | _, _ => ofDecimal? negative (Decimal.ofDigits (whole ++ fraction))
        (exponent.getD 0 - fraction.length)
  return (.number number, rest)

/-! ## Strings -/

def hexValue? (c : Char) : Option Nat :=
  if c.isDigit then some (c.toNat - '0'.toNat)
  else if 'a' ≤ c ∧ c ≤ 'f' then some (c.toNat - 'a'.toNat + 10)
  else if 'A' ≤ c ∧ c ≤ 'F' then some (c.toNat - 'A'.toNat + 10)
  else none

/-- The unit that four hexadecimal digits spell. -/
def hexUnit? (a b c d : Char) : Option Nat := do
  return ((← hexValue? a) * 16 + (← hexValue? b)) * 256 + (← hexValue? c) * 16 + (← hexValue? d)

/-- The character behind a backslash, the hexadecimal form apart. -/
def shortEscape? : Char → Option Nat
  | '"' => some 34
  | '\\' => some 92
  | '/' => some 47
  | 'b' => some 8
  | 'f' => some 12
  | 'n' => some 10
  | 'r' => some 13
  | 't' => some 9
  | _ => none

/-- The units of a string up to its closing quote, last first, and what follows. -/
def units? (acc : List Nat) : List Char → Option (List Nat × List Char)
  | [] => none
  | '"' :: rest => some (acc, rest)
  | '\\' :: 'u' :: a :: b :: c :: d :: rest =>
    match hexUnit? a b c d with
    | some unit => units? (unit :: acc) rest
    | none => none
  | '\\' :: c :: rest =>
    match shortEscape? c with
    | some unit => units? (unit :: acc) rest
    | none => none
  | c :: rest => if c.toNat < 0x20 then none else units? (c.toNat :: acc) rest

/-- The text of a string from its units, last first: a low surrogate joins with the high one before
it, and neither may stand alone. -/
def ofUnits? (acc : List Char) : List Nat → Option (List Char)
  | [] => some acc
  | low :: high :: rest =>
    if 0xDC00 ≤ low ∧ low ≤ 0xDFFF then
      if 0xD800 ≤ high ∧ high ≤ 0xDBFF then
        ofUnits? (Char.ofNat (0x10000 + (high - 0xD800) * 0x400 + (low - 0xDC00)) :: acc) rest
      else none
    else if 0xD800 ≤ low ∧ low ≤ 0xDBFF then none
    else ofUnits? (Char.ofNat low :: acc) (high :: rest)
  | [unit] => if 0xD800 ≤ unit ∧ unit ≤ 0xDFFF then none else some (Char.ofNat unit :: acc)

/-- The string at the front of a text, its opening quote already read, and what follows. -/
def quoted? (cs : List Char) : Option (Token × List Char) :=
  (units? [] cs).map (fun (units, rest) => (.string ((ofUnits? [] units).map String.ofList), rest))

/-! ## Texts -/

/-- The token that starts with `c`, and what follows it. -/
def read? (c : Char) (rest : List Char) : Option (Token × List Char) :=
  match c, rest with
  | '[', _ => some (.openArray, rest)
  | ']', _ => some (.closeArray, rest)
  | '\x7b', _ => some (.openObject, rest)
  | '\x7d', _ => some (.closeObject, rest)
  | ',', _ => some (.comma, rest)
  | ':', _ => some (.colon, rest)
  | '"', _ => quoted? rest
  | '-', _ => numeral? true rest
  | 'n', 'u' :: 'l' :: 'l' :: rest => some (.null, rest)
  | 't', 'r' :: 'u' :: 'e' :: rest => some (.bool true, rest)
  | 'f', 'a' :: 'l' :: 's' :: 'e' :: rest => some (.bool false, rest)
  | _, _ => numeral? false (c :: rest)

/-- Whether `c` may stand between tokens. -/
def isSpace (c : Char) : Bool := c = ' ' || c = '\n' || c = '\r' || c = '\t'

/-- The tokens of a text behind those in `acc`, which are kept last first. A step reads at least one
character, so the length of the text bounds the steps. -/
def scan? : Nat → List Token → List Char → Option (List Token)
  | _, acc, [] => some acc.reverse
  | 0, _, _ :: _ => none
  | steps + 1, acc, c :: rest =>
    if isSpace c then scan? steps acc rest
    else match read? c rest with
      | some (token, rest) => scan? steps (token :: acc) rest
      | none => none

/-- The tokens of a text. -/
def ofText? (text : String) : Option (List Token) :=
  let cs := text.toList
  scan? cs.length [] cs

end Token

end ServiceEngine.Json
