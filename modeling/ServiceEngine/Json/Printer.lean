import ServiceEngine.Decimal.Layout
import ServiceEngine.Json.Basic

/-!
# JSON texts

The written forms of a value: compact, without any space, and indented, one member or item to a
line. In a string the quote, the backslash and the control characters below U+0020 are escaped, all
else stands for itself. Floats have a point or an exponent, so they never read back as integers.
-/

namespace ServiceEngine.Json

/-- Floats are written with the point in its place from `10 ^ -5` to below `10 ^ 16`, and with an
exponent elsewhere. -/
def floatLayout : Decimal.Layout := ⟨fun e => -5 ≤ e ∧ e ≤ 15, true, .toEven⟩

def Number.text : Number → String
  | .int n _ => toString n
  | .float x _ => floatLayout.write x

/-- The hexadecimal digit of `n < 16`, in lower case. -/
def hexDigit (n : Nat) : Char := Nat.digitChar n

/-- The form of `c` inside a string. -/
def escape (c : Char) : List Char :=
  match c with
  | '"' => ['\\', '"']
  | '\\' => ['\\', '\\']
  | '\n' => ['\\', 'n']
  | '\r' => ['\\', 'r']
  | '\t' => ['\\', 't']
  | _ =>
    let n := c.toNat
    if n = 8 then ['\\', 'b']
    else if n = 12 then ['\\', 'f']
    else if n < 0x20 then ['\\', 'u', '0', '0', hexDigit (n / 16), hexDigit (n % 16)]
    else [c]

def quote (s : String) : String := "\"" ++ String.ofList (s.toList.flatMap escape) ++ "\""

mutual

/-- The text of a value without spaces. -/
def compact : Json → String
  | .null => "null"
  | .bool true => "true"
  | .bool false => "false"
  | .number n => n.text
  | .string s => quote s
  | .array items => "[" ++ ",".intercalate (compactItems items) ++ "]"
  | .object members => "\x7b" ++ ",".intercalate (compactMembers members) ++ "\x7d"

def compactItems : List Json → List String
  | [] => []
  | item :: rest => item.compact :: compactItems rest

def compactMembers : List (String × Json) → List String
  | [] => []
  | (name, value) :: rest => (quote name ++ ":" ++ value.compact) :: compactMembers rest

end

/-- Lines between two brackets, the closing one at `margin`. -/
def block (opening closing margin : String) (lines : List String) : String :=
  opening ++ "\n" ++ ",\n".intercalate lines ++ "\n" ++ margin ++ closing

mutual

/-- The text of a value that starts behind `margin`, with two more spaces for each level inside. -/
def indented (margin : String) : Json → String
  | .array [] => "[]"
  | .array (item :: rest) =>
    block "[" "]" margin
      ((margin ++ "  " ++ item.indented (margin ++ "  ")) :: indentedItems (margin ++ "  ") rest)
  | .object [] => "\x7b\x7d"
  | .object ((name, value) :: rest) =>
    block "\x7b" "\x7d" margin
      ((margin ++ "  " ++ quote name ++ ": " ++ value.indented (margin ++ "  ")) ::
        indentedMembers (margin ++ "  ") rest)
  | .null => "null"
  | .bool b => if b then "true" else "false"
  | .number n => n.text
  | .string s => quote s

def indentedItems (margin : String) : List Json → List String
  | [] => []
  | item :: rest => (margin ++ item.indented margin) :: indentedItems margin rest

def indentedMembers (margin : String) : List (String × Json) → List String
  | [] => []
  | (name, value) :: rest =>
    (margin ++ quote name ++ ": " ++ value.indented margin) :: indentedMembers margin rest

end

def pretty (j : Json) : String := j.indented ""

end ServiceEngine.Json
