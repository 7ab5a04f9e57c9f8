import ServiceEngine.Decimal.Reader
import ServiceEngine.Json.Token
import ServiceEngine.Settings.Layer

/-!
# Settings in TOML

The part of TOML that settings are written in, line by line: `key = value` with a key of bare names
divided by points, `[table]` headings, blank lines and comments. A value is a string of one line, an
integer, a float or a boolean. A key or heading that is given twice is refused.
-/

namespace ServiceEngine.Toml

/-! ## Values -/

/-- Whether nothing but blanks and a comment is left. -/
def isRestBlank (cs : List Char) : Bool :=
  match Text.trim cs with
  | [] => true
  | c :: _ => c = '#'

/-- The character that a one-letter escape stands for. -/
def escaped? : Char → Option Char
  | '"' => some '"'
  | '\\' => some '\\'
  | 'b' => some '\x08'
  | 't' => some '\t'
  | 'n' => some '\n'
  | 'f' => some '\x0c'
  | 'r' => some '\r'
  | _ => none

/-- Read a string up to its closing quote; `acc` holds what was read, in reverse. -/
def quoted? (acc : List Char) : List Char → Option (List Char × List Char)
  | [] => none
  | '"' :: rest => some (acc.reverse, rest)
  | '\\' :: 'u' :: a :: b :: c :: d :: rest =>
    match Json.Token.hexUnit? a b c d with
    | some n => if n.isValidChar then quoted? (Char.ofNat n :: acc) rest else none
    | none => none
  | '\\' :: c :: rest =>
    match escaped? c with
    | some c => quoted? (c :: acc) rest
    | none => none
  | c :: rest => if c.toNat < 0x20 && c ≠ '\t' || c = '\x7f' then none else quoted? (c :: acc) rest

/-- The digits of a numeral without the underscores between them. -/
def digits? (cs : List Char) : Option (List Char) :=
  let groups := Text.splitBy (· = '_') cs
  if groups.all (fun group => !group.isEmpty && group.all Char.isDigit) then some groups.flatten
  else none

/-- The digits of a whole part: no zero stands in front of others. -/
def whole? (cs : List Char) : Option (List Char) :=
  (digits? cs).filter (fun digits => digits.length = 1 || digits.head? ≠ some '0')

def exponent? : List Char → Option Int
  | '-' :: cs => (digits? cs).map (fun digits => -(Decimal.ofDigits digits : Int))
  | '+' :: cs => (digits? cs).map (fun digits => (Decimal.ofDigits digits : Int))
  | cs => (digits? cs).map (fun digits => (Decimal.ofDigits digits : Int))

/-- A number behind its sign. -/
def unsigned? (negative : Bool) (cs : List Char) : Option Setting := do
  let (mantissa, exponent) := match Text.cut? 'e' (Text.lower cs) with
    | some (mantissa, exponent) => (mantissa, some exponent)
    | none => (cs, none)
  let (whole, fraction) := match Text.cut? '.' mantissa with
    | some (whole, fraction) => (whole, some fraction)
    | none => (mantissa, none)
  let whole ← whole? whole
  match fraction, exponent with
  | none, none =>
    let n : Int := Decimal.ofDigits whole
    let n := if negative then -n else n
    if Setting.isInteger n then some (.int n) else none
  | _, _ =>
    let fraction ← match fraction with
      | some fraction => digits? fraction
      | none => some []
    let exponent ← match exponent with
      | some exponent => exponent? exponent
      | none => some 0
    some (.float (Decimal.floatOfDecimal negative (Decimal.ofDigits (whole ++ fraction))
      (exponent - fraction.length)))

/-- A word that is a value: a boolean or a number. -/
def word? (cs : List Char) : Option Setting :=
  let (negative, magnitude) := match cs with
    | '-' :: rest => (true, rest)
    | '+' :: rest => (false, rest)
    | _ => (false, cs)
  if cs = "true".toList then some (.bool true)
  else if cs = "false".toList then some (.bool false)
  else if magnitude = "inf".toList then some (.float (if negative then -1.0 / 0.0 else 1.0 / 0.0))
  else if magnitude = "nan".toList then some (.float (0.0 / 0.0))
  else unsigned? negative magnitude

/-- The value that stands behind the equals sign. -/
def value? (cs : List Char) : Option Setting :=
  match Text.trim cs with
  | '"' :: rest => do
    let (s, rest) ← quoted? [] rest
    if isRestBlank rest then some (.text (String.ofList s)) else none
  | '\'' :: rest => do
    let (s, rest) ← Text.cut? '\'' rest
    if isRestBlank rest then some (.text (String.ofList s)) else none
  | cs => word? (Text.trim (cs.takeWhile (· ≠ '#')))

/-! ## Lines -/

def isBare (c : Char) : Bool := c.isAlphanum || c = '_' || c = '-'

/-- The bare names of a key, divided by points. -/
def key? (cs : List Char) : Option (List String) :=
  let names := (Text.splitBy (· = '.') cs).map Text.trim
  if names.all (fun name => !name.isEmpty && name.all isBare) then some (names.map String.ofList)
  else none

/-- What a line says. -/
inductive Line where
  | blank
  | heading (path : List String)
  | entry (path : List String) (value : Setting)

def Line.read? (cs : List Char) : Option Line :=
  match Text.trim cs with
  | [] => some .blank
  | '#' :: _ => some .blank
  | '[' :: rest => do
    let (name, rest) ← Text.cut? ']' rest
    if isRestBlank rest then (key? name).map .heading else none
  | cs => do
    let (key, value) ← Text.cut? '=' cs
    return .entry (← key? key) (← value? value)

/-! ## Tables -/

/-- Add an entry that is not there yet, making tables on the way. -/
def define? (table : Fields Setting) : List String → Setting → Option (Fields Setting)
  | [], _ => none
  | [name], setting => if table.contains name then none else some (table.insert name setting)
  | name :: path, setting =>
    match table.get? name with
    | none => (define? [] path setting).map (fun inner => table.insert name (.table inner))
    | some (.table inner) =>
      (define? inner path setting).map (fun inner => table.insert name (.table inner))
    | some _ => none

/-- Make sure that a path names a table. -/
def open? (table : Fields Setting) : List String → Option (Fields Setting)
  | [] => some table
  | name :: path =>
    match table.get? name with
    | none => (open? [] path).map (fun inner => table.insert name (.table inner))
    | some (.table inner) => (open? inner path).map (fun inner => table.insert name (.table inner))
    | some _ => none

/-- What has been read: the table, the heading that entries stand under, and all headings so far. -/
structure Reading where
  table : Fields Setting
  heading : List String
  headings : List (List String)

def Reading.step (r : Reading) : Line → Option Reading
  | .blank => some r
  | .heading path =>
    if path ∈ r.headings then none
    else (open? r.table path).map (fun table => ⟨table, path, path :: r.headings⟩)
  | .entry path value =>
    (define? r.table (r.heading ++ path) value).map (fun table => { r with table })

/-- The settings that a text spells. -/
def read? (text : String) : Option (Fields Setting) := do
  let lines ← (Text.splitBy (· = '\n') text.toList).mapM Line.read?
  let r ← lines.foldlM Reading.step ⟨[], [], []⟩
  return r.table

end ServiceEngine.Toml
