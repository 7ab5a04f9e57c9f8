import ServiceEngine.Fields
import ServiceEngine.Text.Split

/-!
# Variables from a file

A file of variables holds lines `NAME=value`, with blank lines and comments between them; the word
`export` may stand in front of a name. In a value, quotes keep blanks, and a backslash outside single
quotes escapes a quote, a backslash, a dollar sign, a blank or (as `n`) a line end. After the value
only a comment may follow, set off by a blank. Reading stops at the first line that is not of this
form.
-/

namespace ServiceEngine.DotEnv

def isSeparator (c : Char) : Bool := Text.isBlank c

/-- Where a value is being read. -/
inductive Place where
  | bare
  | single
  | double
  /-- Behind the blank that ends the value. -/
  | after

/-- The character that a backslash and `c` stand for. -/
def escaped? : Char → Option Char
  | '\\' => some '\\'
  | '"' => some '"'
  | '\'' => some '\''
  | '$' => some '$'
  | ' ' => some ' '
  | 'n' => some '\n'
  | _ => none

/-- Read the rest of a value; `acc` holds what was read, in reverse. -/
def value? (acc : List Char) : Place → List Char → Option (List Char)
  | .bare, [] => some acc.reverse
  | .after, [] => some acc.reverse
  | .single, [] => none
  | .double, [] => none
  | .after, c :: rest =>
    if c = ' ' || c = '\t' then value? acc .after rest
    else if c = '#' then some acc.reverse
    else none
  | .single, c :: rest => if c = '\'' then value? acc .bare rest else value? (c :: acc) .single rest
  | .double, '\\' :: c :: rest =>
    match escaped? c with
    | some c => value? (c :: acc) .double rest
    | none => none
  | .double, c :: rest => if c = '"' then value? acc .bare rest else value? (c :: acc) .double rest
  | .bare, '\\' :: c :: rest =>
    match escaped? c with
    | some c => value? (c :: acc) .bare rest
    | none => none
  | .bare, c :: rest =>
    if c = '\'' then value? acc .single rest
    else if c = '"' then value? acc .double rest
    else if c = ' ' || c = '\t' then value? acc .after rest
    else if c = '\\' then some acc.reverse
    else value? (c :: acc) .bare rest

def isNameChar (c : Char) : Bool := c.isAlphanum || c = '_' || c = '.'

/-- Read a name, and the rest of the line without leading blanks. -/
def name? (cs : List Char) : Option (String × List Char) :=
  match cs with
  | c :: _ =>
    if c.isAlpha || c = '_' then
      some (String.ofList (cs.takeWhile isNameChar), (cs.dropWhile isNameChar).dropWhile isSeparator)
    else none
  | [] => none

/-- What stands behind the equals sign. -/
def assigned? : List Char → Option (List Char)
  | '=' :: rest => some (rest.dropWhile isSeparator)
  | _ => none

/-- Read a name and the equals sign behind it. -/
def target? (cs : List Char) : Option (String × List Char) := do
  let (name, rest) ← name? cs
  return (name, ← assigned? rest)

/-- Read a line that is neither blank nor a comment. -/
def assignment? (cs : List Char) : Option (String × String) := do
  let (name, rest) ← match target? cs, name? cs with
    | some found, _ => some found
    | none, some ("export", rest) => target? rest
    | none, _ => none
  if rest.head? = some '#' then return (name, "")
  return (name, String.ofList (← value? [] .bare rest))

/-- The variables of lines, up to the first that cannot be read. -/
def ofLines : List (List Char) → List (String × String)
  | [] => []
  | line :: rest =>
    match Text.trim line with
    | [] => ofLines rest
    | '#' :: _ => ofLines rest
    | cs =>
      match assignment? cs with
      | some entry => entry :: ofLines rest
      | none => []

/-- The variables that a text gives, in order. -/
def read (text : String) : List (String × String) := ofLines (Text.splitBy (· = '\n') text.toList)

/-- Variables with those of a text added; one that is set already stays as it is. -/
def addTo (vars : Fields String) (text : String) : Fields String :=
  (read text).foldl (fun vars entry => vars.insertIfNew entry.1 entry.2) vars

end ServiceEngine.DotEnv
