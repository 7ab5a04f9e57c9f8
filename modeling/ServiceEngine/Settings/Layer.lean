import ServiceEngine.Fields
import ServiceEngine.Text.Split

/-!
# Layers of settings

A setting is a scalar, a list or a table of named settings. Settings come in layers, and a layer is
written over the ones below it entry by entry: a scalar or a list replaces what was there, a table is
merged into the table that was there.

The keys of a layer may be paths such as `scheduler.enabled`, which name an entry inside tables.
-/

namespace ServiceEngine

inductive Setting where
  | null
  | bool (b : Bool)
  | int (n : Int)
  | float (x : Float)
  | text (s : String)
  | list (items : List Setting)
  | table (entries : List (String × Setting))
  deriving Inhabited

namespace Setting

/-- Whether an integer setting can have this value: it fits into 64 bits with a sign. -/
def isInteger (n : Int) : Bool := -9223372036854775808 ≤ n && n < 9223372036854775808

/-- The entries of a table; anything else has none. -/
def entries : Setting → Fields Setting
  | .table entries => entries
  | _ => []

mutual

/-- What stands where `old` stood once a setting is written over it. A table without entries changes
nothing that is already there. -/
def writeOver (old : Option Setting) : Setting → Setting
  | .table entries => writeEntries (old.getD (.table [])) entries
  | .null => .null
  | .bool b => .bool b
  | .int n => .int n
  | .float x => .float x
  | .text s => .text s
  | .list items => .list items

/-- Write entries over a setting one after the other; the first of them makes it a table. -/
def writeEntries (old : Setting) : List (String × Setting) → Setting
  | [] => old
  | (name, setting) :: rest =>
    writeEntries (.table (old.entries.insert name (writeOver (old.entries.get? name) setting))) rest

end

/-- Write a setting over the one that a path names, making tables on the way. -/
def writeAt (table : Fields Setting) : List String → Setting → Fields Setting
  | [], _ => table
  | [name], setting => table.insert name (writeOver (table.get? name) setting)
  | name :: path, setting =>
    -- A scalar on the way gives place to a table.
    let inner := ((table.get? name).map entries).getD []
    table.insert name (.table (writeAt inner path setting))

/-! ## Paths -/

def isPathChar (c : Char) : Bool := c.isAlphanum || c = '_' || c = '-' || c = ' '

/-- The names of a path, divided by points. A key that is no path names the entry of its own text. -/
def path (key : String) : List String :=
  let names := Text.splitBy (· = '.') key.toList
  if names.all (fun name => !name.isEmpty && name.all isPathChar) then names.map String.ofList
  else [key]

/-- Write the entries of a layer over a table, each where its key says. -/
def writeLayer (table : Fields Setting) (layer : List (String × Setting)) : Fields Setting :=
  layer.foldl (fun table entry => writeAt table (path entry.1) entry.2) table

end Setting

end ServiceEngine
