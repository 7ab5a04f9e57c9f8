import ServiceEngine.Decimal.Binary
import ServiceEngine.Fields

/-!
# JSON values

The values that JSON texts stand for. A number is an integer of 64 bits or a finite float, and the
two stay apart: `1` and `1.0` are different numbers. The members of an object are `Fields`; a value
all of whose objects have their names in strictly ascending order is canonical, and every reader of
this library gives canonical values.
-/

namespace ServiceEngine

/-- The integers a JSON number can hold: from `-2 ^ 63` to `2 ^ 64 - 1`. -/
def Json.InRange (n : Int) : Prop := -9223372036854775808 ≤ n ∧ n < 18446744073709551616

instance (n : Int) : Decidable (Json.InRange n) :=
  inferInstanceAs (Decidable (-9223372036854775808 ≤ n ∧ n < 18446744073709551616))

/-- A JSON number: an integer of 64 bits or a finite float. -/
inductive Json.Number where
  | int (n : Int) (inRange : Json.InRange n)
  | float (x : Float) (finite : x.isFinite = true)
  deriving DecidableEq

inductive Json where
  | null
  | bool (b : Bool)
  | number (n : Json.Number)
  | string (s : String)
  | array (items : List Json)
  | object (members : List (String × Json))
  deriving BEq, Inhabited

namespace Json

/-- An integer that a float holds without a gap is in range. -/
theorem inRange_of_abs_lt {n : Int} (h : -9007199254740992 < n ∧ n < 9007199254740992) :
    InRange n := by
  unfold InRange
  omega

/-- The float nearest to a number. -/
def Number.toFloat : Number → Float
  | .int n _ => Decimal.floatOfInt n
  | .float x _ => x

/-- The number of a word of 64 bits. -/
def Number.ofWord (n : UInt64) : Number :=
  .int n.toNat ⟨by omega, by have := n.toNat_lt; omega⟩

/-- The number nearest to an integer, if there is one. -/
def Number.ofInt? (n : Int) : Option Number :=
  if h : InRange n then some (.int n h)
  else
    let x := Decimal.floatOfInt n
    if h : x.isFinite = true then some (.float x h) else none

/-- The member `name` of an object. -/
def member? : Json → String → Option Json
  | .object members, name => Fields.get? members name
  | _, _ => none

/-- An object with these members; the last of a name wins. -/
def ofMembers (members : List (String × Json)) : Json := .object (Fields.ofEntries members)

mutual

/-- Every object in the value has its names in strictly ascending order. -/
def Canonical : Json → Prop
  | .array items => CanonicalItems items
  | .object members => Fields.Sorted members ∧ CanonicalMembers members
  | .null => True
  | .bool _ => True
  | .number _ => True
  | .string _ => True

def CanonicalItems : List Json → Prop
  | [] => True
  | item :: rest => item.Canonical ∧ CanonicalItems rest

def CanonicalMembers : List (String × Json) → Prop
  | [] => True
  | (_, value) :: rest => value.Canonical ∧ CanonicalMembers rest

end

theorem canonicalMembers_iff {members : List (String × Json)} :
    CanonicalMembers members ↔ ∀ entry ∈ members, entry.2.Canonical := by
  induction members with
  | nil => simp [CanonicalMembers]
  | cons entry rest ih => simp [CanonicalMembers, ih]

/-- A write of a canonical value keeps the members canonical. -/
theorem canonicalMembers_insert {members : List (String × Json)} {name : String} {value : Json}
    (hmembers : CanonicalMembers members) (hvalue : value.Canonical) :
    CanonicalMembers (Fields.insert members name value) := by
  rw [canonicalMembers_iff] at *
  intro entry hentry
  rcases Fields.mem_insert hentry with rfl | hentry
  · exact hvalue
  · exact hmembers entry hentry

end Json

end ServiceEngine
