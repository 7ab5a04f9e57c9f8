import ServiceEngine.Value.Heap

/-!
# Equality of values

Two values are equal when they have the same kind and equal content. Numbers compare as floats, so
not-a-number differs from itself. Two handles are equal when they are the same handle or when their
records have the same id and equal fields.

As with JSON, comparing records compares what their fields hold, and the walk follows pairs of
handles at most as often as there are records.
-/

namespace ServiceEngine

namespace Value

mutual

/-- Whether two values are equal, where `same` compares handles. Mirrors the
`PartialEq` of `Val`. -/
def eqWith (same : Handle → Handle → Bool) : Value → Value → Bool
  | .null, .null => true
  | .bool a, .bool b => a == b
  | .num a, .num b => a == b
  | .str a, .str b => a == b
  | .list a, .list b => itemsEqWith same a b
  | .obj a, .obj b => fieldsEqWith same a b
  | .record a, .record b => same a b
  | .db, .db => true
  | .entity a, .entity b => a == b
  | .func a, .func b => a == b
  | _, _ => false

def itemsEqWith (same : Handle → Handle → Bool) : List Value → List Value → Bool
  | [], [] => true
  | a :: as, b :: bs => eqWith same a b && itemsEqWith same as bs
  | _, _ => false

def fieldsEqWith (same : Handle → Handle → Bool) :
    List (String × Value) → List (String × Value) → Bool
  | [], [] => true
  | (k, a) :: as, (l, b) :: bs => k == l && eqWith same a b && fieldsEqWith same as bs
  | _, _ => false

end

end Value

/-- Whether two records have the same id and equal fields, where `same` compares handles. -/
def Record.eqWith (same : Handle → Handle → Bool) (a b : Record) : Bool :=
  a.id == b.id && Value.fieldsEqWith same a.fields b.fields

namespace Heap

/-- Whether two handles are equal, looking at most `depth` records deep. -/
def sameTo (heap : Heap) : Nat → Handle → Handle → Bool
  | 0, a, b => a == b
  | depth + 1, a, b => a == b || Record.eqWith (heap.sameTo depth) (heap.get a) (heap.get b)

/-- Whether two handles are the same or have equal records. Mirrors the `PartialEq` of
`RecordRef`. -/
def same (heap : Heap) (a b : Handle) : Bool := heap.sameTo heap.size a b

def equal (heap : Heap) (a b : Value) : Bool := Value.eqWith heap.same a b

end Heap

end ServiceEngine
