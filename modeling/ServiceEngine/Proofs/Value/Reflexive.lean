import Mathlib
import ServiceEngine.Proofs.Value.Handles

/-!
# Values compared with themselves

Equality of values is not reflexive: a float that is not a number differs from itself. Nor does it see a
handle and a copy of its record as the same thing. This module says exactly when two comparisons succeed:

1. a value with itself, if no NaN stands in it (`Value.eqWith_self`); what the records behind its handles
   hold does not matter, for a handle equals itself;
2. a detached copy with the value it was taken from, if moreover no handle stands in the value
   (`Value.eqWith_detach`).
-/

namespace ServiceEngine

namespace Value

/-! ## Numbers that are none -/

mutual

/-- Whether a NaN stands in a value, at any depth. Handles are not followed. -/
def hasNaN : Value → Bool
  | .num x => x.isNaN
  | .list items => hasNaNItems items
  | .obj fields => hasNaNFields fields
  | .null => false
  | .bool _ => false
  | .str _ => false
  | .record _ => false
  | .db => false
  | .entity _ => false
  | .func _ => false

def hasNaNItems : List Value → Bool
  | [] => false
  | v :: rest => hasNaN v || hasNaNItems rest

def hasNaNFields : List (String × Value) → Bool
  | [] => false
  | (_, v) :: rest => hasNaN v || hasNaNFields rest

end

theorem hasNaNItems_eq_false {items : List Value} :
    hasNaNItems items = false ↔ ∀ v ∈ items, v.hasNaN = false := by
  induction items with
  | nil => simp [hasNaNItems]
  | cons v rest ih => rw [hasNaNItems, Bool.or_eq_false_iff, ih, List.forall_mem_cons]

theorem hasNaNFields_eq_false {fields : Fields Value} :
    hasNaNFields fields = false ↔ ∀ entry ∈ fields, entry.2.hasNaN = false := by
  induction fields with
  | nil => simp [hasNaNFields]
  | cons entry rest ih => rw [hasNaNFields, Bool.or_eq_false_iff, ih, List.forall_mem_cons]

/-! ## Lists and maps compared with a changed copy -/

/-- A list equals a changed copy just if each item does. -/
theorem itemsEqWith_map (same : Handle → Handle → Bool) (f : Value → Value) (items : List Value) :
    itemsEqWith same (items.map f) items = true ↔ ∀ v ∈ items, eqWith same (f v) v = true := by
  induction items with
  | nil => simp [itemsEqWith]
  | cons v rest ih => rw [List.map_cons, itemsEqWith, Bool.and_eq_true, ih, List.forall_mem_cons]

theorem fieldsEqWith_map (same : Handle → Handle → Bool) (f : Value → Value) (fields : Fields Value) :
    fieldsEqWith same (fields.map (fun entry => (entry.1, f entry.2))) fields = true ↔
      ∀ entry ∈ fields, eqWith same (f entry.2) entry.2 = true := by
  induction fields with
  | nil => simp [fieldsEqWith]
  | cons entry rest ih =>
    rw [List.map_cons, fieldsEqWith, beq_self_eq_true, Bool.true_and, Bool.and_eq_true, ih,
      List.forall_mem_cons]

/-! ## The two comparisons -/

/-- **A value equals itself** just if no NaN stands in it, where every handle equals itself. -/
theorem eqWith_self {same : Handle → Handle → Bool} (hsame : ∀ h, same h h = true) (v : Value) :
    eqWith same v v = true ↔ v.hasNaN = false := by
  induction v using nested_induction with
  | list items ih =>
    -- A list is its own copy with nothing changed.
    have hitems : itemsEqWith same items items = true ↔ ∀ v ∈ items, eqWith same v v = true := by
      simpa using itemsEqWith_map same id items
    rw [eqWith, hitems, hasNaN, hasNaNItems_eq_false]
    exact forall₂_congr ih
  | obj fields ih =>
    have hfields : fieldsEqWith same fields fields = true ↔
        ∀ entry ∈ fields, eqWith same entry.2 entry.2 = true := by
      simpa using fieldsEqWith_map same id fields
    rw [eqWith, hfields, hasNaN, hasNaNFields_eq_false]
    exact forall₂_congr ih
  | record h => simp [eqWith, hasNaN, hsame]
  | _ => simp [eqWith, hasNaN]

/-- **A detached copy equals the value it was taken from** just if neither a handle nor a NaN stands in
the value. -/
theorem eqWith_detach (same : Handle → Handle → Bool) (heap : Heap) (v : Value) :
    eqWith same (heap.detach v) v = true ↔ v.handles = [] ∧ v.hasNaN = false := by
  induction v using nested_induction with
  | list items ih =>
    rw [Heap.detach, eqWith, Heap.detachItems_eq_map, itemsEqWith_map, handles, handlesItems_eq_nil, hasNaN,
      hasNaNItems_eq_false, ← forall₂_and]
    exact forall₂_congr ih
  | obj fields ih =>
    rw [Heap.detach, eqWith, Heap.detachFields_eq_map, fieldsEqWith_map, handles, handlesFields_eq_nil,
      hasNaN, hasNaNFields_eq_false, ← forall₂_and]
    exact forall₂_congr ih
  | record h =>
    -- The copy is a plain object, which no handle equals, not even the one it was taken from.
    simp [Heap.detach, eqWith, handles]
  | _ => simp [Heap.detach, eqWith, handles, hasNaN]

end Value

namespace Heap

theorem same_self (heap : Heap) (h : Handle) : heap.same h h = true := by
  unfold same
  cases heap.size with
  | zero => exact beq_self_eq_true h
  | succ depth => rw [sameTo, beq_self_eq_true, Bool.true_or]

theorem equal_self (heap : Heap) (v : Value) : heap.equal v v = true ↔ v.hasNaN = false :=
  Value.eqWith_self heap.same_self v

end Heap

end ServiceEngine
