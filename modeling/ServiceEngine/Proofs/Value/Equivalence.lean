import Mathlib
import ServiceEngine.Proofs.Lists
import ServiceEngine.Proofs.Value.Depth
import ServiceEngine.Proofs.Value.Reflexive

/-!
# The laws of equality

Filters, deletes and the operator `==` compare values. The comparison is symmetric and transitive, though not
reflexive, and equal values look the same: they have the same kind, the same truth, the same JSON and the
same text.

1. Two values are equal by their kind, and what is inside them is equal place by place
   (`Value.eqWith_induction`). The laws follow from the same laws for handles.
2. Handles are compared to a bounded depth. The laws hold at depth zero, where only a handle itself is equal
   to it, and each depth passes them on to the next (`Heap.sameTo_symm`, `Heap.sameTo_trans`,
   `Heap.recordJsonTo_eq_of_sameTo`), so it makes no difference by which of the two ways records are equal.
-/

namespace ServiceEngine

/-! ## Equal lists and maps -/

namespace Value

variable {same : Handle → Handle → Bool}

/-- Two entries have the same name and related values. -/
def Entries (R : Value → Value → Prop) (a b : String × Value) : Prop := a.1 = b.1 ∧ R a.2 b.2

/-- Lists are equal place by place. -/
theorem itemsEqWith_iff {items others : List Value} :
    itemsEqWith same items others = true ↔ List.Forall₂ (fun v w => eqWith same v w = true) items others := by
  induction items generalizing others with
  | nil => cases others <;> simp [itemsEqWith]
  | cons v rest ih => cases others <;> simp [itemsEqWith, ih]

theorem fieldsEqWith_iff {fields others : Fields Value} :
    fieldsEqWith same fields others = true ↔
      List.Forall₂ (Entries (fun v w => eqWith same v w = true)) fields others := by
  induction fields generalizing others with
  | nil => cases others <;> simp [fieldsEqWith]
  | cons a rest ih => cases others <;> simp [fieldsEqWith, Entries, ih]

/-- Nothing inside the value is compared on its own, and it equals itself. -/
def isAtom : Value → Bool
  | .null => true
  | .bool _ => true
  | .str _ => true
  | .db => true
  | .entity _ => true
  | .func _ => true
  | .num _ => false
  | .list _ => false
  | .obj _ => false
  | .record _ => false

/-- **What holds of all equal values**, by induction over the values inside them. -/
theorem eqWith_induction {P : Value → Value → Prop} (atom : ∀ v, v.isAtom = true → P v v)
    (num : ∀ x y : Float, (x == y) = true → P (.num x) (.num y))
    (list : ∀ items others, List.Forall₂ P items others → P (.list items) (.list others))
    (obj : ∀ fields others : Fields Value, List.Forall₂ (Entries P) fields others →
      P (.obj fields) (.obj others))
    (record : ∀ a b, same a b = true → P (.record a) (.record b)) {v w : Value}
    (h : eqWith same v w = true) : P v w := by
  -- Values of two kinds are never equal, so each case has one value on the other side.
  induction v using nested_induction generalizing w with
  | num x =>
    cases w with
    | num y => exact num x y h
    | _ => cases h
  | list items ih =>
    cases w with
    | list others =>
      -- Items that are equal satisfy the hypothesis, place by place.
      have hitems := (List.forall₂_and_left _ _).mpr ⟨ih, itemsEqWith_iff.mp h⟩
      exact list items others (hitems.imp (fun _ _ hpair => hpair.1 hpair.2))
    | _ => cases h
  | obj fields ih =>
    cases w with
    | obj others =>
      have hfields := (List.forall₂_and_left _ _).mpr ⟨ih, fieldsEqWith_iff.mp h⟩
      exact obj fields others (hfields.imp (fun _ _ hpair => ⟨hpair.2.1, hpair.1 hpair.2.2⟩))
    | _ => cases h
  | record a =>
    cases w with
    | record b => exact record a b h
    | _ => cases h
  | null =>
    cases w with
    | null => exact atom _ rfl
    | _ => cases h
  | db =>
    cases w with
    | db => exact atom _ rfl
    | _ => cases h
  | bool b =>
    cases w with
    | bool c =>
      obtain rfl := beq_iff_eq.mp h
      exact atom _ rfl
    | _ => cases h
  | str s =>
    cases w with
    | str t =>
      obtain rfl := beq_iff_eq.mp h
      exact atom _ rfl
    | _ => cases h
  | entity name =>
    cases w with
    | entity other =>
      obtain rfl := beq_iff_eq.mp h
      exact atom _ rfl
    | _ => cases h
  | func f =>
    cases w with
    | func g =>
      obtain rfl := beq_iff_eq.mp h
      exact atom _ rfl
    | _ => cases h

/-! ## Laws that handles pass on to values -/

/-- Equality of values is symmetric if that of handles is. -/
theorem eqWith_symm (hsame : ∀ a b, same a b = true → same b a = true) {v w : Value}
    (h : eqWith same v w = true) : eqWith same w v = true := by
  apply eqWith_induction (P := fun v w => eqWith same w v = true) _ _ _ _ _ h
  · intro v hatom
    cases v <;> simp_all [eqWith, isAtom]
  · intro x y hxy
    exact BEq.symm hxy
  · intro items others hitems
    exact itemsEqWith_iff.mpr hitems.flip
  · intro fields others hfields
    apply fieldsEqWith_iff.mpr
    exact List.Forall₂.flip (hfields.imp (fun _ _ hpair => ⟨hpair.1.symm, hpair.2⟩))
  · exact hsame

/-- Equality of values is transitive if that of handles is. -/
theorem eqWith_trans (hsame : ∀ a b c, same a b = true → same b c = true → same a c = true) {u v w : Value}
    (huv : eqWith same u v = true) (hvw : eqWith same v w = true) : eqWith same u w = true := by
  -- The third value is general, for what is inside is compared with what is inside it.
  refine eqWith_induction (P := fun u v => ∀ w, eqWith same v w = true → eqWith same u w = true)
    ?_ ?_ ?_ ?_ ?_ huv w hvw
  · intro v _ w hvw
    exact hvw
  · intro x y hxy w hvw
    cases w with
    | num z => exact BEq.trans hxy hvw
    | _ => cases hvw
  · intro items others hitems w hvw
    cases w with
    | list thirds =>
      have hthirds := itemsEqWith_iff.mp hvw
      exact itemsEqWith_iff.mpr (forall₂_pass hitems hthirds)
    | _ => cases hvw
  · intro fields others hfields w hvw
    cases w with
    | obj thirds =>
      have hthirds := fieldsEqWith_iff.mp hvw
      apply fieldsEqWith_iff.mpr
      refine forall₂_pass (hfields.imp ?_) hthirds
      rintro a b ⟨hname, hpass⟩ c ⟨hname', hbc⟩
      exact ⟨hname.trans hname', hpass c.2 hbc⟩
    | _ => cases hvw
  · intro a b hab w hvw
    cases w with
    | record c => exact hsame a b c hab hvw
    | _ => cases hvw

/-- The two zeros are the only floats that are equal and not the same. -/
theorem eq_or_zeros_of_beq {x y : Float} (h : (x == y) = true) :
    x = y ∨ (x = 0 ∧ y = -0) ∨ (x = -0 ∧ y = 0) :=
  (Float.beq_iff_ne_nan_and_eq.mp h).2.2

theorem numberJson_eq_of_beq {x y : Float} (h : (x == y) = true) : numberJson x = numberJson y := by
  obtain rfl | ⟨rfl, rfl⟩ | ⟨rfl, rfl⟩ := eq_or_zeros_of_beq h <;> rfl

/-- Equal values look the same if equal handles do. -/
theorem toJsonWith_eq_of_eqWith {follow : Handle → Json}
    (hsame : ∀ a b, same a b = true → follow a = follow b) {v w : Value} (h : eqWith same v w = true) :
    v.toJsonWith follow = w.toJsonWith follow := by
  apply eqWith_induction (P := fun v w => v.toJsonWith follow = w.toJsonWith follow) _ _ _ _ _ h
  · intro v _
    rfl
  · intro x y hxy
    exact numberJson_eq_of_beq hxy
  · intro items others hitems
    rw [toJsonWith, toJsonWith, itemsJsonWith_eq_map, itemsJsonWith_eq_map, map_eq_map_of_forall₂ hitems]
  · intro fields others hfields
    rw [toJsonWith, toJsonWith, fieldsJsonWith_eq_map, fieldsJsonWith_eq_map]
    apply congrArg Json.object
    exact map_eq_map_of_forall₂ (hfields.imp (fun _ _ hpair => Prod.ext hpair.1 hpair.2))
  · exact hsame

theorem kind_eq_of_eqWith {v w : Value} (h : eqWith same v w = true) : v.kind = w.kind := by
  apply eqWith_induction (P := fun v w => v.kind = w.kind) _ _ _ _ _ h <;> intros <;> rfl

theorem isTruthy_eq_of_eqWith {v w : Value} (h : eqWith same v w = true) : v.isTruthy = w.isTruthy := by
  apply eqWith_induction (P := fun v w => v.isTruthy = w.isTruthy) _ _ _ _ _ h
  · intro v _
    rfl
  · intro x y hxy
    -- Both zeros are false.
    obtain rfl | ⟨rfl, rfl⟩ | ⟨rfl, rfl⟩ := eq_or_zeros_of_beq hxy <;> rfl
  · exact fun _ _ _ => rfl
  · exact fun _ _ _ => rfl
  · exact fun _ _ _ => rfl

end Value

/-! ## Records -/

namespace Record

variable {same : Handle → Handle → Bool} {a b c : Record}

/-- Records are equal if they have the same id and their fields are equal as objects. -/
theorem eqWith_iff :
    Record.eqWith same a b = true ↔ a.id = b.id ∧ Value.eqWith same (.obj a.fields) (.obj b.fields) = true := by
  rw [Record.eqWith, Value.eqWith, Bool.and_eq_true, beq_iff_eq]

/-- Equal records look the same if equal handles do. -/
theorem jsonWith_eq_of_eqWith {follow : Handle → Json}
    (hsame : ∀ a b, same a b = true → follow a = follow b) (h : Record.eqWith same a b = true) :
    a.jsonWith follow = b.jsonWith follow := by
  obtain ⟨hid, hfields⟩ := eqWith_iff.mp h
  have hobjects := Value.toJsonWith_eq_of_eqWith hsame hfields
  rw [Value.toJsonWith, Value.toJsonWith, Json.object.injEq] at hobjects
  rw [jsonWith, jsonWith, hid, hobjects]

end Record

namespace Heap

variable {heap : Heap}

/-- Handles are equal at a depth if they are the same, or if their records are equal one level
less deep. -/
theorem sameTo_succ_iff {depth : Nat} {a b : Handle} :
    heap.sameTo (depth + 1) a b = true ↔
      a = b ∨ Record.eqWith (heap.sameTo depth) (heap.get a) (heap.get b) = true := by
  rw [sameTo, Bool.or_eq_true, beq_iff_eq]

/-- By induction on the depth, the laws for handles and for values take turns. -/
theorem sameTo_symm {depth : Nat} {a b : Handle} (h : heap.sameTo depth a b = true) :
    heap.sameTo depth b a = true := by
  induction depth generalizing a b with
  | zero => exact beq_iff_eq.mpr (beq_iff_eq.mp h).symm
  | succ depth ih =>
    rw [sameTo_succ_iff] at h ⊢
    rcases h with rfl | h
    · exact .inl rfl
    · obtain ⟨hid, hfields⟩ := Record.eqWith_iff.mp h
      exact .inr (Record.eqWith_iff.mpr ⟨hid.symm, Value.eqWith_symm (fun _ _ => ih) hfields⟩)

theorem sameTo_trans {depth : Nat} {a b c : Handle} (hab : heap.sameTo depth a b = true)
    (hbc : heap.sameTo depth b c = true) : heap.sameTo depth a c = true := by
  induction depth generalizing a b c with
  | zero => exact beq_iff_eq.mpr ((beq_iff_eq.mp hab).trans (beq_iff_eq.mp hbc))
  | succ depth ih =>
    -- A handle that is the same changes nothing; two pairs of equal records make a third.
    rw [sameTo_succ_iff] at hab hbc
    rcases hab with rfl | hab
    · exact sameTo_succ_iff.mpr hbc
    · rcases hbc with rfl | hbc
      · exact sameTo_succ_iff.mpr (.inr hab)
      · obtain ⟨hid, hfields⟩ := Record.eqWith_iff.mp hab
        obtain ⟨hid', hfields'⟩ := Record.eqWith_iff.mp hbc
        refine sameTo_succ_iff.mpr (.inr (Record.eqWith_iff.mpr ⟨hid.trans hid', ?_⟩))
        refine Value.eqWith_trans ?_ hfields hfields'
        exact fun _ _ _ => ih

/-- Handles that are equal at a depth are shown alike at this depth. -/
theorem recordJsonTo_eq_of_sameTo {depth : Nat} {a b : Handle} (h : heap.sameTo depth a b = true) :
    heap.recordJsonTo depth a = heap.recordJsonTo depth b := by
  induction depth generalizing a b with
  | zero => rfl
  | succ depth ih =>
    rcases sameTo_succ_iff.mp h with rfl | h
    · rfl
    · exact Record.jsonWith_eq_of_eqWith (fun _ _ => ih) h

/-! ## Values -/

theorem equal_symm {v w : Value} (h : heap.equal v w = true) : heap.equal w v = true :=
  Value.eqWith_symm (fun _ _ => sameTo_symm) h

theorem equal_trans {u v w : Value} (huv : heap.equal u v = true) (hvw : heap.equal v w = true) :
    heap.equal u w = true := by
  refine Value.eqWith_trans ?_ huv hvw
  exact fun _ _ _ => sameTo_trans

theorem json_eq_of_equal {v w : Value} (h : heap.equal v w = true) : heap.json v = heap.json w :=
  Value.toJsonWith_eq_of_eqWith (fun _ _ hab => recordJsonTo_eq_of_sameTo hab) h

/-- Equal values are displayed alike. -/
theorem display_eq_of_equal {v w : Value} (h : heap.equal v w = true) : heap.display v = heap.display w := by
  -- Only a string is not displayed as its JSON, and it equals strings only.
  have hjson := json_eq_of_equal h
  have hkind := Value.kind_eq_of_eqWith h
  cases v with
  | str s =>
    cases w with
    | str t => exact Json.string.inj hjson
    | _ => cases hkind
  | _ =>
    cases w with
    | str t => cases hkind
    | _ => exact congrArg Json.compact hjson

/-- **Equality of values is a partial equivalence and a congruence.** It is symmetric and transitive; a value
equals itself just if no NaN stands in it, whatever the records hold whose handles stand in it; and equal
values have the same kind, the same truth, the same JSON and the same text. In a heap where no record
reaches itself, handles are equal just if they are the same or their records have the same id and equal
fields, however deep the handles in these lead. -/
theorem equality_laws (heap : Heap) :
    (∀ v w, heap.equal v w = heap.equal w v) ∧
    (∀ u v w, heap.equal u v = true → heap.equal v w = true → heap.equal u w = true) ∧
    (∀ v, heap.equal v v = true ↔ v.hasNaN = false) ∧
    (∀ v w, heap.equal v w = true → v.kind = w.kind ∧ v.isTruthy = w.isTruthy ∧ heap.json v = heap.json w ∧
      heap.display v = heap.display w) ∧
    (heap.Proper → ∀ a b, heap.Owns (.record a) → (heap.equal (.record a) (.record b) = true ↔
      a = b ∨ (heap.get a).id = (heap.get b).id ∧
        heap.equal (.obj (heap.get a).fields) (.obj (heap.get b).fields) = true)) := by
  refine ⟨?_, fun u v w => equal_trans, heap.equal_self, ?_, ?_⟩
  · intro v w
    rw [Bool.eq_iff_iff]
    exact ⟨equal_symm, equal_symm⟩
  · intro v w h
    exact ⟨Value.kind_eq_of_eqWith h, Value.isTruthy_eq_of_eqWith h, json_eq_of_equal h, display_eq_of_equal h⟩
  · intro hheap a b howns
    have hlive : a.index < heap.size := howns a (by simp [Value.handles])
    show heap.same a b = true ↔ _
    rw [hheap.same_eq hlive, Bool.or_eq_true, beq_iff_eq, Record.eqWith_iff]
    rfl

/-- Two records that share an owner with a NaN are equal though the owner has no equal but itself, and lists
with them and with the two zeros are equal and look the same. -/
theorem equality_laws_of_shared_owner :
    let heap : Heap := ⟨#[⟨7, .ofEntries [("score", .num (0 / 0))]⟩,
      ⟨3, .ofEntries [("owner", .record ⟨0⟩)]⟩, ⟨3, .ofEntries [("owner", .record ⟨0⟩)]⟩]⟩
    let v : Value := .list [.record ⟨1⟩, .num 0]
    let w : Value := .list [.record ⟨2⟩, .num (-0)]
    heap.Proper ∧ heap.equal (.record ⟨1⟩) (.record ⟨2⟩) = true ∧ heap.equal v w = true ∧
      heap.equal v v = true ∧ heap.json v = heap.json w := by
  intro heap v w
  obtain ⟨hsymm, htrans, hself, hcongr, hrecords⟩ := equality_laws heap
  have hproper : heap.Proper := proper_of_older (by decide)
  have howns : heap.Owns (.record ⟨1⟩) := by
    intro k hk
    obtain rfl := List.mem_singleton.mp hk
    decide
  have hfields := (hself (.obj [("owner", .record ⟨0⟩)])).mpr rfl
  have hvw : heap.equal v w = true := rfl
  have hwv : heap.equal w v = true := (hsymm w v).trans hvw
  exact ⟨hproper, (hrecords hproper ⟨1⟩ ⟨2⟩ howns).mpr (.inr ⟨rfl, hfields⟩), hvw, htrans v w v hvw hwv,
    (hcongr v w hvw).2.2.1⟩

end Heap

end ServiceEngine
