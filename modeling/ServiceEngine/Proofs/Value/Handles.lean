import Mathlib
import ServiceEngine.Value.Equality
import ServiceEngine.Value.Json

/-!
# Handles in values and the records that they reach

`Value.handles` lists the handles that stand in a value, at any depth. Records that hold handles in their
fields lead on to further records, so what is reached from a value is a walk in the graph `Heap.Holds`.

1. The walks over values ask about the handles that stand in them and no others
   (`Value.toJsonWith_congr`, `Value.eqWith_congr`, `Heap.detach_congr`).
2. In a plain heap no record holds a handle (`Heap.Plain`). Then a value reaches just the records whose
   handles stand in it, the bound on the depth of a walk is never felt, and what is written is plain again
   (`Heap.Plain.handles_detach`).
-/

namespace ServiceEngine

namespace Value

/-! ## Induction over values -/

/-- What holds of every value, by induction over the values inside it. -/
theorem nested_induction {P : Value → Prop}
    (null : P .null) (bool : ∀ b, P (.bool b)) (num : ∀ x, P (.num x)) (str : ∀ s, P (.str s))
    (list : ∀ items, (∀ v ∈ items, P v) → P (.list items))
    (obj : ∀ fields : Fields Value, (∀ entry ∈ fields, P entry.2) → P (.obj fields))
    (record : ∀ h, P (.record h)) (db : P .db) (entity : ∀ name, P (.entity name))
    (func : ∀ f, P (.func f)) (v : Value) : P v := by
  -- The types of values, lists, fields and entries are one nested family, with an induction
  -- hypothesis for each.
  refine @Value.rec P (fun items => ∀ v ∈ items, P v) (fun fields => ∀ entry ∈ fields, P entry.2)
    (fun entry => P entry.2) null bool num str list obj record db entity func ?_ ?_ ?_ ?_ ?_ v
  · intro v hmem
    cases hmem
  · intro v rest hv hrest
    exact List.forall_mem_cons.mpr ⟨hv, hrest⟩
  · intro entry hmem
    cases hmem
  · intro entry rest hentry hrest
    exact List.forall_mem_cons.mpr ⟨hentry, hrest⟩
  · intro name v hv
    exact hv

theorem itemsJsonWith_eq_map (follow : Handle → Json) (items : List Value) :
    itemsJsonWith follow items = items.map (toJsonWith follow) := by
  induction items with
  | nil => rfl
  | cons v rest ih => rw [itemsJsonWith, ih, List.map_cons]

theorem fieldsJsonWith_eq_map (follow : Handle → Json) (fields : Fields Value) :
    fieldsJsonWith follow fields = fields.map (fun entry => (entry.1, toJsonWith follow entry.2)) := by
  induction fields with
  | nil => rfl
  | cons entry rest ih => rw [fieldsJsonWith, ih, List.map_cons]

/-! ## Handles -/

mutual

/-- The handles that stand in a value, at any depth. -/
def handles : Value → List Handle
  | .record h => [h]
  | .list items => handlesItems items
  | .obj fields => handlesFields fields
  | .null => []
  | .bool _ => []
  | .num _ => []
  | .str _ => []
  | .db => []
  | .entity _ => []
  | .func _ => []

def handlesItems : List Value → List Handle
  | [] => []
  | v :: rest => handles v ++ handlesItems rest

def handlesFields : List (String × Value) → List Handle
  | [] => []
  | (_, v) :: rest => handles v ++ handlesFields rest

end

theorem mem_handlesItems {items : List Value} {h : Handle} :
    h ∈ handlesItems items ↔ ∃ v ∈ items, h ∈ v.handles := by
  induction items with
  | nil => simp [handlesItems]
  | cons v rest ih => simp [handlesItems, ih]

theorem mem_handlesFields {fields : Fields Value} {h : Handle} :
    h ∈ handlesFields fields ↔ ∃ entry ∈ fields, h ∈ entry.2.handles := by
  induction fields with
  | nil => simp [handlesFields]
  | cons entry rest ih => simp [handlesFields, ih]

theorem handlesItems_eq_nil {items : List Value} :
    handlesItems items = [] ↔ ∀ v ∈ items, v.handles = [] := by
  induction items with
  | nil => simp [handlesItems]
  | cons v rest ih => rw [handlesItems, List.append_eq_nil_iff, ih, List.forall_mem_cons]

theorem handlesFields_eq_nil {fields : Fields Value} :
    handlesFields fields = [] ↔ ∀ entry ∈ fields, entry.2.handles = [] := by
  simp only [List.eq_nil_iff_forall_not_mem, mem_handlesFields]
  constructor
  · intro hnone entry hentry h hmem
    exact hnone h ⟨entry, hentry, hmem⟩
  · rintro hnone h ⟨entry, hentry, hmem⟩
    exact hnone entry hentry h hmem

/-- Fields without handles stay so when a value without handles is written. -/
theorem handlesFields_insert {fields : Fields Value} {name : String} {v : Value}
    (hfields : handlesFields fields = []) (hv : v.handles = []) :
    handlesFields (Fields.insert fields name v) = [] := by
  rw [handlesFields_eq_nil] at *
  intro entry hentry
  rcases Fields.mem_insert hentry with rfl | hentry
  · exact hv
  · exact hfields entry hentry

theorem handlesFields_merge {base more : Fields Value} (hbase : handlesFields base = [])
    (hmore : handlesFields more = []) : handlesFields (Fields.merge base more) = [] := by
  induction more generalizing base with
  | nil => exact hbase
  | cons entry rest ih =>
    obtain ⟨hentry, hrest⟩ := List.forall_mem_cons.mp (handlesFields_eq_nil.mp hmore)
    exact ih (handlesFields_insert hbase hentry) (handlesFields_eq_nil.mpr hrest)

theorem handlesFields_erase {fields : Fields Value} (name : String) (h : handlesFields fields = []) :
    handlesFields (Fields.erase fields name) = [] := by
  rw [handlesFields_eq_nil] at *
  intro entry hentry
  exact h entry (List.mem_of_mem_filter hentry)

mutual

/-- What JSON spells holds no handle. -/
theorem handles_ofJson : (json : Json) → (ofJson json).handles = []
  | .null => rfl
  | .bool _ => rfl
  | .number _ => rfl
  | .string _ => rfl
  | .array items => by
    rw [ofJson, handles]
    exact handlesItems_ofItems items
  | .object members => by
    rw [ofJson, handles]
    exact handlesFields_ofMembers members

theorem handlesItems_ofItems : (items : List Json) → handlesItems (ofItems items) = []
  | [] => rfl
  | item :: rest => by
    rw [ofItems, handlesItems, handles_ofJson item, handlesItems_ofItems rest, List.nil_append]

theorem handlesFields_ofMembers : (members : List (String × Json)) → handlesFields (ofMembers members) = []
  | [] => rfl
  | (_, value) :: rest => by
    rw [ofMembers, handlesFields, handles_ofJson value, handlesFields_ofMembers rest, List.nil_append]

end

/-! ## Walks ask about the handles in a value only -/

/-- **How a value is shown** depends on how its handles are shown, and on no others. -/
theorem toJsonWith_congr {follow follow' : Handle → Json} {v : Value}
    (h : ∀ k ∈ v.handles, follow k = follow' k) : v.toJsonWith follow = v.toJsonWith follow' := by
  induction v using nested_induction with
  | list items ih =>
    rw [toJsonWith, toJsonWith, itemsJsonWith_eq_map, itemsJsonWith_eq_map]
    congr 1
    apply List.map_congr_left
    intro v hv
    exact ih v hv (fun k hk => h k (mem_handlesItems.mpr ⟨v, hv, hk⟩))
  | obj fields ih =>
    rw [toJsonWith, toJsonWith, fieldsJsonWith_eq_map, fieldsJsonWith_eq_map]
    congr 1
    apply List.map_congr_left
    intro entry hentry
    rw [ih entry hentry (fun k hk => h k (mem_handlesFields.mpr ⟨entry, hentry, hk⟩))]
  -- Only here a handle is followed.
  | record k => exact h k (by simp [handles])
  | _ => rfl

theorem itemsEqWith_congr {same same' : Handle → Handle → Bool} {items others : List Value}
    (h : ∀ v ∈ items, ∀ w ∈ others, eqWith same v w = eqWith same' v w) :
    itemsEqWith same items others = itemsEqWith same' items others := by
  induction items generalizing others with
  | nil => cases others <;> rfl
  | cons v rest ih =>
    cases others with
    | nil => rfl
    | cons w others =>
      rw [itemsEqWith, itemsEqWith, h v (by simp) w (by simp), ih]
      intro v hv w hw
      exact h v (List.mem_cons_of_mem _ hv) w (List.mem_cons_of_mem _ hw)

theorem fieldsEqWith_congr {same same' : Handle → Handle → Bool} {fields others : Fields Value}
    (h : ∀ a ∈ fields, ∀ b ∈ others, eqWith same a.2 b.2 = eqWith same' a.2 b.2) :
    fieldsEqWith same fields others = fieldsEqWith same' fields others := by
  induction fields generalizing others with
  | nil => cases others <;> rfl
  | cons a rest ih =>
    cases others with
    | nil => rfl
    | cons b others =>
      rw [fieldsEqWith, fieldsEqWith, h a (by simp) b (by simp), ih]
      intro a ha b hb
      exact h a (List.mem_cons_of_mem _ ha) b (List.mem_cons_of_mem _ hb)

/-- **Whether two values are equal** depends on how their handles compare, and on no others. -/
theorem eqWith_congr {same same' : Handle → Handle → Bool} {v w : Value}
    (h : ∀ a ∈ v.handles, ∀ b ∈ w.handles, same a b = same' a b) :
    eqWith same v w = eqWith same' v w := by
  -- The value on the other side is general, for each item is compared with another one there.
  induction v using nested_induction generalizing w with
  | list items ih =>
    cases w with
    | list others =>
      rw [eqWith, eqWith]
      apply itemsEqWith_congr
      intro v hv w hw
      apply ih v hv
      intro a ha b hb
      exact h a (mem_handlesItems.mpr ⟨v, hv, ha⟩) b (mem_handlesItems.mpr ⟨w, hw, hb⟩)
    | _ => rfl
  | obj fields ih =>
    cases w with
    | obj others =>
      rw [eqWith, eqWith]
      apply fieldsEqWith_congr
      intro v hv w hw
      apply ih v hv
      intro a ha b hb
      exact h a (mem_handlesFields.mpr ⟨v, hv, ha⟩) b (mem_handlesFields.mpr ⟨w, hw, hb⟩)
    | _ => rfl
  | record a =>
    cases w with
    | record b => exact h a (by simp [handles]) b (by simp [handles])
    | _ => rfl
  | _ => cases w <;> rfl

end Value

/-- The handles that stand in the fields of a record. -/
def Record.handles (r : Record) : List Handle := Value.handlesFields r.fields

/-- How a record looks depends on how the handles in it are shown, and on no others. -/
theorem Record.jsonWith_congr {r : Record} {follow follow' : Handle → Json}
    (h : ∀ k ∈ r.handles, follow k = follow' k) : r.jsonWith follow = r.jsonWith follow' := by
  have hfields : (Value.obj r.fields).toJsonWith follow = (Value.obj r.fields).toJsonWith follow' :=
    Value.toJsonWith_congr h
  rw [Value.toJsonWith, Value.toJsonWith, Json.object.injEq] at hfields
  rw [jsonWith, jsonWith, hfields]

/-- Whether two records are equal depends on how the handles in them compare, and on no others. -/
theorem Record.eqWith_congr {r other : Record} {same same' : Handle → Handle → Bool}
    (h : ∀ a ∈ r.handles, ∀ b ∈ other.handles, same a b = same' a b) :
    Record.eqWith same r other = Record.eqWith same' r other := by
  have hfields : Value.eqWith same (.obj r.fields) (.obj other.fields) =
      Value.eqWith same' (.obj r.fields) (.obj other.fields) := Value.eqWith_congr h
  rw [Value.eqWith, Value.eqWith] at hfields
  rw [Record.eqWith, Record.eqWith, hfields]

namespace Heap

theorem detachItems_eq_map (heap : Heap) (items : List Value) :
    heap.detachItems items = items.map heap.detach := by
  induction items with
  | nil => rfl
  | cons v rest ih => rw [detachItems, ih, List.map_cons]

theorem detachFields_eq_map (heap : Heap) (fields : Fields Value) :
    heap.detachFields fields = fields.map (fun entry => (entry.1, heap.detach entry.2)) := by
  induction fields with
  | nil => rfl
  | cons entry rest ih => rw [detachFields, ih, List.map_cons]

/-- A copy depends on the records of the handles in the value, and on no others. -/
theorem detach_congr {heap other : Heap} {v : Value} (h : ∀ k ∈ v.handles, heap.get k = other.get k) :
    heap.detach v = other.detach v := by
  induction v using Value.nested_induction with
  | list items ih =>
    rw [detach, detach, detachItems_eq_map, detachItems_eq_map]
    congr 1
    apply List.map_congr_left
    intro v hv
    exact ih v hv (fun k hk => h k (Value.mem_handlesItems.mpr ⟨v, hv, hk⟩))
  | obj fields ih =>
    rw [detach, detach, detachFields_eq_map, detachFields_eq_map]
    congr 1
    apply List.map_congr_left
    intro entry hentry
    rw [ih entry hentry (fun k hk => h k (Value.mem_handlesFields.mpr ⟨entry, hentry, hk⟩))]
  -- Only here the heap is read.
  | record k => rw [detach, detach, h k (by simp [Value.handles])]
  | _ => rfl

/-- A value without handles is its own copy. -/
theorem detach_of_plain (heap : Heap) {v : Value} (h : v.handles = []) : heap.detach v = v := by
  induction v using Value.nested_induction with
  | list items ih =>
    rw [detach, detachItems_eq_map]
    have hitems := Value.handlesItems_eq_nil.mp h
    rw [List.map_congr_left (fun v hv => ih v hv (hitems v hv)), List.map_id']
  | obj fields ih =>
    rw [detach, detachFields_eq_map]
    have hfields := Value.handlesFields_eq_nil.mp h
    rw [List.map_congr_left (fun entry hentry => by rw [ih entry hentry (hfields entry hentry)])]
    exact congrArg Value.obj (List.map_id' fields)
  | record k => cases h
  | _ => rfl

theorem detachFields_of_plain (heap : Heap) {fields : Fields Value}
    (h : Value.handlesFields fields = []) : heap.detachFields fields = fields :=
  Value.obj.inj (heap.detach_of_plain (v := .obj fields) h)

/-! ## What a value reaches -/

/-- The record of one handle holds the other handle in its fields. -/
def Holds (heap : Heap) (outer inner : Handle) : Prop := inner ∈ (heap.get outer).handles

/-- **The handles in a detached value** stand in the copies that have taken the place of the handles before. -/
theorem mem_handles_detach {heap : Heap} {v : Value} {k : Handle} :
    k ∈ (heap.detach v).handles ↔ ∃ h ∈ v.handles, k ∈ Value.handlesFields (heap.get h).flatten := by
  induction v using Value.nested_induction with
  -- Items and fields are detached one by one; a record gives up its handle and keeps those in its fields.
  | list items ih =>
    rw [detach, detachItems_eq_map]
    constructor
    · intro hk
      obtain ⟨w, hw, hk⟩ := Value.mem_handlesItems.mp hk
      obtain ⟨v, hv, rfl⟩ := List.mem_map.mp hw
      obtain ⟨h, hh, hk⟩ := (ih v hv).mp hk
      exact ⟨h, Value.mem_handlesItems.mpr ⟨v, hv, hh⟩, hk⟩
    · rintro ⟨h, hh, hk⟩
      obtain ⟨v, hv, hh⟩ := Value.mem_handlesItems.mp hh
      exact Value.mem_handlesItems.mpr ⟨_, List.mem_map_of_mem hv, (ih v hv).mpr ⟨h, hh, hk⟩⟩
  | obj fields ih =>
    rw [detach, detachFields_eq_map]
    constructor
    · intro hk
      obtain ⟨entry, hentry, hk⟩ := Value.mem_handlesFields.mp hk
      obtain ⟨field, hfield, rfl⟩ := List.mem_map.mp hentry
      obtain ⟨h, hh, hk⟩ := (ih field hfield).mp hk
      exact ⟨h, Value.mem_handlesFields.mpr ⟨field, hfield, hh⟩, hk⟩
    · rintro ⟨h, hh, hk⟩
      obtain ⟨field, hfield, hh⟩ := Value.mem_handlesFields.mp hh
      exact Value.mem_handlesFields.mpr ⟨_, List.mem_map_of_mem hfield, (ih field hfield).mpr ⟨h, hh, hk⟩⟩
  | record h => simp [detach, Value.handles]
  | _ => simp [detach, Value.handles]

/-- What a detached copy holds is held by a record that it is a copy of. -/
theorem exists_holds_of_mem_detach {heap : Heap} {v : Value} {k : Handle} (hk : k ∈ (heap.detach v).handles) :
    ∃ h ∈ v.handles, heap.Holds h k := by
  obtain ⟨h, hh, hk⟩ := mem_handles_detach.mp hk
  refine ⟨h, hh, ?_⟩
  -- The copy of a record has its fields and its id, which is a number.
  obtain ⟨entry, hentry, hk⟩ := Value.mem_handlesFields.mp hk
  rcases Fields.mem_insert hentry with rfl | hentry
  · cases hk
  · exact Value.mem_handlesFields.mpr ⟨entry, hentry, hk⟩

/-- A value reaches the records of its handles, and those whose handles these records hold, and so on. -/
def Reaches (heap : Heap) (v : Value) (h : Handle) : Prop :=
  ∃ start ∈ v.handles, Relation.ReflTransGen heap.Holds start h

/-- All that a value reaches are records, and they are the same records in the other heap. -/
def SameFor (heap other : Heap) (v : Value) : Prop :=
  ∀ h, heap.Reaches v h → h.index < heap.size ∧ h.index < other.size ∧ other.get h = heap.get h

/-- No record holds a handle. -/
def Plain (heap : Heap) : Prop := ∀ h, (heap.get h).handles = []

namespace Plain

variable {heap : Heap}

theorem not_holds (hplain : heap.Plain) (outer inner : Handle) : ¬ heap.Holds outer inner := by
  unfold Holds
  rw [hplain outer]
  exact List.not_mem_nil

/-- In a plain heap there are no circles. -/
theorem acyclic (hplain : heap.Plain) (h : Handle) : ¬ Relation.TransGen heap.Holds h h := by
  intro hcycle
  obtain ⟨next, hfirst, -⟩ := Relation.TransGen.head'_iff.mp hcycle
  exact hplain.not_holds h next hfirst

/-- In a plain heap the walk ends with the handles of the value. -/
theorem reaches_iff (hplain : heap.Plain) {v : Value} {h : Handle} : heap.Reaches v h ↔ h ∈ v.handles := by
  constructor
  · rintro ⟨start, hstart, hpath⟩
    rcases Relation.ReflTransGen.cases_head hpath with rfl | ⟨next, hfirst, -⟩
    · exact hstart
    · exact absurd hfirst (hplain.not_holds start next)
  · intro hmem
    exact ⟨h, hmem, .refl⟩

/-- In a plain heap only so many records are reached from a value as handles stand in it. -/
theorem finite_reaches (hplain : heap.Plain) (v : Value) : {h | heap.Reaches v h}.Finite := by
  refine v.handles.finite_toSet.subset ?_
  intro h hreach
  exact hplain.reaches_iff.mp hreach

/-- **What is detached in a plain heap holds no handle**, whatever the value held before. -/
theorem handles_detach (hplain : heap.Plain) (v : Value) : (heap.detach v).handles = [] := by
  rw [List.eq_nil_iff_forall_not_mem]
  intro k hk
  obtain ⟨h, -, hholds⟩ := exists_holds_of_mem_detach hk
  exact hplain.not_holds h k hholds

theorem handlesFields_detachFields (hplain : heap.Plain) (fields : Fields Value) :
    Value.handlesFields (heap.detachFields fields) = [] := by
  have hobj := hplain.handles_detach (.obj fields)
  rwa [detach, Value.handles] at hobj

end Plain

/-! ## The bound on the depth of a walk -/

/-- A record without handles is shown by one step of the walk. -/
theorem recordJson_of_plain {heap : Heap} {h : Handle} (hlive : h.index < heap.size)
    (hplain : (heap.get h).handles = []) (follow : Handle → Json) :
    heap.recordJson h = (heap.get h).jsonWith follow := by
  -- There is a record, so the walk may take its first step, and it needs no other.
  obtain ⟨depth, hsize⟩ : ∃ depth, heap.size = depth + 1 := ⟨heap.size - 1, by omega⟩
  rw [recordJson, hsize, recordJsonTo]
  exact Record.jsonWith_congr (by simp [hplain])

theorem same_of_plain {heap : Heap} {a : Handle} (hlive : a.index < heap.size)
    (hplain : (heap.get a).handles = []) (b : Handle) (compare : Handle → Handle → Bool) :
    heap.same a b = (a == b || Record.eqWith compare (heap.get a) (heap.get b)) := by
  obtain ⟨depth, hsize⟩ : ∃ depth, heap.size = depth + 1 := ⟨heap.size - 1, by omega⟩
  have hrecords : Record.eqWith (heap.sameTo depth) (heap.get a) (heap.get b) =
      Record.eqWith compare (heap.get a) (heap.get b) := Record.eqWith_congr (by simp [hplain])
  rw [same, hsize, sameTo, hrecords]

namespace Plain

variable {heap other : Heap}

/-- The record of a handle that stands in the value is there in both heaps, without handles. -/
theorem sameFor_get (hplain : heap.Plain) {v : Value} (hsame : heap.SameFor other v) {h : Handle}
    (hmem : h ∈ v.handles) :
    h.index < heap.size ∧ h.index < other.size ∧ other.get h = heap.get h :=
  hsame h (hplain.reaches_iff.mpr hmem)

/-- **A value is shown alike in heaps that agree on what it reaches.** -/
theorem json_eq (hplain : heap.Plain) {v : Value} (hsame : heap.SameFor other v) :
    other.json v = heap.json v := by
  apply Value.toJsonWith_congr
  intro k hk
  obtain ⟨hlive, hlive', hget⟩ := hplain.sameFor_get hsame hk
  rw [recordJson_of_plain hlive (hplain k) heap.recordJson,
    recordJson_of_plain hlive' (hget ▸ hplain k) heap.recordJson, hget]

theorem display_eq (hplain : heap.Plain) {v : Value} (hsame : heap.SameFor other v) :
    other.display v = heap.display v := by
  unfold display
  rw [hplain.json_eq hsame]

theorem detach_eq (hplain : heap.Plain) {v : Value} (hsame : heap.SameFor other v) :
    other.detach v = heap.detach v := by
  apply detach_congr
  intro k hk
  exact (hplain.sameFor_get hsame hk).2.2

theorem equal_eq (hplain : heap.Plain) {v w : Value} (hv : heap.SameFor other v)
    (hw : heap.SameFor other w) : other.equal v w = heap.equal v w := by
  apply Value.eqWith_congr
  intro a ha b hb
  obtain ⟨hlive, hlive', hget⟩ := hplain.sameFor_get hv ha
  obtain ⟨-, -, hget'⟩ := hplain.sameFor_get hw hb
  rw [same_of_plain hlive (hplain a) b heap.same, same_of_plain hlive' (hget ▸ hplain a) b heap.same,
    hget, hget']

end Plain

end Heap

end ServiceEngine
