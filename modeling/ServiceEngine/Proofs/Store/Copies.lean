import Mathlib
import ServiceEngine.Proofs.Store.Plain
import ServiceEngine.Proofs.Store.Updates
import ServiceEngine.Proofs.Value.Depth
import ServiceEngine.Proofs.Value.RoundTrip

/-!
# Copies look like what they were taken from

A handle is shown by its record: the fields, and over them the id, which is a word. What is stored instead of
the handle is an object with the same fields and the id as a number, which is shown later and by other rules.
The two agree as long as the id is a whole number that a float holds (`Heap.Proper.json_detach`).

1. Writing fields and showing them commute (`Fields.mapValues_insert`, `Fields.mapValues_merge`), so an object
   made from a record is shown as the record.
2. A write changes one record (`Heap.Written`). It closes a circle just if something in the new record led to
   it before (`Heap.Written.acyclic_iff`). If it closes none, the new record is shown with the fields in it
   shown as before the write (`Heap.Written.recordJson_eq`).

Together: the record after a write shows what the live values showed at the moment of the write
(`Store.copies_show_same`). The condition on the store holds after every history in which the host keeps to the
rules, and then no write can close a circle (`Store.proper_afterActions`).
-/

namespace ServiceEngine

open Relation (TransGen ReflTransGen)

/-! ## A record and the object made from it -/

theorem Value.fieldsJsonWith_eq_mapValues (follow : Handle → Json) (fields : Fields Value) :
    fieldsJsonWith follow fields = fields.mapValues (toJsonWith follow) :=
  fieldsJsonWith_eq_map follow fields

namespace Record

/-- An id that a float holds is shown as a number in the way it is shown as a word. -/
theorem toJsonWith_idValue (follow : Handle → Json) {r : Record} (hid : r.id.toNat < 2 ^ 53) :
    r.idValue.toJsonWith follow = .number (.ofWord r.id) :=
  Value.numberJson_of_small (Decimal.whole?_floatOfNat hid) hid

theorem toJsonWith_flatten (follow : Handle → Json) {r : Record} (hid : r.id.toNat < 2 ^ 53) :
    (Value.obj r.flatten).toJsonWith follow = r.jsonWith follow := by
  rw [Value.toJsonWith, jsonWith, flatten, Value.fieldsJsonWith_eq_mapValues, FieldMap.entries_insert,
    Fields.mapValues_insert, toJsonWith_idValue follow hid, Value.fieldsJsonWith_eq_mapValues]

end Record

namespace Heap

variable {heap other : Heap}

/-- The records that detaching a value copies have ids below `2 ^ 53`, where no whole number is missing among
the floats. -/
def Exact (heap : Heap) (v : Value) : Prop := ∀ k ∈ v.handles, (heap.get k).id.toNat < 2 ^ 53

/-- **A detached value looks like the value**, at whatever depth the handles stand in it. -/
theorem Proper.json_detach (hheap : heap.Proper) {v : Value} (howns : heap.Owns v) (hexact : heap.Exact v) :
    heap.json (heap.detach v) = heap.json v := by
  -- By induction on the value; lists and objects are shown item by item, under the hypotheses for
  -- each item.
  induction v using Value.nested_induction with
  | list items ih =>
    rw [detach, detachItems_eq_map, json, json, Value.toJsonWith, Value.toJsonWith,
      Value.itemsJsonWith_eq_map, Value.itemsJsonWith_eq_map, List.map_map]
    apply congrArg Json.array
    apply List.map_congr_left
    intro v hv
    have hmem : ∀ k ∈ v.handles, k ∈ (Value.list items).handles :=
      fun k hk => Value.mem_handlesItems.mpr ⟨v, hv, hk⟩
    exact ih v hv (fun k hk => howns k (hmem k hk)) (fun k hk => hexact k (hmem k hk))
  | obj fields ih =>
    rw [detach, detachFields_eq_map, json, json, Value.toJsonWith, Value.toJsonWith,
      Value.fieldsJsonWith_eq_map, Value.fieldsJsonWith_eq_map, List.map_map]
    apply congrArg Json.object
    apply List.map_congr_left
    intro entry hentry
    have hmem : ∀ k ∈ entry.2.handles, k ∈ (Value.obj fields).handles :=
      fun k hk => Value.mem_handlesFields.mpr ⟨entry, hentry, hk⟩
    have hvalue := ih entry hentry (fun k hk => howns k (hmem k hk)) (fun k hk => hexact k (hmem k hk))
    exact Prod.ext rfl hvalue
  | record h =>
    -- Here the two ways to show an id meet. Fields are shown in one way only.
    have hmem : h ∈ (Value.record h).handles := List.mem_singleton_self h
    rw [detach]
    exact (Record.toJsonWith_flatten _ (hexact h hmem)).trans (hheap.recordJson_eq (howns h hmem)).symm
  | _ => rfl

/-- From `2 ^ 53` on the copy of a record shows its id as a float. -/
example :
    let heap : Heap := ⟨#[⟨9007199254740992, .empty⟩]⟩
    (heap.json (.record ⟨0⟩)).compact = "\x7b\"id\":9007199254740992\x7d" ∧
      (heap.json (heap.detach (.record ⟨0⟩))).compact = "\x7b\"id\":9007199254740992.0\x7d" := by
  decide +kernel

theorem Proper.mapValues_detachFields (hheap : heap.Proper) {fields : Fields Value}
    (howns : heap.Owns (.obj fields)) (hexact : heap.Exact (.obj fields)) :
    Fields.mapValues (Value.toJsonWith heap.recordJson) (heap.detachFields fields) =
      fields.mapValues (Value.toJsonWith heap.recordJson) := by
  rw [← Value.fieldsJsonWith_eq_mapValues, ← Value.fieldsJsonWith_eq_mapValues]
  exact Json.object.inj (hheap.json_detach howns hexact)

/-- A record with detached fields written into it is shown as the one with the fields themselves. -/
theorem Proper.jsonWith_detached (hheap : heap.Proper) {fields : Fields Value}
    (howns : heap.Owns (.obj fields)) (hexact : heap.Exact (.obj fields)) (r : Record) :
    (r.merge (heap.detachFields fields)).jsonWith heap.recordJson =
      (r.merge fields).jsonWith heap.recordJson := by
  unfold Record.jsonWith Record.merge
  simp only [Value.fieldsJsonWith_eq_mapValues, FieldMap.entries_merge, Fields.mapValues_merge, Fields.mapValues_erase,
    hheap.mapValues_detachFields howns hexact]

/-! ## One record is written -/

/-- The other heap has a record at a handle, new or in place of an earlier one, and is the same otherwise. -/
structure Written (heap other : Heap) (h : Handle) : Prop where
  get_eq : ∀ k, k ≠ h → other.get k = heap.get k
  live_iff : ∀ k : Handle, k.index < other.size ↔ k = h ∨ k.index < heap.size

/-- A new record is a write at the next handle. -/
theorem written_alloc (heap : Heap) (r : Record) : heap.Written (heap.alloc r).2 ⟨heap.size⟩ := by
  constructor
  · rintro ⟨index⟩ hne
    rw [get_alloc, if_neg (fun heq => hne (congrArg Handle.mk heq))]
  · rintro ⟨index⟩
    rw [size_alloc, Handle.mk.injEq]
    exact Nat.lt_succ_iff_lt_or_eq.trans or_comm

theorem written_set {h : Handle} (hlive : h.index < heap.size) (r : Record) : heap.Written (heap.set h r) h := by
  constructor
  · intro k hne
    rw [get_set, if_neg (fun heq => hne heq.1.symm)]
  · intro k
    rw [size_set, or_iff_right_of_imp]
    rintro rfl
    exact hlive

namespace Written

variable {h : Handle}

theorem holds (hwritten : heap.Written other h) {a b : Handle} (hne : a ≠ h) (hholds : other.Holds a b) :
    heap.Holds a b := by
  rwa [Holds, hwritten.get_eq a hne] at hholds

/-- A way through the heap after the write either was there before, or has been at the handle; then it was
possible to go there before, and to come from a handle in the new record. -/
theorem path_cases (hwritten : heap.Written other h) {a b : Handle} (hpath : TransGen other.Holds a b) :
    TransGen heap.Holds a b ∨
      ReflTransGen heap.Holds a h ∧ ∃ c ∈ (other.get h).handles, ReflTransGen heap.Holds c b := by
  -- By induction on the way, from its first step on: each step leaves the written record or is an
  -- old one.
  induction hpath with
  | @single b hholds =>
    by_cases ha : a = h
    · subst ha
      exact .inr ⟨.refl, b, hholds, .refl⟩
    · exact .inl (.single (hwritten.holds ha hholds))
  | @tail b next _ hholds ih =>
    by_cases hb : b = h
    -- The way leaves the handle anew, whatever it did before.
    · subst hb
      refine .inr ⟨?_, next, hholds, .refl⟩
      rcases ih with hold | ⟨hreach, -⟩
      · exact hold.to_reflTransGen
      · exact hreach
    · have hstep := hwritten.holds hb hholds
      rcases ih with hold | ⟨hreach, c, hc, hrest⟩
      · exact .inl (hold.tail hstep)
      · exact .inr ⟨hreach, c, hc, hrest.tail hstep⟩

/-- A way to the handle that was there before the write is still there, at least from where it first comes to
the handle. -/
theorem reaches (hwritten : heap.Written other h) {a : Handle} (hpath : ReflTransGen heap.Holds a h) :
    ReflTransGen other.Holds a h := by
  induction hpath using ReflTransGen.head_induction_on with
  | refl => exact .refl
  | @head a b hholds _ ih =>
    by_cases ha : a = h
    · exact ha ▸ .refl
    · refine .head ?_ ih
      rwa [Holds, hwritten.get_eq a ha]

/-- **A write closes a circle just if something in the new record led to its handle before.** -/
theorem acyclic_iff (hwritten : heap.Written other h) (hheap : heap.Acyclic) :
    other.Acyclic ↔ ∀ k ∈ (other.get h).handles, ¬ ReflTransGen heap.Holds k h := by
  constructor
  · intro hother k hk hpath
    exact hother h (TransGen.head' hk (hwritten.reaches hpath))
  -- A circle that was not there before leads from the new record back to it.
  · intro hfree a hcycle
    rcases hwritten.path_cases hcycle with hold | ⟨hreach, c, hc, hrest⟩
    · exact hheap a hold
    · exact hfree c hc (hrest.trans hreach)

/-- A heap stays proper if the new record holds handles of records and closes no circle. -/
theorem proper (hwritten : heap.Written other h) (hheap : heap.Proper)
    (howns : ∀ k ∈ (other.get h).handles, k.index < heap.size) (hother : other.Acyclic) : other.Proper := by
  refine ⟨?_, hother⟩
  intro a k hholds
  apply (hwritten.live_iff k).mpr
  by_cases ha : a = h
  · subst ha
    exact .inr (howns k hholds)
  · exact .inr (hheap.closed a k (hwritten.holds ha hholds))

/-- **The new record is shown with its fields as they were shown before the write.** They do not lead back to
it, so only records are met that have not changed. -/
theorem recordJson_eq (hwritten : heap.Written other h) (hheap : heap.Proper) (hother : other.Proper) :
    other.recordJson h = (other.get h).jsonWith heap.recordJson := by
  rw [hother.recordJson_eq ((hwritten.live_iff h).mpr (.inl rfl))]
  apply Record.jsonWith_congr
  intro k hk
  -- Seen from a handle in the new record, both heaps have the same records on all ways.
  symm
  apply hother.recordJson_congr hheap
  intro j hpath
  have hne : j ≠ h := by
    rintro rfl
    exact hother.acyclic j (TransGen.head' hk hpath)
  have hlive : j.index < other.size := hother.below_subset h (TransGen.head' hk hpath)
  exact ⟨hlive, ((hwritten.live_iff j).mp hlive).resolve_left hne, (hwritten.get_eq j hne).symm⟩

end Written

/-- What a record holds after a write it held before, or a record holds it that was copied. -/
theorem holder_of_mem_merge {r : Record} {fields : Fields Value} {k : Handle}
    (hk : k ∈ (r.merge (heap.detachFields fields)).handles) :
    k ∈ r.handles ∨ ∃ h ∈ (Value.obj fields).handles, heap.Holds h k := by
  obtain ⟨entry, hentry, hmem⟩ := Value.mem_handlesFields.mp hk
  rcases Fields.mem_merge hentry with hold | hnew
  · exact .inl (Value.mem_handlesFields.mpr ⟨entry, hold, hmem⟩)
  · have hcopy : entry ∈ heap.detachFields fields := List.mem_of_mem_filter hnew
    have hdetached : k ∈ (heap.detach (.obj fields)).handles :=
      Value.mem_handlesFields.mpr ⟨entry, hcopy, hmem⟩
    exact .inr (exists_holds_of_mem_detach hdetached)

namespace Written

variable {h : Handle} {r : Record} {fields : Fields Value}

theorem owns_merge (hheap : heap.Proper) (hget : other.get h = r.merge (heap.detachFields fields))
    (howns : ∀ k ∈ r.handles, k.index < heap.size) : ∀ k ∈ (other.get h).handles, k.index < heap.size := by
  intro k hk
  rcases holder_of_mem_merge (hget ▸ hk) with hold | ⟨outer, -, hholds⟩
  · exact howns k hold
  · exact hheap.closed outer k hholds

/-- **The written record is shown as if it held the fields themselves**, before the write. -/
theorem recordJson_merge (hwritten : heap.Written other h) (hheap : heap.Proper) (hother : other.Proper)
    (hget : other.get h = r.merge (heap.detachFields fields)) (howns : heap.Owns (.obj fields))
    (hexact : heap.Exact (.obj fields)) :
    other.recordJson h = (r.merge fields).jsonWith heap.recordJson := by
  rw [hwritten.recordJson_eq hheap hother, hget]
  exact hheap.jsonWith_detached howns hexact r

end Written

end Heap

/-! ## Stores -/

namespace Store

/-- Records do not hold each other in a circle, and rows and the handles in defaults are handles of records. -/
structure Proper (s : Store) : Prop where
  heap : s.heap.Proper
  rows : ∀ entity, ∀ h ∈ s.rows entity, h.index < s.heap.size
  defaults : ∀ entity, s.heap.Owns (.obj ((s.defaults.get? entity).getD .empty))

/-- The record that a `create` starts with: the next id and the defaults. -/
def blank (s : Store) (entity : String) : Record :=
  ⟨(s.table entity).lastId + 1, (s.defaults.get? entity).getD .empty⟩

theorem written_create (s : Store) (entity : String) (fields : Fields Value) :
    s.heap.Written (s.create entity fields).2.heap (s.create entity fields).1 :=
  Heap.written_alloc s.heap _

namespace Proper

variable {s after : Store} {entity : String} {id : UInt64} {fields patch : Fields Value} {h : Handle}

/-- A `create` closes no circle, since its handle is new. -/
theorem create (hs : s.Proper) (entity : String) (fields : Fields Value) :
    (s.create entity fields).2.Proper := by
  have hwritten := s.written_create entity fields
  have howns := Heap.Written.owns_merge (r := s.blank entity) hs.heap (get_create s entity fields)
    (hs.defaults entity)
  constructor
  · refine hwritten.proper hs.heap howns ((hwritten.acyclic_iff hs.heap.acyclic).mpr ?_)
    -- No record holds a handle that has not been given out.
    intro k hk hback
    rcases Relation.reflTransGen_iff_eq_or_transGen.mp hback with rfl | hpath
    · exact lt_irrefl _ (howns _ hk)
    · exact lt_irrefl s.heap.size (hs.heap.below_subset k hpath)
  · intro other k hk
    apply (hwritten.live_iff k).mpr
    rcases mem_rows_create.mp hk with hold | ⟨-, hnew⟩
    · exact .inr (hs.rows other k hold)
    · exact .inl hnew
  · intro other k hk
    exact (hwritten.live_iff k).mpr (.inr (hs.defaults other k hk))

/-- A new record is shown as its defaults and the given fields were. -/
theorem recordJson_create (hs : s.Proper) (entity : String) (howns : s.heap.Owns (.obj fields))
    (hexact : s.heap.Exact (.obj fields)) :
    (s.create entity fields).2.heap.recordJson (s.create entity fields).1 =
      ((s.blank entity).merge fields).jsonWith s.heap.recordJson :=
  (s.written_create entity fields).recordJson_merge hs.heap (hs.create entity fields).heap
    (get_create s entity fields) howns hexact

theorem live_of_update (hs : s.Proper) (hupdate : s.update entity id patch = .ok (h, after)) :
    h.index < s.heap.size := by
  obtain ⟨hrow, -⟩ := update_eq_ok_iff.mp hupdate
  exact hs.rows entity h (mem_rows_of_row? hrow).1

theorem written_update (hs : s.Proper) (hupdate : s.update entity id patch = .ok (h, after)) :
    s.heap.Written after.heap h := by
  have hlive := hs.live_of_update hupdate
  obtain ⟨-, rfl⟩ := update_eq_ok_iff.mp hupdate
  exact Heap.written_set hlive _

theorem get_update_self (hs : s.Proper) (hupdate : s.update entity id patch = .ok (h, after)) :
    after.heap.get h = (s.heap.get h).merge (s.heap.detachFields patch) := by
  rw [get_update hupdate (hs.live_of_update hupdate), if_pos rfl]

/-- An update closes a circle just if something that the row is about to hold leads to the row. -/
theorem acyclic_update_iff (hs : s.Proper) (hupdate : s.update entity id patch = .ok (h, after)) :
    after.heap.Acyclic ↔ ∀ k ∈ ((s.heap.get h).merge (s.heap.detachFields patch)).handles,
      ¬ ReflTransGen s.heap.Holds k h := by
  rw [(hs.written_update hupdate).acyclic_iff hs.heap.acyclic, hs.get_update_self hupdate]

/-- An update that closes no circle leaves a proper store. -/
theorem update (hs : s.Proper) (hupdate : s.update entity id patch = .ok (h, after))
    (hacyclic : after.heap.Acyclic) : after.Proper := by
  have hwritten := hs.written_update hupdate
  have hheap : after.heap.Proper := by
    refine hwritten.proper hs.heap ?_ hacyclic
    exact Heap.Written.owns_merge hs.heap (hs.get_update_self hupdate) (fun k hk => hs.heap.closed h k hk)
  obtain ⟨-, rfl⟩ := update_eq_ok_iff.mp hupdate
  refine ⟨hheap, ?_, ?_⟩
  · exact fun other k hk => (hwritten.live_iff k).mpr (.inr (hs.rows other k hk))
  · exact fun other k hk => (hwritten.live_iff k).mpr (.inr (hs.defaults other k hk))

end Proper

/-- After any history that the rules allow the store is proper, and no record leads to another. -/
theorem proper_afterActions {actions : List HostAction} (hactions : ∀ action ∈ actions, action.Allowed) :
    (empty.afterActions actions).Proper ∧ ∀ k h, ¬ TransGen (empty.afterActions actions).heap.Holds k h := by
  have hplain := plain_empty.afterActions hactions
  have hissued := issued_afterActions actions
  refine ⟨⟨hplain.heap.proper, ?_, ?_⟩, ?_⟩
  -- Rows were given out, so they exist.
  · intro entity h hrow
    exact hissued.exist _ (hissued.rows entity h hrow)
  · intro entity k hk
    cases hdefaults : (empty.afterActions actions).defaults.get? entity with
    | none =>
      rw [hdefaults] at hk
      cases hk
    | some defaults =>
      have hnone : (Value.obj defaults).handles = [] := hplain.defaults _ (Fields.mem_of_get? hdefaults)
      rw [hdefaults, Option.getD_some, hnone] at hk
      cases hk
  · intro k h hpath
    -- A way that ends somewhere has a last step, and no record holds a handle.
    obtain ⟨last, -, hlast⟩ := TransGen.tail'_iff.mp hpath
    exact hplain.heap.not_holds last h hlast

/-- **Copies show what the live values showed at the moment of the write.** In a store where records do not
hold each other in a circle, and for ids below `2 ^ 53` of the records that are copied:

* a detached value has the JSON of the value, with handles at any depth and whatever fields their records
  have;
* a new record is shown as the defaults and the given fields were, with the handles that were given; only
  under `id` it shows the id;
* so is an updated row if the update closes no circle, and it closes one just if something that the row is
  about to hold leads to the row;
* a copy of records without handles in them is shown in the same way ever after.

Either write leaves a store of the same kind. -/
theorem copies_show_same (s : Store) (hs : s.Proper) :
    (∀ v, s.heap.Owns v → s.heap.Exact v → s.heap.json (s.heap.detach v) = s.heap.json v) ∧
    (∀ entity fields, s.heap.Owns (.obj fields) → s.heap.Exact (.obj fields) →
      (s.create entity fields).2.Proper ∧
        (s.create entity fields).2.heap.recordJson (s.create entity fields).1 =
          ((s.blank entity).merge fields).jsonWith s.heap.recordJson) ∧
    (∀ entity id patch h after, s.update entity id patch = .ok (h, after) → s.heap.Owns (.obj patch) →
      s.heap.Exact (.obj patch) →
      (after.heap.Acyclic ↔ ∀ k ∈ ((s.heap.get h).merge (s.heap.detachFields patch)).handles,
        ¬ ReflTransGen s.heap.Holds k h) ∧
      (after.heap.Acyclic → after.Proper ∧
        after.heap.recordJson h = ((s.heap.get h).merge patch).jsonWith s.heap.recordJson)) ∧
    (∀ v, s.heap.Owns v → s.heap.Exact v → (∀ k ∈ v.handles, (s.heap.get k).handles = []) →
      ∀ later : Heap, later.json (s.heap.detach v) = s.heap.json v) := by
  refine ⟨fun v howns hexact => hs.heap.json_detach howns hexact, ?_, ?_, ?_⟩
  · intro entity fields howns hexact
    exact ⟨hs.create entity fields, hs.recordJson_create entity howns hexact⟩
  · intro entity id patch h after hupdate howns hexact
    refine ⟨hs.acyclic_update_iff hupdate, ?_⟩
    intro hacyclic
    have hafter := hs.update hupdate hacyclic
    exact ⟨hafter, (hs.written_update hupdate).recordJson_merge hs.heap hafter.heap
      (hs.get_update_self hupdate) howns hexact⟩
  · intro v howns hexact hplain later
    rw [← hs.heap.json_detach howns hexact]
    apply Value.toJsonWith_congr
    -- A copy whose records hold no handle holds none, so no heap matters to it.
    intro k hk
    obtain ⟨h, hh, hholds⟩ := Heap.exists_holds_of_mem_detach hk
    rw [Heap.Holds, hplain h hh] at hholds
    cases hholds

/-- A user with a field `id` belongs to a ticket of the host, and a task gets a list with the ticket and, in an
object, the task itself. The new task and the updated one show the user inside the ticket, under the id that it
has, and the copy of the user is always shown so. -/
theorem copies_show_same_of_nested :
    let s : Store := ⟨⟨#[⟨7, .ofEntries [("id", .str "x"), ("name", .str "ada")]⟩,
      ⟨3, .ofEntries [("user", .record ⟨0⟩)]⟩, ⟨1, .empty⟩]⟩, FieldMap.empty.insert "Task" ⟨1, [⟨2⟩]⟩, .empty, #[]⟩
    let fields : Fields Value := [("all", .list [.record ⟨1⟩, .obj [("me", .record ⟨2⟩)]])]
    let user : Json := .object [("id", .number (.ofWord 7)), ("name", .string "ada")]
    let all : Json := .array [.object [("id", .number (.ofWord 3)), ("user", user)],
      .object [("me", .object [("id", .number (.ofWord 1))])]]
    s.Proper ∧ s.heap.json (s.heap.detach (.obj fields)) = .object [("all", all)] ∧
      (s.create "Task" fields).2.heap.recordJson ⟨3⟩ = .object [("all", all), ("id", .number (.ofWord 2))] ∧
      (∃ after, s.update "Task" 1 fields = .ok (⟨2⟩, after) ∧
        after.heap.recordJson ⟨2⟩ = .object [("all", all), ("id", .number (.ofWord 1))]) ∧
      ∀ later : Heap, later.json (s.heap.detach (.record ⟨0⟩)) = user := by
  intro s fields user all
  have hs : s.Proper := by
    refine ⟨Heap.proper_of_older (by decide), ?_, ?_⟩
    · intro entity h hrow
      by_cases hentity : "Task" = entity
      · subst hentity
        obtain rfl := List.mem_singleton.mp hrow
        decide
      · simp [s, rows, table, FieldMap.get?_insert, hentity] at hrow
    · intro entity h hmem
      cases hmem
  have howns : s.heap.Owns (.obj fields) := by
    unfold Heap.Owns
    decide
  have hexact : s.heap.Exact (.obj fields) := by
    unfold Heap.Exact
    decide
  obtain ⟨hjson, hcreate, hupdate, hlater⟩ := copies_show_same s hs
  obtain ⟨after, hafter⟩ : ∃ after, s.update "Task" 1 fields = .ok (⟨2⟩, after) := ⟨_, rfl⟩
  obtain ⟨hcircle, hshown⟩ := hupdate "Task" 1 fields ⟨2⟩ after hafter howns hexact
  -- The updated task holds the user, and no record held the task before.
  have hacyclic : after.heap.Acyclic := by
    refine hcircle.mpr ?_
    intro k hk hpath
    have hnot : ⟨2⟩ ∉ ((s.heap.get ⟨2⟩).merge (s.heap.detachFields fields)).handles := by decide
    rcases Relation.reflTransGen_iff_eq_or_transGen.mp hpath with rfl | hpath
    · exact hnot hk
    · obtain ⟨last, -, hlast⟩ := TransGen.tail'_iff.mp hpath
      have hnone : ∀ i < s.heap.size, ⟨2⟩ ∉ (s.heap.get ⟨i⟩).handles := by decide
      exact hnone last.index (Heap.index_lt_of_holds hlast) hlast
  refine ⟨hs, (hjson _ howns hexact).trans rfl, (hcreate "Task" fields howns hexact).2.trans rfl,
    ⟨after, hafter, (hshown hacyclic).2.trans rfl⟩, ?_⟩
  intro later
  refine (hlater (.record ⟨0⟩) ?_ ?_ ?_ later).trans rfl
  · unfold Heap.Owns
    decide
  · unfold Heap.Exact
    decide
  · decide

/-- **What is stored can show something else.** A text that is given for the field `id` is not shown: the new
record shows its id there. And a row that is updated with a record of the host that holds the row closes a
circle where there was none: the row then holds itself, and it is not shown with what the live value showed. -/
theorem stored_value_shows_other :
    let s := empty.afterActions [.call (.create "E" []), .hold ⟨2, .ofEntries [("x", .record ⟨0⟩)]⟩]
    let patch : Fields Value := [("f", .record ⟨1⟩)]
    (empty.create "E" [("id", .str "x")]).2.heap.recordJson ⟨0⟩ = .object [("id", .number (.ofWord 1))] ∧
      empty.heap.json (.str "x") = .string "x" ∧
      s.Proper ∧ s.heap.Owns (.obj patch) ∧ s.heap.Exact (.obj patch) ∧
      ((s.heap.get ⟨0⟩).merge patch).jsonWith s.heap.recordJson =
        .object [("f", .object [("id", .number (.ofWord 2)), ("x", .object [("id", .number (.ofWord 1))])]),
          ("id", .number (.ofWord 1))] ∧
      ∃ after, s.update "E" 1 patch = .ok (⟨0⟩, after) ∧ ¬ after.heap.Acyclic ∧
        after.heap.recordJson ⟨0⟩ ≠ ((s.heap.get ⟨0⟩).merge patch).jsonWith s.heap.recordJson := by
  intro s patch
  have hs : s.Proper := by
    have hissued := issued_afterActions [.call (.create "E" []), .hold ⟨2, .ofEntries [("x", .record ⟨0⟩)]⟩]
    refine ⟨Heap.proper_of_older (by decide), ?_, ?_⟩
    · intro entity h hrow
      exact hissued.exist _ (hissued.rows entity h hrow)
    · intro entity h hmem
      cases hmem
  have howns : s.heap.Owns (.obj patch) := by
    unfold Heap.Owns
    decide
  have hexact : s.heap.Exact (.obj patch) := by
    unfold Heap.Exact
    decide
  obtain ⟨after, hupdate⟩ : ∃ after, s.update "E" 1 patch = .ok (⟨0⟩, after) := ⟨_, rfl⟩
  refine ⟨rfl, rfl, hs, howns, hexact, rfl, after, hupdate, ?_, ?_⟩
  -- The copy of the host's record still holds the row.
  · intro hacyclic
    have hback : ⟨0⟩ ∈ ((s.heap.get ⟨0⟩).merge (s.heap.detachFields patch)).handles := by decide
    exact (hs.acyclic_update_iff hupdate).mp hacyclic _ hback .refl
  · obtain ⟨-, rfl⟩ := update_eq_ok_iff.mp hupdate
    intro hsame
    have htext := congrArg Json.compact hsame
    revert htext
    decide +kernel

end Store

end ServiceEngine
