import Mathlib
import ServiceEngine.Proofs.Store.Copies

/-!
# Handles that outlive a copy

Detaching looks for handles in lists and objects and puts a copy of its record in the place of each. It does
not look into the copies: what a record holds is copied as it stands. As long as the host makes no record that
holds handles, no record in the store does, and this is enough. A host can make such a record, and then the
handles in it outlive the copy.

1. One round of detaching leaves the handles that the copied records hand on (`Heap.mem_handles_detach_iff`),
   and a value stays as it is just if no handle stands in it (`Heap.detach_eq_self_iff`). So one round is enough
   just if the copied records hand on nothing.
2. Without circles a handle that is left after `n` rounds is `n` records below a handle of the value
   (`Heap.Proper.rank_of_mem_rounds`), so there are no more rounds than records.
3. A write stores what one round leaves (`Store.holds_of_create`, `Store.holds_of_update`), and a row that is
   written into itself through a record of the host does form a circle (`Store.circle_of_update`).
-/

namespace ServiceEngine

namespace Heap

variable {heap : Heap} {v : Value} {k : Handle}

/-! ## One round -/

/-- The record of one handle holds the other handle in a field that its copies have too. This is any field but
`id`, for there a copy has the id of the record. -/
def HandsOn (heap : Heap) (outer inner : Handle) : Prop :=
  ∃ entry ∈ (heap.get outer).fields.entries, entry.1 ≠ "id" ∧ inner ∈ entry.2.handles

/-- A copy hands on what stands in the fields of the record, apart from `id`. -/
theorem mem_handles_flatten {r : Record} :
    k ∈ Value.handlesFields r.flatten ↔ ∃ entry ∈ r.fields.entries, entry.1 ≠ "id" ∧ k ∈ entry.2.handles := by
  rw [Record.flatten, Value.mem_handlesFields]
  simp only [FieldMap.entries_insert, Fields.mem_insert_iff r.fields.sorted]
  constructor
  · rintro ⟨entry, rfl | ⟨hentry, hname⟩, hk⟩
    -- The id is a number.
    · cases hk
    · exact ⟨entry, hentry, hname, hk⟩
  · rintro ⟨entry, hentry, hname, hk⟩
    exact ⟨entry, .inr ⟨hentry, hname⟩, hk⟩

theorem mem_handles_detach_iff :
    k ∈ (heap.detach v).handles ↔ ∃ h ∈ v.handles, heap.HandsOn h k := by
  rw [mem_handles_detach]
  apply exists_congr
  intro h
  exact and_congr_right (fun _ => mem_handles_flatten)

/-- One round is enough just if no copied record hands on a handle. -/
theorem handles_detach_eq_nil_iff :
    (heap.detach v).handles = [] ↔ ∀ h ∈ v.handles, ∀ k, ¬ heap.HandsOn h k := by
  rw [List.eq_nil_iff_forall_not_mem]
  constructor
  · intro hnone h hh k hk
    exact hnone k (mem_handles_detach_iff.mpr ⟨h, hh, hk⟩)
  · intro hnone k hk
    obtain ⟨h, hh, hk⟩ := mem_handles_detach_iff.mp hk
    exact hnone h hh k hk

/-- A value stays as it is just if no handle stands in it, for a copy is not a handle. -/
theorem detach_eq_self_iff : heap.detach v = v ↔ v.handles = [] := by
  refine ⟨?_, heap.detach_of_plain⟩
  induction v using Value.nested_induction with
  | list items ih =>
    intro hself
    rw [detach, detachItems_eq_map, Value.list.injEq] at hself
    rw [Value.handles, Value.handlesItems_eq_nil]
    -- A list stays as it is only if each of its items does.
    intro v hv
    exact ih v hv (List.map_inj_left.mp (hself.trans (List.map_id items).symm) v hv)
  | obj fields ih =>
    intro hself
    rw [detach, detachFields_eq_map, Value.obj.injEq] at hself
    rw [Value.handles, Value.handlesFields_eq_nil]
    intro entry hentry
    have hsame := List.map_inj_left.mp (hself.trans (List.map_id fields).symm) entry hentry
    exact ih entry hentry (congrArg Prod.snd hsame)
  | record h =>
    -- The copy of a record is an object.
    intro hself
    rw [detach] at hself
    cases hself
  | _ => exact fun _ => rfl

/-! ## Rounds -/

namespace Proper

variable {n : Nat}

/-- Every round goes one record further down. -/
theorem rank_of_mem_rounds (hheap : heap.Proper) (hk : k ∈ (heap.detach^[n] v).handles) :
    ∃ h ∈ v.handles, heap.rank k + n ≤ heap.rank h := by
  induction n generalizing k with
  | zero => exact ⟨k, hk, le_rfl⟩
  | succ n ih =>
    -- The last round has copied a record that was left by the rounds before it and that holds the handle.
    rw [Function.iterate_succ_apply'] at hk
    obtain ⟨outer, houter, hholds⟩ := exists_holds_of_mem_detach hk
    obtain ⟨h, hh, hrank⟩ := ih houter
    have hlt := hheap.rank_lt hholds
    exact ⟨h, hh, by omega⟩

/-- As many rounds as there are records remove every handle. -/
theorem handles_rounds (hheap : heap.Proper) (howns : heap.Owns v) (hn : heap.size ≤ n) :
    (heap.detach^[n] v).handles = [] := by
  rw [List.eq_nil_iff_forall_not_mem]
  intro k hk
  obtain ⟨h, hh, hrank⟩ := hheap.rank_of_mem_rounds hk
  have hlt := hheap.rank_lt_size (howns h hh)
  omega

end Proper

/-- **What a copy still holds.** In a heap where records do not hold each other in a circle, and whatever they
hold, a detached value

* holds just the handles that the records copied into it hand on;
* holds none, just if none of these records hands on a handle, and just then detaching it again changes nothing;
* holds none after as many rounds as there are records, and no further round changes it. -/
theorem copies_keep_inner_handles (heap : Heap) (hheap : heap.Proper) (v : Value) (howns : heap.Owns v) :
    (∀ k, k ∈ (heap.detach v).handles ↔ ∃ h ∈ v.handles, heap.HandsOn h k) ∧
    ((heap.detach v).handles = [] ↔ ∀ h ∈ v.handles, ∀ k, ¬ heap.HandsOn h k) ∧
    (heap.detach (heap.detach v) = heap.detach v ↔ ∀ h ∈ v.handles, ∀ k, ¬ heap.HandsOn h k) ∧
    (∀ n, heap.size ≤ n →
      (heap.detach^[n] v).handles = [] ∧ heap.detach (heap.detach^[n] v) = heap.detach^[n] v) := by
  have hnone := heap.handles_detach_eq_nil_iff (v := v)
  refine ⟨fun k => mem_handles_detach_iff, hnone, detach_eq_self_iff.trans hnone, ?_⟩
  intro n hn
  have hplain := hheap.handles_rounds howns hn
  exact ⟨hplain, detach_eq_self_iff.mpr hplain⟩

/-- A user, a ticket that holds the user under `id` only, and a comment that holds the ticket. The copy of the
ticket is plain. The copy of the comment holds the ticket, and three rounds remove every handle from it. -/
theorem copies_keep_inner_handles_of_comment :
    let heap : Heap := ⟨#[⟨1, .ofEntries [("name", .str "ada")]⟩,
      ⟨2, .ofEntries [("id", .record ⟨0⟩), ("text", .str "x")]⟩, ⟨3, .ofEntries [("on", .list [.record ⟨1⟩])]⟩]⟩
    let ticket : Value := .list [.record ⟨1⟩]
    let comment : Value := .obj [("all", .list [.record ⟨2⟩, .record ⟨0⟩])]
    heap.Proper ∧ heap.Owns ticket ∧ heap.Owns comment ∧
      (heap.detach ticket).handles = [] ∧ heap.detach (heap.detach ticket) = heap.detach ticket ∧
      (∀ k, k ∈ (heap.detach comment).handles ↔ k = ⟨1⟩) ∧
      heap.detach (heap.detach comment) ≠ heap.detach comment ∧ (heap.detach^[3] comment).handles = [] := by
  intro heap ticket comment
  have hheap : heap.Proper := proper_of_older (by decide)
  have hticket : heap.Owns ticket := by
    unfold Owns
    decide
  have hcomment : heap.Owns comment := by
    unfold Owns
    decide
  obtain ⟨-, hplain, hagain, -⟩ := copies_keep_inner_handles heap hheap ticket hticket
  obtain ⟨hleft, -, hchanged, hrounds⟩ := copies_keep_inner_handles heap hheap comment hcomment
  have hnone : ∀ h ∈ ticket.handles, ∀ k, ¬ heap.HandsOn h k := by
    -- The ticket has two fields, and the only one with a handle in it is `id`.
    rintro h hh k ⟨entry, hentry, hid, hk⟩
    obtain rfl := List.mem_singleton.mp hh
    rcases List.mem_pair.mp hentry with rfl | rfl
    · exact hid rfl
    · cases hk
  have honly : ∀ k, (∃ h ∈ comment.handles, heap.HandsOn h k) ↔ k = ⟨1⟩ := by
    simp [comment, heap, HandsOn, Value.handles, Value.handlesItems, Value.handlesFields, get,
      FieldMap.ofEntries, Fields.ofEntries, Fields.merge, Fields.insert]
  refine ⟨hheap, hticket, hcomment, hplain.mpr hnone, hagain.mpr hnone,
    fun k => (hleft k).trans (honly k), ?_, (hrounds 3 le_rfl).1⟩
  intro hsame
  obtain ⟨h, hh, hk⟩ := (honly ⟨1⟩).mpr rfl
  exact hchanged.mp hsame h hh ⟨1⟩ hk

end Heap

/-! ## Writes -/

/-- A record with detached fields written into it holds what stands in these fields. -/
theorem Record.mem_handles_merge {heap : Heap} (r : Record) {fields : FieldMap Value}
    {entry : String × Value} (hentry : entry ∈ fields.entries) (hid : entry.1 ≠ "id") {k : Handle}
    (hk : k ∈ (heap.detach entry.2).handles) : k ∈ (r.merge (heap.detachFields fields)).handles := by
  have hget : (r.merge (heap.detachFields fields)).get? entry.1 = some (heap.detach entry.2) := by
    rw [get?_merge r (Store.sorted_detachFields heap fields.sorted) hid, Store.get?_detachFields,
      Fields.get?_of_mem fields.sorted hentry]
    rfl
  rw [get?, if_neg hid] at hget
  exact Value.mem_handlesFields.mpr ⟨(entry.1, heap.detach entry.2), FieldMap.mem_iff_get?.mpr hget, hk⟩

namespace Store

variable {s after : Store} {entity : String} {id : UInt64} {fields patch : FieldMap Value}
  {entry : String × Value} {h k : Handle}

/-- A new record holds the handles that are left in the fields that it is given. -/
theorem holds_of_create (hentry : entry ∈ fields.entries) (hid : entry.1 ≠ "id")
    (hk : k ∈ (s.heap.detach entry.2).handles) :
    (s.create entity fields).2.heap.Holds (s.create entity fields).1 k := by
  rw [Heap.Holds, get_create]
  exact (s.blank entity).mem_handles_merge hentry hid hk

/-- An updated row holds the handles that are left in its patch. -/
theorem holds_of_update (hupdate : s.update entity id patch = .ok (h, after)) (hlive : h.index < s.heap.size)
    (hentry : entry ∈ patch.entries) (hid : entry.1 ≠ "id")
    (hk : k ∈ (s.heap.detach entry.2).handles) : after.heap.Holds h k := by
  rw [Heap.Holds, get_update hupdate hlive, if_pos rfl]
  exact (s.heap.get h).mem_handles_merge hentry hid hk

/-- **A circle is closed** where the handle of a row is left in what is written into the row. -/
theorem circle_of_update (hupdate : s.update entity id patch = .ok (h, after)) (hlive : h.index < s.heap.size)
    (hentry : entry ∈ patch.entries) (hid : entry.1 ≠ "id")
    (hback : h ∈ (s.heap.detach entry.2).handles) : ¬ after.heap.Acyclic := by
  intro hacyclic
  exact hacyclic h (.single (holds_of_update hupdate hlive hentry hid hback))

/-- A host takes the handle of a new row and makes a record that holds it. There is no circle, but the copy of the
host's record still holds the handle, and detaching the copy changes it. A row that is made with the host's record
holds the live handle of the first row, and the first row updated with it holds itself. -/
theorem host_record_brings_handles :
    let s := empty.afterActions [.call (.create "E" []), .hold ⟨2, .ofEntries [("x", .record ⟨0⟩)]⟩]
    let v : Value := .record ⟨1⟩
    let fields : FieldMap Value := .ofEntries [("f", v)]
    s.heap.Proper ∧ s.heap.Owns v ∧ (s.heap.detach v).handles = [⟨0⟩] ∧
      s.heap.detach (s.heap.detach v) ≠ s.heap.detach v ∧
      (s.create "E" fields).2.heap.Holds (s.create "E" fields).1 ⟨0⟩ ∧
      ∃ after, s.update "E" 1 fields = .ok (⟨0⟩, after) ∧ ¬ after.heap.Acyclic := by
  intro s v fields
  have hleft : (s.heap.detach v).handles = [⟨0⟩] := by decide
  have hmem : ⟨0⟩ ∈ (s.heap.detach v).handles := by
    rw [hleft]
    exact List.mem_singleton_self _
  have hentry : ("f", v) ∈ fields.entries := List.mem_singleton_self _
  obtain ⟨after, hupdate⟩ : ∃ after, s.update "E" 1 fields = .ok (⟨0⟩, after) := ⟨_, rfl⟩
  refine ⟨Heap.proper_of_older (by decide), ?_, hleft, ?_, holds_of_create hentry (by decide) hmem,
    ⟨after, hupdate, circle_of_update hupdate (by decide) hentry (by decide) hmem⟩⟩
  · unfold Heap.Owns
    decide
  · intro hsame
    rw [Heap.detach_eq_self_iff, hleft] at hsame
    cases hsame

end Store

end ServiceEngine
