import Mathlib
import ServiceEngine.Proofs.Store.EntityStates

/-!
# Calls on different entities commute

Two calls on different entities, with plain arguments, act on the states of different entities. So it does not matter
for these which of them is made first, though new records get other handles (`Store.alike_swap`). Stores in which
all entities have the same state cannot be told apart by calls of this kind (`Store.Alike`): they have the same
dump, and they answer alike ever after.
-/

namespace ServiceEngine

/-! ## Maps -/

namespace FieldMap

variable {α β : Type}

theorem names_mapValues (f : α → β) (m : FieldMap α) : (m.mapValues f).names = m.names := by
  simp [names, Fields.names, mapValues, Fields.mapValues]

theorem nodup (m : FieldMap α) : m.entries.Nodup := by
  apply List.Pairwise.imp _ m.sorted
  rintro a _ hlt rfl
  exact String.lt_irrefl a.1 hlt

/-- Maps that answer every lookup alike are the same. -/
theorem ext_get? {m m' : FieldMap α} (hget : ∀ name, m.get? name = m'.get? name) : m = m' := by
  have hmem : ∀ entry, entry ∈ m.entries ↔ entry ∈ m'.entries := by
    intro entry
    rw [mem_iff_get?, mem_iff_get?, hget]
  have hperm : m.entries.Perm m'.entries := (List.perm_ext_iff_of_nodup m.nodup m'.nodup).mpr hmem
  apply FieldMap.ext
  -- Both lists are in the order of their names, and a list has only one order.
  apply List.Perm.eq_of_pairwise _ m.sorted m'.sorted hperm
  intro a b _ _ hlt hgt
  exact absurd hgt (String.lt_asymm hlt)

end FieldMap

namespace Store

/-! ## Stores that cannot be told apart -/

/-- The answers to some calls, in order. -/
def answersAll (s : Store) : List Call → List Answer
  | [] => []
  | call :: rest => call.answer s :: (call.perform s).answersAll rest

/-- Stores with the same state of every entity, beside which the host has made the same records.
The rows of one may have other handles than those of the other. -/
def Alike (s t : Store) : Prop :=
  ∃ own follow, Settled s own follow ∧ Settled t own follow ∧ ∀ entity, s.entityState entity = t.entityState entity

namespace Alike

variable {s t : Store}

/-- Stores that are alike answer every call alike. -/
theorem answer_eq (h : Alike s t) {call : Call} (hplain : call.Plain) : call.answer s = call.answer t := by
  obtain ⟨own, follow, hs, ht, hstate⟩ := h
  rw [hs.answer_eq hplain, ht.answer_eq hplain, hstate]

theorem perform (h : Alike s t) {call : Call} (hplain : call.Plain) : Alike (call.perform s) (call.perform t) := by
  obtain ⟨own, follow, hs, ht, hstate⟩ := h
  refine ⟨own, follow, hs.perform hplain, ht.perform hplain, ?_⟩
  intro entity
  rw [entityState_perform hs.order hplain, entityState_perform ht.order hplain, hstate]

/-- No sequence of calls tells stores apart that are alike. -/
theorem answersAll_eq (h : Alike s t) {calls : List Call} (hplain : ∀ call ∈ calls, call.Plain) :
    s.answersAll calls = t.answersAll calls := by
  induction calls generalizing s t with
  | nil => rfl
  | cons call rest ih =>
    obtain ⟨hfirst, hrest⟩ := List.forall_mem_cons.mp hplain
    rw [answersAll, answersAll, h.answer_eq hfirst, ih (h.perform hfirst) hrest]

theorem tables_eq (h : Alike s t) :
    s.tables.mapValues (fun table => Json.array (table.rows.map s.heap.recordJson)) =
      t.tables.mapValues (fun table => Json.array (table.rows.map t.heap.recordJson)) := by
  obtain ⟨own, follow, hs, ht, hstate⟩ := h
  apply FieldMap.ext_get?
  intro entity
  rw [hs.get?_dump, ht.get?_dump, hstate]

theorem dump_eq (h : Alike s t) : s.dump = t.dump :=
  congrArg (fun m : FieldMap Json => Json.object m) h.tables_eq

theorem entities_eq (h : Alike s t) : s.entities = t.entities := by
  have hnames := congrArg FieldMap.names h.tables_eq
  rwa [FieldMap.names_mapValues, FieldMap.names_mapValues] at hnames

theorem lastId_eq (h : Alike s t) (entity : String) : (s.table entity).lastId = (t.table entity).lastId := by
  obtain ⟨own, follow, -, -, hstate⟩ := h
  exact congrArg EntityState.lastId (hstate entity)

end Alike

/-! ## Ids of later records -/

/-- The entities and ids of the records that some calls make, in order. -/
def newIds (s : Store) (calls : List Call) : List (String × UInt64) :=
  (s.issuesAll calls).map (fun issue => (issue.entity, issue.id))

section

variable {s t : Store}

/-- Whatever a call is given, the ids after it depend on the ids before it alone. -/
theorem lastId_perform (h : ∀ entity, (s.table entity).lastId = (t.table entity).lastId) (call : Call)
    (entity : String) : ((call.perform s).table entity).lastId = ((call.perform t).table entity).lastId := by
  by_cases hnone : ∀ s : Store, call.issues s = []
  · rw [(call.thins s (hnone s)).lastId_eq, (call.thins t (hnone t)).lastId_eq, h]
  · cases call with
    | create other fields =>
      rw [Call.perform, Call.perform, table_create, table_create]
      by_cases heq : other = entity <;> simp [heq, h]
    | _ => exact absurd (fun _ => rfl) hnone

theorem newIds_cons (s : Store) (call : Call) (rest : List Call) :
    s.newIds (call :: rest) =
      (call.issues s).map (fun issue => (issue.entity, issue.id)) ++ (call.perform s).newIds rest := by
  simp [newIds, issuesAll]

/-- The ids of new records are not different either, whatever calls make them. -/
theorem newIds_eq (h : ∀ entity, (s.table entity).lastId = (t.table entity).lastId) (calls : List Call) :
    s.newIds calls = t.newIds calls := by
  induction calls generalizing s t with
  | nil => rfl
  -- The first call gives out the same ids, and the rest does by the hypothesis.
  | cons call rest ih =>
    rw [newIds_cons, newIds_cons, ih (lastId_perform h call)]
    congr 1
    cases call with
    | create entity fields => simp [issues_create, h]
    | _ => rfl

end

/-! ## Two calls in either order -/

section

variable {s : Store} {own : List Handle} {first second : Call}

theorem Orderly.settled (hs : Orderly s own) : Settled s own s.heap.recordJson := ⟨hs, fun _ _ => rfl⟩

theorem answer_perform (hs : Orderly s own) (hfirst : first.Plain) (hsecond : second.Plain)
    (hne : first.entity ≠ second.entity) : second.answer (first.perform s) = second.answer s := by
  rw [(hs.settled.perform hfirst).answer_eq hsecond, hs.settled.answer_eq hsecond,
    entityState_perform hs hfirst, if_neg hne]

/-- **Two calls on different entities lead to stores that are alike.** -/
theorem alike_swap (hs : Orderly s own) (hfirst : first.Plain) (hsecond : second.Plain)
    (hne : first.entity ≠ second.entity) :
    Alike (second.perform (first.perform s)) (first.perform (second.perform s)) := by
  have hafter := hs.settled.perform hfirst
  have hafter' := hs.settled.perform hsecond
  refine ⟨own, _, hafter.perform hsecond, hafter'.perform hfirst, ?_⟩
  intro entity
  rw [entityState_perform hafter.order hsecond, entityState_perform hs hfirst, entityState_perform hafter'.order hfirst,
    entityState_perform hs hsecond]
  -- At most one of the two acts on this entity.
  by_cases hone : first.entity = entity
  · have hother : second.entity ≠ entity := fun heq => hne (hone.trans heq.symm)
    simp [hone, hother]
  · simp [hone]

end

/-- **Calls on different entities commute.** In every store that a host can get to without putting
the handle of a row into a record of its own (`Reached`), for two calls whose arguments hold no
handles and no condition of the host: each gives the same answer, be it JSON or an error,
whichever is made first. Afterwards the dump and the list of entities are the same, records that
are made later get the same ids, whatever calls make them, and all later calls of this kind are
answered alike. -/
theorem different_entities_commute {s : Store} {own : List Handle} (hs : Reached s own) {first second : Call}
    (hfirst : first.Plain) (hsecond : second.Plain) (hne : first.entity ≠ second.entity) :
    let one := second.perform (first.perform s)
    let other := first.perform (second.perform s)
    first.answer s = first.answer (second.perform s) ∧
      second.answer (first.perform s) = second.answer s ∧
      one.dump = other.dump ∧
      one.entities = other.entities ∧
      (∀ later, one.newIds later = other.newIds later) ∧
      ∀ later, (∀ call ∈ later, call.Plain) → one.answersAll later = other.answersAll later := by
  intro one other
  have horder := hs.orderly
  have halike : Alike one other := alike_swap horder hfirst hsecond hne
  refine ⟨?_, answer_perform horder hfirst hsecond hne, halike.dump_eq, halike.entities_eq, ?_, ?_⟩
  · exact (answer_perform horder hsecond hfirst hne.symm).symm
  · intro later
    exact newIds_eq halike.lastId_eq later
  · intro later hplain
    exact halike.answersAll_eq hplain

/-- A post that holds a live handle, through a record of the host, and two records that are made in either order. The
new user has another handle then, which nobody sees. -/
theorem different_entities_commute_of_creates :
    ∃ s own, Reached s own ∧ s.heap.Holds ⟨2⟩ ⟨0⟩ ∧
      let first : Call := .create "User" [("name", .str "ada")]
      let second : Call := .create "Post" [("id", .null)]
      first.Plain ∧ second.Plain ∧ first.entity ≠ second.entity ∧
        (second.perform (first.perform s)).rows "User" ≠ (first.perform (second.perform s)).rows "User" ∧
        second.answer (first.perform s) = second.answer s ∧
        (second.perform (first.perform s)).dump = (first.perform (second.perform s)).dump := by
  have hinner := Reached.empty.action (.hold ⟨7, .empty⟩) (by unfold HostAction.Fair HostAction.Obeys; decide)
  have houter := hinner.action (.hold ⟨8, .ofEntries [("in", .record ⟨0⟩)]⟩)
    (by unfold HostAction.Fair HostAction.Obeys; decide)
  have hs := houter.action (.call (.create "Post" [("by", .record ⟨1⟩)])) trivial
  refine ⟨_, _, hs, by unfold Heap.Holds; decide, ?_⟩
  intro first second
  have hfirst : first.Plain := rfl
  have hsecond : second.Plain := rfl
  have hne : first.entity ≠ second.entity := by decide
  obtain ⟨-, hanswer, hdump, -⟩ := different_entities_commute hs hfirst hsecond hne
  exact ⟨hfirst, hsecond, hne, by decide, hanswer, hdump⟩

/-- **A record of the host that holds a row ties two entities together.** A post is made with such a record, and the
copy in the post still holds the user. Renaming the user then changes how the post is shown, so the two calls give
other answers in the other order. -/
theorem host_record_ties_entities :
    let s := empty.afterActions [.call (.create "User" [("name", .str "ada")]),
      .hold ⟨9, .ofEntries [("u", .record ⟨0⟩)]⟩, .call (.create "Post" [("by", .record ⟨1⟩)])]
    let first : Call := .findAll "Post" none
    let second : Call := .update "User" 1 [("name", .str "eve")]
    let post (name : String) : Json := .object [("by", .object [("id", .number (.ofWord 9)),
      ("u", .object [("id", .number (.ofWord 1)), ("name", .string name)])]), ("id", .number (.ofWord 1))]
    first.Plain ∧ second.Plain ∧ first.entity ≠ second.entity ∧
      first.answer s = .records [post "ada"] ∧ first.answer (second.perform s) = .records [post "eve"] := by
  exact ⟨nofun, rfl, by decide, rfl, rfl⟩

end Store

end ServiceEngine
