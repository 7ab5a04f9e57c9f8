import Mathlib
import ServiceEngine.Proofs.Lists
import ServiceEngine.Proofs.Store.Orderly

/-!
# What an entity is to its callers

A call whose arguments hold no handles and no condition of the host concerns one entity. What it finds there is a
`Store.EntityState`: the records of the entity themselves, without the places that they have in the heap, the last id
and the defaults.

1. A call acts on the state of its entity and leaves all others alone (`Store.entityState_perform`).
2. Its answer, shown as JSON, comes from that state, as does the dump of the table (`Store.Settled.answer_eq`,
   `Store.Settled.get?_dump`). Handles that rows hold lead to records of the host, which always look the same.
-/

namespace ServiceEngine

/-! ## Plain calls -/

/-- The filter is given by fields that hold no handle. -/
def Filter.Plain : Filter → Prop
  | .fields expected => Value.handlesFields expected = []
  | .custom _ => False

namespace Filter.Plain

variable {filter : Filter}

/-- No handle is compared with another one, so the heap does not matter. -/
theorem holds_eq (h : filter.Plain) (heap : Heap) (r : Record) : filter.holds heap r = filter.holds .empty r := by
  cases filter with
  | custom test => exact h.elim
  | fields expected =>
    rw [Filter.holds, Filter.holds, Bool.eq_iff_iff, List.all_eq_true, List.all_eq_true]
    apply forall₂_congr
    intro entry hentry
    apply Bool.eq_iff_iff.mp
    apply Value.eqWith_congr
    simp [Value.handlesFields_eq_nil.mp h entry hentry]

/-- The heap does not matter to how a filter is described. -/
theorem describe_eq (h : filter.Plain) (heap : Heap) : filter.describe heap = filter.describe .empty := by
  cases filter with
  | custom test => exact h.elim
  | fields expected =>
    have hjson : (Value.obj expected).toJsonWith heap.recordJson =
        (Value.obj expected).toJsonWith Heap.empty.recordJson := by
      apply Value.toJsonWith_congr
      simp [Value.handles, show Value.handlesFields expected = [] from h]
    exact congrArg Json.compact hjson

end Filter.Plain

/-- The target is an id or a plain filter. -/
def Target.Plain : Target → Prop
  | .id _ => True
  | .matching filter => filter.Plain

namespace Store

namespace Call

/-- The entity that a call is about. -/
def entity : Call → String
  | .define entity _ => entity
  | .create entity _ => entity
  | .findAll entity _ => entity
  | .find entity _ => entity
  | .update entity _ _ => entity
  | .delete entity _ => entity
  | .count entity => entity

/-- No handle stands in the arguments of the call, and no condition of the host. -/
def Plain : Call → Prop
  | .define _ defaults => Value.handlesFields defaults = []
  | .create _ fields => Value.handlesFields fields = []
  | .findAll _ filter => ∀ given ∈ filter, given.Plain
  | .find _ filter => filter.Plain
  | .update _ _ patch => Value.handlesFields patch = []
  | .delete _ target => target.Plain
  | .count _ => True

theorem Plain.setsPlain {call : Call} (h : call.Plain) : call.SetsPlain := by
  cases call with
  | define entity defaults => exact h
  | _ => trivial

end Call

/-- What a caller is told, with records shown as JSON. -/
inductive Answer where
  | done
  | record (json : Json)
  | records (all : List Json)
  | notFound (why : NotFound)
  | number (n : Nat)

/-- The answer to a call. A record is shown as it is when the call is over. -/
def Call.answer (s : Store) : Call → Answer
  | .define _ _ => .done
  | .create entity fields =>
    let (h, after) := s.create entity fields
    .record (after.heap.recordJson h)
  | .findAll entity filter => .records ((s.findAll entity filter).map s.heap.recordJson)
  | .find entity filter =>
    match s.find entity filter with
    | .ok h => .record (s.heap.recordJson h)
    | .error why => .notFound why
  | .update entity id patch =>
    match s.update entity id patch with
    | .ok (h, after) => .record (after.heap.recordJson h)
    | .error why => .notFound why
  | .delete entity target => .number (s.delete entity target).1
  | .count entity => .number (s.count entity)

/-! ## The state of an entity -/

/-- What an entity is to its callers: whether it has a table, the last id given out, its records in order of
creation, and the defaults of new ones. -/
structure EntityState where
  opened : Bool
  lastId : UInt64
  records : List Record
  defaults : FieldMap Value

/-- The state of an entity in a store. -/
def entityState (s : Store) (entity : String) : EntityState where
  opened := s.tables.contains entity
  lastId := (s.table entity).lastId
  records := (s.rows entity).map s.heap.get
  defaults := (s.defaults.get? entity).getD .empty

namespace EntityState

/-- The record that is made from fields. -/
def fresh (state : EntityState) (fields : Fields Value) : Record :=
  ⟨state.lastId + 1, state.defaults.merge (fields.erase "id")⟩

def record? (state : EntityState) (id : UInt64) : Option Record := state.records.find? (fun r => r.id == id)

/-- The records that a delete removes. -/
def removed (state : EntityState) : Target → List Record
  | .id id => (state.record? id).toList
  | .matching filter => state.records.filter (filter.holds .empty)

/-- The records that a delete leaves. -/
def kept (state : EntityState) : Target → List Record
  | .id id => state.records.eraseP (fun r => r.id == id)
  | .matching filter => state.records.filter (fun r => !filter.holds .empty r)

end EntityState

namespace Call

/-- A state after a plain call. -/
def onState (state : EntityState) : Call → EntityState
  | .define _ defaults => { state with defaults }
  | .create _ fields =>
    { state with
      opened := true
      lastId := state.lastId + 1
      records := state.records ++ [state.fresh fields] }
  | .update _ id patch =>
    -- Past the last record nothing is changed.
    { state with
      records := state.records.modify (state.records.findIdx (fun r => r.id == id)) (fun r => r.merge patch) }
  | .delete _ target => { state with records := state.kept target }
  | _ => state

/-- The answer to a plain call, where `follow` shows the records of the host. -/
def answerOn (follow : Handle → Json) (state : EntityState) : Call → Answer
  | .define _ _ => .done
  | .create _ fields => .record ((state.fresh fields).jsonWith follow)
  | .findAll _ none => .records (state.records.map (Record.jsonWith follow))
  | .findAll _ (some filter) =>
    .records ((state.records.filter (filter.holds .empty)).map (Record.jsonWith follow))
  | .find entity filter =>
    match state.records.find? (filter.holds .empty) with
    | some r => .record (r.jsonWith follow)
    | none => .notFound ⟨entity, filter.describe .empty⟩
  | .update entity id patch =>
    match state.record? id with
    | some r => .record ((r.merge patch).jsonWith follow)
    | none => .notFound ⟨entity, "id " ++ toString id.toNat⟩
  | .delete _ target => .number (state.removed target).length
  | .count _ => .number state.records.length

end Call

/-! ## Calls act on one entity -/

section

variable {s : Store} {own : List Handle}

theorem record?_entityState (s : Store) (entity : String) (id : UInt64) :
    (s.entityState entity).record? id = (s.row? entity id).map s.heap.get := List.find?_map

theorem exists_update_of_row? {entity : String} {id : UInt64} {h : Handle} (patch : Fields Value)
    (hrow : s.row? entity id = some h) : ∃ after, s.update entity id patch = .ok (h, after) :=
  ⟨_, by rw [update, hrow]⟩

theorem update_of_row?_eq_none {entity : String} {id : UInt64} (patch : Fields Value)
    (hrow : s.row? entity id = none) :
    s.update entity id patch = .error ⟨entity, "id " ++ toString id.toNat⟩ := by
  rw [update, hrow]

/-- A declared model changes the defaults of its entity only. -/
theorem entityState_define (s : Store) (entity other : String) (defaults : FieldMap Value) :
    (s.define entity defaults).entityState other =
      if entity = other then { s.entityState other with defaults } else s.entityState other := by
  have hdefaults : (s.define entity defaults).defaults.get? other =
      if entity = other then some defaults else s.defaults.get? other := FieldMap.get?_insert ..
  unfold entityState
  rw [hdefaults]
  by_cases heq : entity = other
  · simp only [if_pos heq]
    rfl
  · simp only [if_neg heq]
    rfl

theorem entityState_create (hs : s.DistinctRows) (entity other : String) {fields : Fields Value}
    (hplain : Value.handlesFields fields = []) :
    (s.create entity fields).2.entityState other =
      if entity = other then (Call.create entity fields).onState (s.entityState other) else s.entityState other := by
  -- Earlier records stay as they are, and the new one is stored as it was given.
  have hold : (s.rows other).map (s.create entity fields).2.heap.get = (s.rows other).map s.heap.get := by
    apply List.map_congr_left
    intro h hmem
    exact Heap.get_alloc_of_lt s.heap _ (hs.exist other h hmem)
  have hnew := get_create s entity fields
  rw [s.heap.detachFields_of_plain hplain] at hnew
  have hdefaults : (s.create entity fields).2.defaults = s.defaults := rfl
  unfold entityState
  rw [contains_create, table_create, rows_create, List.map_append, hold, hdefaults]
  by_cases heq : entity = other
  · subst heq
    simp only [if_true, List.map_singleton, decide_true, Bool.true_or]
    exact congrArg (fun r => EntityState.mk true _ (_ ++ [r]) _) hnew
  · simp [heq, table]

/-- Where no row has the id, a change of the record with this id changes nothing. -/
theorem modify_records_of_row?_eq_none {entity : String} {id : UInt64} (change : Record → Record)
    (hrow : s.row? entity id = none) :
    (s.entityState entity).records.modify ((s.entityState entity).records.findIdx (fun r => r.id == id)) change =
      (s.entityState entity).records := by
  have hnone : (s.entityState entity).record? id = none := by rw [record?_entityState, hrow, Option.map_none]
  -- The search runs to the end, and nothing stands there.
  have hlast : (s.entityState entity).records.findIdx (fun r => r.id == id) =
      (s.entityState entity).records.length := by
    rw [List.findIdx_eq_length]
    intro r hr
    exact Bool.eq_false_of_not_eq_true (List.find?_eq_none.mp hnone r hr)
  rw [hlast, List.modify_eq_self le_rfl]

theorem entityState_update (hs : Orderly s own) (entity other : String) (id : UInt64) {patch : Fields Value}
    (hplain : Value.handlesFields patch = []) :
    ((Call.update entity id patch).perform s).entityState other =
      if entity = other then (Call.update entity id patch).onState (s.entityState other) else s.entityState other := by
  -- The tables stay, so all that may have changed is what stands in the rows.
  have hstate : ((Call.update entity id patch).perform s).entityState other =
      { s.entityState other with
        records := (s.rows other).map ((Call.update entity id patch).perform s).heap.get } := by
    obtain ⟨htables, hdefaults⟩ := update_keeps s entity id patch
    unfold entityState rows table
    rw [htables, hdefaults]
  rw [hstate, Call.onState, Call.perform]
  cases hrow : s.row? entity id with
  | none =>
    rw [update_of_row?_eq_none patch hrow]
    by_cases heq : entity = other
    · subst heq
      rw [if_pos rfl, modify_records_of_row?_eq_none _ hrow]
      rfl
    · rw [if_neg heq]
      rfl
  | some h =>
    obtain ⟨after, hupdate⟩ := exists_update_of_row? patch hrow
    have hmem := (mem_rows_of_row? hrow).1
    have hget : after.heap.get = fun k => if h = k then (s.heap.get h).merge patch else s.heap.get k := by
      funext k
      rw [get_update hupdate (hs.distinct.exist entity h hmem), s.heap.detachFields_of_plain hplain]
    rw [hupdate]
    simp only [hget]
    by_cases heq : entity = other
    · subst heq
      rw [if_pos rfl]
      exact congrArg (fun records => { s.entityState entity with records })
        -- Rows are different, so the record with this id is changed at one place.
        (map_ite_eq_modify s.heap.get (fun r => r.id == id) (fun r => r.merge patch)
          (hs.distinct.nodup entity) hrow)
    -- The row is in no other table.
    · have hother : (s.rows other).map (fun k => if h = k then (s.heap.get h).merge patch else s.heap.get k) =
          (s.rows other).map s.heap.get := by
        apply List.map_congr_left
        intro k hk
        have hne : h ≠ k := (ne_of_mem_of_not_mem hk (hs.apart entity other heq h hmem)).symm
        rw [if_neg hne]
      rw [if_neg heq, hother]
      rfl

/-- What passes a plain filter in the heap passes it in the state of the entity. -/
theorem passes_eq (s : Store) {filter : Filter} (hplain : filter.Plain) :
    s.passes filter = filter.holds .empty ∘ s.heap.get := by
  funext h
  exact hplain.holds_eq s.heap (s.heap.get h)

/-- What is left of the rows is what a delete leaves of the state. -/
theorem kept_entityState (s : Store) (entity : String) {target : Target} (hplain : target.Plain) :
    (s.entityState entity).kept target = (s.kept entity target).map s.heap.get := by
  cases target with
  | id id => exact List.eraseP_map
  | matching filter =>
    rw [kept, passes_eq s hplain]
    exact List.filter_map

theorem removed_entityState (s : Store) (entity : String) {target : Target} (hplain : target.Plain) :
    (s.entityState entity).removed target = (s.removed entity target).map s.heap.get := by
  cases target with
  | id id =>
    rw [EntityState.removed, record?_entityState, removed]
    cases s.row? entity id <;> rfl
  | matching filter =>
    rw [removed, findAll, passes_eq s hplain]
    exact List.filter_map

theorem entityState_delete (s : Store) (entity other : String) {target : Target} (hplain : target.Plain) :
    (s.delete entity target).2.entityState other =
      if entity = other then (Call.delete entity target).onState (s.entityState other) else s.entityState other := by
  have hthins := thins_delete s entity target
  unfold entityState
  rw [hthins.contains_eq, hthins.lastId_eq, rows_delete, (delete_spec s entity target).1, defaults_delete]
  by_cases heq : entity = other
  · subst heq
    rw [if_pos rfl, if_pos rfl, ← kept_entityState s entity hplain]
    rfl
  · rw [if_neg heq, if_neg heq]

/-- **A plain call acts on the state of its entity alone.** -/
theorem entityState_perform (hs : Orderly s own) {call : Call} (hplain : call.Plain) (entity : String) :
    (call.perform s).entityState entity =
      if call.entity = entity then call.onState (s.entityState entity) else s.entityState entity := by
  cases call with
  | define other defaults => exact entityState_define s other entity defaults
  | create other fields => exact entityState_create hs.distinct other entity hplain
  | update other id patch => exact entityState_update hs other entity id hplain
  | delete other target => exact entityState_delete s other entity hplain
  | findAll other filter => exact (ite_self _).symm
  | find other filter => exact (ite_self _).symm
  | count other => exact (ite_self _).symm

end

/-! ## Answers come from the state of one entity -/

/-- An orderly store in which `follow` shows the records of the host. -/
structure Settled (s : Store) (own : List Handle) (follow : Handle → Json) : Prop where
  order : Orderly s own
  shown : ∀ k ∈ own, s.heap.recordJson k = follow k

namespace Settled

variable {s : Store} {own : List Handle} {follow : Handle → Json}

theorem perform (hs : Settled s own follow) {call : Call} (hplain : call.Plain) :
    Settled (call.perform s) own follow := by
  refine ⟨hs.order.perform hplain.setsPlain, ?_⟩
  intro k hk
  rw [hs.order.recordJson_perform call hk]
  exact hs.shown k hk

/-- A record is shown without regard to its place in the heap. -/
theorem recordJson_eq (hs : Settled s own follow) {h : Handle} (hlive : h.index < s.heap.size) :
    s.heap.recordJson h = (s.heap.get h).jsonWith follow := by
  rw [hs.order.heap.proper.recordJson_eq hlive]
  apply Record.jsonWith_congr
  intro k hk
  exact hs.shown k (hs.order.heap.holds h k hk)

theorem map_recordJson (hs : Settled s own follow) {entity : String} {rows : List Handle}
    (hrows : rows ⊆ s.rows entity) :
    rows.map s.heap.recordJson = (rows.map s.heap.get).map (Record.jsonWith follow) := by
  rw [List.map_map]
  apply List.map_congr_left
  intro h hmem
  exact hs.recordJson_eq (hs.order.distinct.exist entity h (hrows hmem))

/-- A new record is shown in the store after the call, where it exists. -/
theorem answer_create (hs : Settled s own follow) (entity : String) {fields : Fields Value}
    (hplain : Value.handlesFields fields = []) :
    (Call.create entity fields).answer s = (Call.create entity fields).answerOn follow (s.entityState entity) := by
  have hafter := hs.perform (show (Call.create entity fields).Plain from hplain)
  have hlive : (s.create entity fields).1.index < (s.create entity fields).2.heap.size := by
    rw [size_create]
    exact Nat.lt_succ_self _
  have hnew := hafter.recordJson_eq hlive
  rw [Call.perform, get_create, s.heap.detachFields_of_plain hplain] at hnew
  exact congrArg Answer.record hnew

/-- A plain filter decides by the record alone, so a search through the rows is one through the records. -/
theorem answer_findAll (hs : Settled s own follow) (entity : String) {filter : Option Filter}
    (hplain : ∀ given ∈ filter, given.Plain) :
    (Call.findAll entity filter).answer s = (Call.findAll entity filter).answerOn follow (s.entityState entity) := by
  cases filter with
  | none => exact congrArg Answer.records (hs.map_recordJson (List.Subset.refl _))
  | some filter =>
    have hfound : ((s.rows entity).filter (s.passes filter)).map s.heap.get =
        ((s.rows entity).map s.heap.get).filter (filter.holds .empty) := by
      rw [passes_eq s (hplain filter rfl), List.filter_map]
    have hrows : (s.rows entity).filter (s.passes filter) ⊆ s.rows entity := List.filter_sublist.subset
    have hjson := hs.map_recordJson hrows
    rw [hfound] at hjson
    exact congrArg Answer.records hjson

theorem answer_find (hs : Settled s own follow) (entity : String) {filter : Filter} (hplain : filter.Plain) :
    (Call.find entity filter).answer s = (Call.find entity filter).answerOn follow (s.entityState entity) := by
  have hfound : (s.entityState entity).records.find? (filter.holds .empty) =
      ((s.rows entity).find? (s.passes filter)).map s.heap.get := by
    rw [passes_eq s hplain]
    exact List.find?_map
  rw [Call.answer, Call.answerOn, hfound, find]
  cases hrow : (s.rows entity).find? (s.passes filter) with
  | none =>
    rw [hplain.describe_eq]
    rfl
  | some h =>
    have hmem := List.mem_of_find?_eq_some hrow
    exact congrArg Answer.record (hs.recordJson_eq (hs.order.distinct.exist entity h hmem))

theorem answer_update (hs : Settled s own follow) (entity : String) (id : UInt64) {patch : Fields Value}
    (hplain : Value.handlesFields patch = []) :
    (Call.update entity id patch).answer s =
      (Call.update entity id patch).answerOn follow (s.entityState entity) := by
  rw [Call.answer, Call.answerOn, record?_entityState]
  cases hrow : s.row? entity id with
  | none =>
    rw [update_of_row?_eq_none patch hrow]
    rfl
  | some h =>
    obtain ⟨after, hupdate⟩ := exists_update_of_row? patch hrow
    -- The updated record is shown in the store after the call as well.
    have hafter := hs.perform (show (Call.update entity id patch).Plain from hplain)
    rw [Call.perform, hupdate] at hafter
    have hlive := hs.order.distinct.exist entity h (mem_rows_of_row? hrow).1
    have hjson := hafter.recordJson_eq (hlive.trans_le (thins_update hupdate).size_le)
    rw [get_update hupdate hlive, if_pos rfl, s.heap.detachFields_of_plain hplain] at hjson
    rw [hupdate]
    exact congrArg Answer.record hjson

/-- **A plain call is answered from the state of its entity.** -/
theorem answer_eq (hs : Settled s own follow) {call : Call} (hplain : call.Plain) :
    call.answer s = call.answerOn follow (s.entityState call.entity) := by
  cases call with
  | define entity defaults => rfl
  | create entity fields => exact hs.answer_create entity hplain
  | findAll entity filter => exact hs.answer_findAll entity hplain
  | find entity filter => exact hs.answer_find entity hplain
  | update entity id patch => exact hs.answer_update entity id hplain
  | delete entity target =>
    rw [Call.answer, Call.answerOn, Call.entity, fst_delete, removed_entityState s entity hplain, List.length_map]
  | count entity =>
    rw [Call.answer, Call.answerOn, Call.entity, count, entityState, List.length_map]

/-- Every table in the dump is shown from the state of its entity. -/
theorem get?_dump (hs : Settled s own follow) (entity : String) :
    (s.tables.mapValues (fun table => Json.array (table.rows.map s.heap.recordJson))).get? entity =
      if (s.entityState entity).opened then some (.array ((s.entityState entity).records.map (Record.jsonWith follow)))
      else none := by
  have hjson := hs.map_recordJson (List.Subset.refl (s.rows entity))
  rw [FieldMap.get?_mapValues, entityState, FieldMap.contains]
  -- An entity without a table is not in the dump.
  cases htable : s.tables.get? entity with
  | none => rfl
  | some t =>
    have hrows : s.rows entity = t.rows := by rw [rows, table, htable, Option.getD_some]
    rw [hrows] at hjson
    simp [hrows, hjson]

end Settled

end Store

end ServiceEngine
