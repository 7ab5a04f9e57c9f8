import Mathlib
import ServiceEngine.Proofs.Exec.Evaluation

/-!
# Values that lead to no writing function

Functions are values: they can be put into lists and objects, found in records, and called through any
expression. `Heap.Yields` says which functions a value leads to, through lists, objects and records, and a
value is harmless if none of them writes (`Heap.Harmless`).

1. The properties of a harmless value are harmless, unless they are named `create`, `update` or `delete`
   (`Heap.Harmless.property`), and so is what operators give.
2. A call of a function that does not write leaves the store alone. It gives a harmless value if the rows of
   the tables are harmless (`Builtin.leaves_call`).
-/

namespace ServiceEngine

/-! ## Functions that write -/

/-- Whether an operation can change the store. -/
def Operation.writes : Operation → Bool
  | .create | .update | .delete => true
  | .findAll | .find | .count => false

/-- Whether a function can change the store. -/
def Builtin.writes : Builtin → Bool
  | .log | .now => false
  | .database _ operation => operation.writes

/-- The names of the operations that write. -/
def Operation.writing : List String := ["create", "update", "delete"]

/-- An operation under another name does not write. -/
theorem Operation.writes_of_ofName? {name : String} {operation : Operation} (hname : name ∉ writing)
    (h : ofName? name = some operation) : operation.writes = false := by
  obtain rfl := name_of_ofName? h
  cases operation with
  | findAll => rfl
  | find => rfl
  | count => rfl
  | _ => exact absurd (by decide) hname

/-! ## Harmless values -/

namespace Heap

/-- A value leads to a function: the function is found in it at some depth, where records are read in the
heap. -/
inductive Yields (heap : Heap) : Value → Builtin → Prop where
  | func (f : Builtin) : Yields heap (.func f) f
  | item {items : List Value} {v : Value} {f : Builtin} : v ∈ items → Yields heap v f →
      Yields heap (.list items) f
  | field {fields : Fields Value} {entry : String × Value} {f : Builtin} : entry ∈ fields →
      Yields heap entry.2 f → Yields heap (.obj fields) f
  | record {h : Handle} {entry : String × Value} {f : Builtin} : entry ∈ (heap.get h).fields.entries →
      Yields heap entry.2 f → Yields heap (.record h) f

/-- None of the functions that a value leads to writes. -/
def Harmless (heap : Heap) (v : Value) : Prop := ∀ f, heap.Yields v f → f.writes = false

/-- All fields are harmless. -/
def HarmlessFields (heap : Heap) (fields : Fields Value) : Prop := ∀ entry ∈ fields, heap.Harmless entry.2

variable {heap : Heap}

/-- A list is harmless just if its items are. -/
theorem harmless_list {items : List Value} :
    heap.Harmless (.list items) ↔ ∀ v ∈ items, heap.Harmless v := by
  constructor
  · intro h v hv f hf
    exact h f (.item hv hf)
  -- The only function that a list leads to is one of an item.
  · rintro h f ⟨⟩
    next v hv hf => exact h v hv f hf

theorem harmless_obj {fields : Fields Value} : heap.Harmless (.obj fields) ↔ heap.HarmlessFields fields := by
  constructor
  · intro h entry hentry f hf
    exact h f (.field hentry hf)
  · rintro h f ⟨⟩
    next entry hentry hf => exact h entry hentry f hf

theorem harmless_record {h : Handle} :
    heap.Harmless (.record h) ↔ heap.HarmlessFields (heap.get h).fields := by
  constructor
  · intro hrecord entry hentry f hf
    exact hrecord f (.record hentry hf)
  · rintro hfields f ⟨⟩
    next entry hentry hf => exact hfields entry hentry f hf

theorem harmless_func {f : Builtin} : heap.Harmless (.func f) ↔ f.writes = false := by
  constructor
  · intro h
    exact h f (.func f)
  · rintro h f ⟨⟩
    exact h

mutual

/-- What JSON spells holds neither functions nor records. -/
theorem harmless_ofJson : (json : Json) → heap.Harmless (Value.ofJson json)
  | .null => nofun
  | .bool _ => nofun
  | .number _ => nofun
  | .string _ => nofun
  | .array items => harmless_list.mpr (harmless_ofItems items)
  | .object members => harmless_obj.mpr (harmless_ofMembers members)

theorem harmless_ofItems : (items : List Json) → ∀ v ∈ Value.ofItems items, heap.Harmless v
  | [] => by
    intro v hv
    cases hv
  | item :: rest => List.forall_mem_cons.mpr ⟨harmless_ofJson item, harmless_ofItems rest⟩

theorem harmless_ofMembers : (members : List (String × Json)) →
    heap.HarmlessFields (Value.ofMembers members)
  | [] => by
    intro entry hentry
    cases hentry
  | (_, value) :: rest => List.forall_mem_cons.mpr ⟨harmless_ofJson value, harmless_ofMembers rest⟩

end

namespace HarmlessFields

variable {fields : Fields Value}

theorem get? (h : heap.HarmlessFields fields) {name : String} {v : Value} (hget : fields.get? name = some v) :
    heap.Harmless v :=
  h _ (Fields.mem_of_get? hget)

theorem getD (h : heap.HarmlessFields fields) (name : String) :
    heap.Harmless ((fields.get? name).getD .null) := by
  cases hget : fields.get? name with
  | none => exact nofun
  | some v => exact h.get? hget

theorem insert (h : heap.HarmlessFields fields) {v : Value} (hv : heap.Harmless v) (name : String) :
    heap.HarmlessFields (fields.insert name v) := by
  intro entry hentry
  rcases Fields.mem_insert hentry with rfl | hentry
  · exact hv
  · exact h entry hentry

theorem insertIfNew (h : heap.HarmlessFields fields) {v : Value} (hv : heap.Harmless v) (name : String) :
    heap.HarmlessFields (fields.insertIfNew name v) := by
  unfold Fields.insertIfNew
  split
  · exact h
  · exact h.insert hv name

end HarmlessFields

/-- The fields of a harmless value are harmless; a missing one is null. -/
theorem Harmless.field? {v u : Value} {name : String} (hv : heap.Harmless v)
    (h : heap.field? v name = some u) : heap.Harmless u := by
  cases v with
  | obj fields =>
    cases h
    exact (harmless_obj.mp hv).getD name
  | record handle =>
    cases h
    unfold Record.get?
    split
    -- The id of a record is a number.
    · exact nofun
    · exact (harmless_record.mp hv).getD name
  | _ => cases h

/-- The property of a harmless value is harmless, unless it is an operation that writes. -/
theorem Harmless.property {v u : Value} {name : String} (hv : heap.Harmless v)
    (hname : name ∉ Operation.writing) (h : heap.property v name = .ok u) : heap.Harmless u := by
  unfold Heap.property at h
  split at h
  -- Behind `db` there are operations, and entities under all other names.
  · split at h
    next operation hoperation =>
      cases h
      exact harmless_func.mpr (Operation.writes_of_ofName? hname hoperation)
    next =>
      cases h
      exact nofun
  -- Behind an entity there are operations only.
  · split at h
    next operation hoperation =>
      cases h
      exact harmless_func.mpr (Operation.writes_of_ofName? hname hoperation)
    next => cases h
  -- Lengths are numbers, and fields are those of the value itself.
  · split at h
    · cases h
      exact nofun
    · cases h
      exact nofun
    · split at h
      next field hfield =>
        cases h
        exact hv.field? hfield
      next => cases h

end Heap

/-! ## Operators -/

section Operators

variable {heap other : Heap} {l r v u : Value}

theorem BinaryOp.harmless_order {operator : BinaryOp} (h : operator.order l r = .ok u) : heap.Harmless u := by
  unfold order at h
  split at h <;> cases h
  · exact nofun
  · exact nofun

theorem BinaryOp.harmless_arithmetic {operator : BinaryOp} (h : operator.arithmetic l r = .ok u) :
    heap.Harmless u := by
  unfold arithmetic at h
  split at h
  · split at h
    · cases h
      exact nofun
    · cases h
      exact nofun
    · split at h <;> cases h
      exact nofun
  · cases h

theorem BinaryOp.harmless_apply {operator : BinaryOp} (h : operator.apply other l r = .ok u) :
    heap.Harmless u := by
  unfold apply at h
  cases operator with
  | eq | ne | and | or =>
    cases h
    exact nofun
  | lt | le | gt | ge => exact harmless_order h
  | sub | mul | div => exact harmless_arithmetic h
  | add =>
    -- Sums of numbers, and texts put together.
    simp only at h
    split at h <;> cases h
    · exact nofun
    · exact nofun

theorem BinaryOp.harmless_combine {operator : BinaryOp} (h : operator.combine other l r = .ok u) :
    heap.Harmless u := by
  unfold combine at h
  split at h
  · cases h
    exact nofun
  · cases h
    exact nofun
  · exact harmless_apply h

theorem BinaryOp.harmless_settles? {operator : BinaryOp} (h : operator.settles? l = some u) :
    heap.Harmless u := by
  unfold settles? at h
  split at h
  -- An operand that settles an operator gives a truth value.
  · split at h <;> cases h
    exact nofun
  · split at h <;> cases h
    exact nofun
  · cases h

theorem UnaryOp.harmless_apply {operator : UnaryOp} (h : operator.apply v = .ok u) : heap.Harmless u := by
  unfold apply at h
  split at h <;> cases h
  · exact nofun
  · exact nofun

end Operators

/-! ## Steps that leave the store alone -/

/-- A step has left the store as it was, and the value that it gives, if any, has a property. -/
structure Action.Leaves {α : Type} (s : Store) (P : α → Prop) (result : Except Fault α × World) : Prop where
  store_eq : result.2.store = s
  value : ∀ a, result.1 = .ok a → P a

namespace Action.Leaves

variable {α β : Type} {s : Store} {P : α → Prop} {Q : β → Prop}

theorem ok {a : α} {w : World} (ha : P a) (hw : w.store = s) : Leaves s P (.ok a, w) := by
  refine ⟨hw, ?_⟩
  rintro b ⟨⟩
  exact ha

theorem error {fault : Fault} {w : World} (hw : w.store = s) : Leaves s P (.error fault, w) := by
  refine ⟨hw, ?_⟩
  rintro b ⟨⟩

/-- Steps one after the other leave the store alone if each of them does. -/
theorem andThen {result : Except Fault α × World} {next : α → World → Except Fault β × World}
    (h : Leaves s P result) (hnext : ∀ a w, P a → w.store = s → Leaves s Q (next a w)) :
    Leaves s Q (Action.andThen result next) := by
  obtain ⟨fault | a, w⟩ := result
  · exact .error h.store_eq
  · exact hnext a w (h.value a rfl) h.store_eq

end Action.Leaves

/-! ## Calls -/

/-- Every row of every table is harmless. -/
def Store.HarmlessRows (s : Store) : Prop := ∀ entity, ∀ h ∈ s.rows entity, s.heap.Harmless (.record h)

theorem Store.mem_rows_of_mem_findAll {s : Store} {entity : String} {filter : Option Filter} {h : Handle}
    (hmem : h ∈ s.findAll entity filter) : h ∈ s.rows entity := by
  cases filter with
  | none => exact hmem
  | some filter => exact List.mem_of_mem_filter hmem

theorem Store.mem_rows_of_find {s : Store} {entity : String} {filter : Filter} {h : Handle}
    (hfind : s.find entity filter = .ok h) : h ∈ s.rows entity := by
  unfold find at hfind
  split at hfind
  next found hfound =>
    cases hfind
    exact List.mem_of_find?_eq_some hfound
  next => cases hfind

namespace Query

/-- The operation of a query. -/
def operation : Query → Operation
  | .create _ => .create
  | .findAll _ => .findAll
  | .find _ => .find
  | .update _ _ => .update
  | .delete _ => .delete
  | .count => .count

theorem operation_of_map {α : Type} {operation : Operation} {f : α → Query} {result : Except BadArgument α}
    {query : Query} (h : result.map f = .ok query) (hf : ∀ a, (f a).operation = operation) :
    query.operation = operation := by
  cases result with
  | error why => cases h
  | ok a =>
    cases h
    exact hf a

/-- Arguments are understood as a query of the operation that they are given to. -/
theorem operation_of_ofArguments {heap : Heap} {operation : Operation} {args : List Value} {query : Query}
    (h : ofArguments heap operation args = .ok query) : query.operation = operation := by
  -- One case for each way of writing the call; those that take one argument read it and make
  -- their query of it.
  revert h
  fun_cases ofArguments heap operation args
  case case2 | case6 | case8 | case9 | case13 | case14 =>
    intro h
    exact operation_of_map h (fun _ => rfl)
  case case11 v patch =>
    intro h
    -- Both arguments of an update have to be understood.
    cases hid : Argument.id heap v with
    | error why =>
      rw [hid] at h
      cases h
    | ok id =>
      cases hpatch : Argument.fields heap patch with
      | error why =>
        rw [hid, hpatch] at h
        cases h
      | ok fields =>
        rw [hid, hpatch] at h
        cases h
        rfl
  all_goals
    rintro ⟨⟩
    try rfl

/-- Carrying out an operation that does not write leaves the store alone, and gives rows or a number. -/
theorem perform_of_reading {s s' : Store} (hs : s.HarmlessRows) {query : Query}
    (hwrites : query.operation.writes = false) {entity : String} {v : Value}
    (h : query.perform s entity = .ok (v, s')) : s' = s ∧ s.heap.Harmless v := by
  cases query with
  -- These three write.
  | create | update | delete => cases hwrites
  | findAll filter =>
    cases h
    refine ⟨rfl, Heap.harmless_list.mpr ?_⟩
    intro v hv
    obtain ⟨h, hh, rfl⟩ := List.mem_map.mp hv
    -- What is found are rows, and rows are harmless.
    exact hs entity h (Store.mem_rows_of_mem_findAll hh)
  | find filter =>
    simp only [perform] at h
    cases hfind : s.find entity filter with
    | error what =>
      rw [hfind] at h
      cases h
    | ok found =>
      rw [hfind] at h
      cases h
      exact ⟨rfl, hs entity found (Store.mem_rows_of_find hfind)⟩
  | count =>
    cases h
    exact ⟨rfl, nofun⟩

end Query

namespace Builtin

/-- A reading operation on an entity leaves the store alone, whether or not it finds anything. -/
theorem callOn_of_reading {s s' : Store} (hs : s.HarmlessRows) {entity : String} {operation : Operation}
    (hwrites : operation.writes = false) {args : List Value} {v : Value}
    (h : callOn s entity operation args = .ok (v, s')) : s' = s ∧ s.heap.Harmless v := by
  unfold callOn at h
  split at h
  next => cases h
  next query hquery =>
    rw [← Query.operation_of_ofArguments hquery] at hwrites
    split at h
    next done hdone =>
      cases h
      exact Query.perform_of_reading hs hwrites hdone
    next => cases h

theorem callDatabase_of_reading {s s' : Store} (hs : s.HarmlessRows) {entity : Option String}
    {operation : Operation} (hwrites : operation.writes = false) {args : List Value} {v : Value}
    (h : callDatabase s entity operation args = .ok (v, s')) : s' = s ∧ s.heap.Harmless v := by
  unfold callDatabase at h
  -- The entity is fixed or stands first among the arguments; without it there is no call.
  split at h
  · exact callOn_of_reading hs hwrites h
  · exact callOn_of_reading hs hwrites h
  · cases h
  · cases h

/-- A call of a function that does not write leaves the store alone, and gives a harmless value. -/
theorem leaves_call {s : Store} (hs : s.HarmlessRows) {f : Builtin} (hf : f.writes = false)
    (args : List Value) {w : World} (hw : w.store = s) :
    Action.Leaves s s.heap.Harmless ((Action.atomically (f.call args)).run w) := by
  subst hw
  rw [Action.run_atomically]
  cases f with
  | log => exact .ok nofun rfl
  | now =>
    unfold call
    -- The clock takes no argument.
    by_cases hargs : args.isEmpty = true
    · simp only [hargs, if_true]
      exact .ok nofun rfl
    · simp only [hargs]
      exact .error rfl
  | database entity operation =>
    unfold call
    simp only
    cases hcall : callDatabase w.store entity operation args with
    | error fault => exact .error rfl
    | ok done =>
      obtain ⟨v, s'⟩ := done
      obtain ⟨rfl, hv⟩ := callDatabase_of_reading hs hf hcall
      exact .ok hv rfl

end Builtin

end ServiceEngine
