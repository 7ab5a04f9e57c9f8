import Mathlib
import ServiceEngine.Proofs.Exec.Effects
import ServiceEngine.Proofs.Store.Queries
import ServiceEngine.Service.Engine

/-!
# Seeding creates a prefix

Seed data are an object of entities, each with a list of objects. They are read while they are written: a
mistake in the middle is found when the rows before it have been created.

1. `Json.seedEntries` is what stands in the data, in order: rows and mistakes. Seeding is one walk along these
   entries, up to the first mistake (`Engine.seedTables_eq`).
2. A walk creates the rows of a prefix, as single calls would (`Engine.createRows_ok_append`).
3. What a store holds after it has created some rows is known for each entity: the old rows, and behind them
   one record for each new row, with the next ids and the defaults (`Store.exists_rows_creations`).
-/

namespace ServiceEngine

/-! ## What seed data hold -/

namespace Json

/-- The data are an object of lists of objects. -/
def IsSeed (data : Json) : Prop :=
  ∃ tables, data = .object tables ∧
    ∀ table ∈ tables, ∃ rows, table.2 = .array rows ∧ ∀ row ∈ rows, ∃ members, row = .object members

/-- The number of items in all lists of the object. -/
def seedCount : Json → Nat
  | .object tables => (tables.map (fun table => match table.2 with
    | .array rows => rows.length
    | _ => 0)).sum
  | _ => 0

/-- An entry of seed data: a row, with its entity and its fields, or a mistake. -/
abbrev SeedEntry := Except SeedError (String × Fields Value)

/-- An item of the list of an entity: the fields of a row, or a mistake. -/
def seedRow (entity : String) : Json → SeedEntry
  | .object members => .ok (entity, Value.ofMembers members)
  | _ => .error (.notRecord entity)

/-- What stands under an entity, in order. -/
def seedTable (table : String × Json) : List SeedEntry :=
  match table.2 with
  | .array rows => rows.map (seedRow table.1)
  | _ => [.error (.notList table.1)]

/-- What stands in seed data, in order. -/
def seedEntries : Json → List SeedEntry
  | .object tables => tables.flatMap seedTable
  | _ => [.error .notObject]

def IsRow (entry : SeedEntry) : Prop := ∃ row, entry = .ok row

theorem isRow_seedRow_iff (entity : String) (row : Json) :
    IsRow (seedRow entity row) ↔ ∃ members, row = .object members := by
  cases row <;> simp [IsRow, seedRow]

theorem forall_isRow_seedTable_iff (table : String × Json) :
    (∀ entry ∈ seedTable table, IsRow entry) ↔
      ∃ rows, table.2 = .array rows ∧ ∀ row ∈ rows, ∃ members, row = .object members := by
  unfold seedTable
  cases htable : table.2 with
  | array rows => simp [isRow_seedRow_iff]
  | _ => simp [IsRow]

/-- **Data are well formed just if they hold rows only.** -/
theorem isSeed_iff (data : Json) : data.IsSeed ↔ ∀ entry ∈ data.seedEntries, IsRow entry := by
  cases data with
  | object tables =>
    simp only [IsSeed, seedEntries, object.injEq, exists_eq_left', List.forall_mem_flatMap,
      forall_isRow_seedTable_iff]
  | _ => simp [IsSeed, seedEntries, IsRow]

/-- Well-formed data have as many entries as rows. -/
theorem length_seedEntries {data : Json} (h : data.IsSeed) : data.seedEntries.length = data.seedCount := by
  obtain ⟨tables, rfl, htables⟩ := h
  rw [seedEntries, List.length_flatMap, seedCount]
  congr 1
  apply List.map_congr_left
  intro table hmem
  obtain ⟨rows, hrows, -⟩ := htables table hmem
  simp [seedTable, hrows]

/-- A row under an entity is a row of the entity, and what JSON spells holds no handle. -/
theorem of_mem_seedTable {table : String × Json} {row : String × Fields Value} (h : .ok row ∈ seedTable table) :
    row.1 = table.1 ∧ Value.handlesFields row.2 = [] := by
  unfold seedTable at h
  cases htable : table.2 with
  | array rows =>
    rw [htable] at h
    obtain ⟨item, -, hitem⟩ := List.mem_map.mp h
    cases item with
    | object members =>
      obtain rfl := Except.ok.inj hitem
      exact ⟨rfl, Value.handlesFields_ofMembers members⟩
    | _ => cases hitem
  | _ => simp [htable] at h

theorem handlesFields_of_mem_seedEntries {data : Json} {row : String × Fields Value}
    (h : .ok row ∈ data.seedEntries) : Value.handlesFields row.2 = [] := by
  cases data with
  | object tables =>
    obtain ⟨table, -, hrow⟩ := List.mem_flatMap.mp h
    exact (of_mem_seedTable hrow).2
  | _ => simp [seedEntries] at h

/-- In canonical data the rows stand in the order of their entities. -/
theorem pairwise_seedEntries {data : Json} (h : data.Canonical) :
    data.seedEntries.Pairwise (fun a b => ∀ row row', a = .ok row → b = .ok row' → row.1 ≤ row'.1) := by
  cases data with
  | object tables =>
    rw [seedEntries, List.pairwise_flatMap]
    constructor
    -- Under one entity all rows have it.
    · intro table _
      apply List.pairwise_of_forall_mem_list
      rintro a ha b hb row row' rfl rfl
      rw [(of_mem_seedTable ha).1, (of_mem_seedTable hb).1]
    -- The entities of an object stand in their order, and so do the rows under them.
    · refine h.1.imp ?_
      rintro first second hlt a ha b hb row row' rfl rfl
      rw [(of_mem_seedTable ha).1, (of_mem_seedTable hb).1]
      exact le_of_lt hlt
  | _ => simp [seedEntries]

end Json

/-! ## What a store holds after rows were created -/

namespace Store

/-- One `create` for each row, in order. -/
def creations (rows : List (String × Fields Value)) : List Call := rows.map (fun row => .create row.1 row.2)

/-- The fields of the rows of an entity, in order. -/
def fieldsFor (rows : List (String × Fields Value)) (entity : String) : List (Fields Value) :=
  (rows.filter (fun row => row.1 = entity)).map Prod.snd

theorem fieldsFor_cons (row : String × Fields Value) (rows : List (String × Fields Value)) (entity : String) :
    fieldsFor (row :: rows) entity =
      if row.1 = entity then row.2 :: fieldsFor rows entity else fieldsFor rows entity := by
  by_cases h : row.1 = entity <;> simp [fieldsFor, h]

theorem performAll_creations_cons (s : Store) (row : String × Fields Value)
    (rows : List (String × Fields Value)) :
    s.performAll (creations (row :: rows)) = (s.create row.1 row.2).2.performAll (creations rows) := rfl

/-- Records that exist are not touched by later ones. -/
theorem get_creations_of_lt (s : Store) (rows : List (String × Fields Value)) {h : Handle}
    (hlt : h.index < s.heap.size) : (s.performAll (creations rows)).heap.get h = s.heap.get h := by
  induction rows generalizing s with
  | nil => rfl
  | cons row rows ih =>
    have hlt' : h.index < (s.create row.1 row.2).2.heap.size := by
      rw [size_create]
      omega
    rw [performAll_creations_cons, ih _ hlt']
    exact Heap.get_alloc_of_lt s.heap _ hlt

/-- An entity has a table if it had one or if a row is created for it. -/
theorem contains_creations (s : Store) (rows : List (String × Fields Value)) (entity : String) :
    (s.performAll (creations rows)).tables.contains entity = true ↔
      s.tables.contains entity = true ∨ ∃ row ∈ rows, row.1 = entity := by
  induction rows generalizing s with
  | nil => simp [creations, performAll]
  | cons row rows ih =>
    rw [performAll_creations_cons, ih, contains_create]
    simp [or_assoc, or_left_comm]

/-- The record of the row after `index` others: the next id, the defaults, and the fields over them. -/
def seededRecord (s : Store) (entity : String) (index : Nat) (fields : Fields Value) : Record :=
  ⟨(s.table entity).lastId + 1 + UInt64.ofNat index,
    ((s.defaults.get? entity).getD .empty).merge (fields.erase "id")⟩

/-- A new record of the entity counts as one row before those that follow. -/
theorem seededRecord_create (s : Store) (other entity : String) (fields : Fields Value) :
    (s.create other fields).2.seededRecord entity =
      fun index => s.seededRecord entity (if other = entity then index + 1 else index) := by
  funext index given
  have hdefaults : (s.create other fields).2.defaults = s.defaults := rfl
  by_cases heq : other = entity
  · subst heq
    -- The ids go on by one, so counting starts one later.
    have hnext : (s.table other).lastId + 1 + 1 + UInt64.ofNat index =
        (s.table other).lastId + 1 + UInt64.ofNat (index + 1) := by
      rw [UInt64.ofNat_add, UInt64.add_assoc _ 1, UInt64.add_comm 1]
      rfl
    rw [seededRecord, seededRecord, hdefaults, table_create, if_pos rfl, if_pos rfl, hnext]
  · rw [seededRecord, seededRecord, hdefaults, table_create, if_neg heq, if_neg heq]

/-- **The rows of an entity after some rows were created**: the rows that it had, and behind them one new
record for each row of its own, numbered on. -/
theorem exists_rows_creations (s : Store) {rows : List (String × Fields Value)}
    (hplain : ∀ row ∈ rows, Value.handlesFields row.2 = []) (entity : String) :
    ∃ fresh, (s.performAll (creations rows)).rows entity = s.rows entity ++ fresh ∧
      fresh.map (s.performAll (creations rows)).heap.get =
        (fieldsFor rows entity).mapIdx (s.seededRecord entity) := by
  induction rows generalizing s with
  | nil => exact ⟨[], by simp [creations, performAll], rfl⟩
  | cons row rows ih =>
    obtain ⟨hrow, hrows⟩ := List.forall_mem_cons.mp hplain
    obtain ⟨fresh, hold, hnew⟩ := ih (s.create row.1 row.2).2 hrows
    rw [seededRecord_create] at hnew
    rw [performAll_creations_cons, hold, rows_create, fieldsFor_cons]
    by_cases heq : row.1 = entity
    -- The record of the first row is the first of the new ones, and stays as it was made.
    · simp only [heq, if_true] at hnew ⊢
      refine ⟨⟨s.heap.size⟩ :: fresh, by simp, ?_⟩
      have hfirst : ((s.create entity row.2).2.performAll (creations rows)).heap.get ⟨s.heap.size⟩ =
          s.seededRecord entity 0 row.2 := by
        have hlive : s.heap.size < (s.create entity row.2).2.heap.size := by
          rw [size_create]
          exact Nat.lt_succ_self _
        have hget : (s.create entity row.2).2.heap.get ⟨s.heap.size⟩ = _ := get_create s entity row.2
        rw [get_creations_of_lt _ rows (h := ⟨s.heap.size⟩) hlive, hget, s.heap.detachFields_of_plain hrow]
        simp [seededRecord]
      rw [List.map_cons, hfirst, hnew, List.mapIdx_cons]
    -- A row of another entity changes nothing here.
    · simp only [heq, if_false, List.append_nil] at hnew ⊢
      exact ⟨fresh, rfl, hnew⟩

end Store

namespace Engine

/-! ## The walk along the entries -/

/-- Create the rows among entries up to the first mistake; the number created, counted on from `count`. -/
def createRows : List Json.SeedEntry → Nat → Store → Except SeedError Nat × Store
  | [], count, s => (.ok count, s)
  | .ok row :: rest, count, s => createRows rest (count + 1) (s.create row.1 row.2).2
  | .error why :: _, _, s => (.error why, s)

/-- Rows at the front are created one after the other, and counted. -/
theorem createRows_ok_append (rows : List (String × Fields Value)) (rest : List Json.SeedEntry)
    (count : Nat) (s : Store) :
    createRows (rows.map .ok ++ rest) count s =
      createRows rest (count + rows.length) (s.performAll (Store.creations rows)) := by
  induction rows generalizing count s with
  | nil => rfl
  | cons row rows ih =>
    rw [List.map_cons, List.cons_append, createRows, ih, List.length_cons, Store.performAll_creations_cons,
      Nat.add_right_comm, Nat.add_assoc]

/-- The rows of one entity are a walk along their entries, and what follows is walked only after
all of them. -/
theorem seedRows_append (entity : String) (rows : List Json)
    (more : List Json.SeedEntry) (count : Nat) (s : Store) :
    createRows (rows.map (Json.seedRow entity) ++ more) count s =
      match seedRows entity rows count s with
      | (.ok count, s) => createRows more count s
      | (.error why, s) => (.error why, s) := by
  induction rows generalizing count s with
  | nil => rfl
  | cons row rows ih =>
    cases row with
    | object members => exact ih (count + 1) (s.create entity (Value.ofMembers members)).2
    | _ => rfl

/-- **The tables are a walk along their entries.** -/
theorem seedTables_eq (tables : List (String × Json)) (count : Nat) (s : Store) :
    seedTables tables count s = createRows (tables.flatMap Json.seedTable) count s := by
  induction tables generalizing count s with
  | nil => rfl
  | cons table tables ih =>
    obtain ⟨entity, rows⟩ := table
    rw [List.flatMap_cons, Json.seedTable]
    cases rows with
    | array rows =>
      rw [seedRows_append, seedTables]
      rcases seedRows entity rows count s with ⟨why | total, after⟩
      · rfl
      · exact ih total after
    | _ => rfl

/-- **Seeding is one walk along the entries of the data.** -/
theorem seed_eq (e : Engine) (data : Json) :
    e.seed data = ((createRows data.seedEntries 0 e.store).1,
      { e with store := (createRows data.seedEntries 0 e.store).2 }) := by
  cases data with
  | object tables => simp only [seed, seedTables_eq, Json.seedEntries]
  | _ => rfl

/-- Entries begin with rows, up to the end or to the first mistake. -/
theorem exists_leading_rows (entries : List Json.SeedEntry) :
    ∃ (rows : List (String × Fields Value)) (rest : List Json.SeedEntry),
      entries = rows.map .ok ++ rest ∧ (rest = [] ∨ ∃ why after, rest = .error why :: after) := by
  induction entries with
  | nil => exact ⟨[], [], rfl, .inl rfl⟩
  | cons entry entries ih =>
    cases entry with
    | ok row =>
      obtain ⟨rows, rest, rfl, hrest⟩ := ih
      exact ⟨row :: rows, rest, rfl, hrest⟩
    | error why => exact ⟨[], _, rfl, .inr ⟨why, entries, rfl⟩⟩

/-- **Seeding creates exactly a prefix.** For every engine and all data, seeding gives a number just if the data
are an object of lists of objects, and it is the number of all rows. It creates the rows that lead the entries
of the data, one after the other, and nothing else happens. These are all entries if the data are well formed;
otherwise the next entry is the first mistake, and seeding fails with it.

Rows are created in the order of the entities, and what they are made of is known: behind the rows that an
entity had stands one record for each of its leading rows, with the ids that follow the last one and the
model's defaults under its fields. No record that was there before has changed, and an entity has a table only
if it had one or has got a row. -/
theorem seeding_creates_prefix (e : Engine) (data : Json) :
    let after := (e.seed data).2.store
    (∀ n, (e.seed data).1 = .ok n ↔ data.IsSeed ∧ n = data.seedCount) ∧
      ∃ (rows : List (String × Fields Value)) (rest : List Json.SeedEntry),
        data.seedEntries = rows.map .ok ++ rest ∧
        (data.IsSeed → rest = []) ∧
        (¬ data.IsSeed → ∃ why more, rest = .error why :: more ∧ (e.seed data).1 = .error why) ∧
        (e.seed data).2 = { e with store := e.store.performAll (Store.creations rows) } ∧
        (data.Canonical → (rows.map Prod.fst).Pairwise (· ≤ ·)) ∧
        (∀ entity, ∃ fresh, after.rows entity = e.store.rows entity ++ fresh ∧
          fresh.map after.heap.get = (Store.fieldsFor rows entity).mapIdx (e.store.seededRecord entity)) ∧
        (∀ entity, after.tables.contains entity = true ↔
          e.store.tables.contains entity = true ∨ ∃ row ∈ rows, row.1 = entity) ∧
        ∀ h : Handle, h.index < e.store.heap.size → after.heap.get h = e.store.heap.get h := by
  intro after
  obtain ⟨rows, rest, hentries, hrest⟩ := exists_leading_rows data.seedEntries
  have hseed : e.seed data = ((createRows rest rows.length (e.store.performAll (Store.creations rows))).1,
      { e with store := (createRows rest rows.length (e.store.performAll (Store.creations rows))).2 }) := by
    rw [seed_eq, hentries, createRows_ok_append, Nat.zero_add]
  -- Whatever follows the leading rows, no more is created.
  have hstore : (createRows rest rows.length (e.store.performAll (Store.creations rows))).2 =
      e.store.performAll (Store.creations rows) := by
    rcases hrest with rfl | ⟨why, more, rfl⟩ <;> rfl
  have hafter : after = e.store.performAll (Store.creations rows) := by
    simp only [after, hseed, hstore]
  have hrows : ∀ row ∈ rows, .ok row ∈ data.seedEntries := by
    intro row hrow
    rw [hentries]
    exact List.mem_append_left _ (List.mem_map_of_mem hrow)
  -- A mistake is not a row, so the data are well formed just if nothing is left behind the rows.
  have hwell : data.IsSeed ↔ rest = [] := by
    rw [Json.isSeed_iff, hentries]
    constructor
    · intro hall
      rcases hrest with rfl | ⟨why, more, rfl⟩
      · rfl
      · obtain ⟨row, hrow⟩ := hall (.error why) (List.mem_append_right _ List.mem_cons_self)
        cases hrow
    · rintro rfl
      rw [List.append_nil]
      exact List.forall_mem_map.mpr (fun row _ => ⟨row, rfl⟩)
  refine ⟨?_, rows, rest, hentries, hwell.mp, ?_, ?_, ?_, ?_, ?_, ?_⟩
  -- The number is counted along the rows, and with a mistake there is none.
  · intro n
    rw [hseed, hwell]
    rcases hrest with rfl | ⟨why, more, rfl⟩
    · have hcount := Json.length_seedEntries (hwell.mpr rfl)
      rw [hentries, List.append_nil, List.length_map] at hcount
      simp [createRows, ← hcount, eq_comm]
    · simp [createRows]
  · intro hnot
    rcases hrest with rfl | ⟨why, more, rfl⟩
    · exact absurd (hwell.mpr rfl) hnot
    · exact ⟨why, more, rfl, by rw [hseed, createRows]⟩
  · rw [hseed, hstore]
  · intro hcanonical
    have hpairwise := Json.pairwise_seedEntries hcanonical
    rw [hentries, List.pairwise_append, List.pairwise_map] at hpairwise
    exact List.pairwise_map.mpr (hpairwise.1.imp (fun hle => hle _ _ rfl rfl))
  · intro entity
    rw [hafter]
    exact e.store.exists_rows_creations
      (fun row hrow => Json.handlesFields_of_mem_seedEntries (hrows row hrow)) entity
  · intro entity
    rw [hafter]
    exact e.store.contains_creations rows entity
  · intro h hlive
    rw [hafter]
    exact e.store.get_creations_of_lt rows hlive

/-- A mistake between the rows of the second entity: its first row is there, the third entity has no table. -/
example :
    let e : Engine := ⟨false, [], [], .idle, .empty, .fixed 0, 0, #[]⟩
    let data : Json := .object [("A", .array [.object []]), ("B", .array [.object [], .null, .object []]),
      ("C", .array [.object []])]
    (e.seed data).1 = .error (.notRecord "B") ∧ (e.seed data).2.store.entities = ["A", "B"] ∧
      (e.seed data).2.store.count "B" = 1 := by
  decide

end Engine

end ServiceEngine
