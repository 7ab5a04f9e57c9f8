/-!
# Named fields

A `Fields α` is a list of named values of `α`. Where it stands for a map, its names ascend, so two maps
with the same entries are the same list and every walk over a map meets the names in one fixed order.
A `FieldMap α` is such a list together with the order: records and stores keep their fields in this form.

Main statements: `Fields.get?_insert` (a lookup after a write), `Fields.sorted_insert` and
`Fields.sorted_merge` (writes keep the order), `FieldMap.get?_merge` (a lookup after many writes).
-/

namespace ServiceEngine

/-- The entries of a map from names to `α`. -/
abbrev Fields (α : Type) := List (String × α)

namespace Fields

variable {α β : Type}

/-- The value stored under `name`. -/
def get? : Fields α → String → Option α
  | [], _ => none
  | (key, value) :: rest, name => if key = name then some value else get? rest name

def contains (m : Fields α) (name : String) : Bool := (m.get? name).isSome

/-- Write `value` under `name`, in place of an earlier value. -/
def insert : Fields α → String → α → Fields α
  | [], name, value => [(name, value)]
  | (key, old) :: rest, name, value =>
    if key = name then (name, value) :: rest
    else if name < key then (name, value) :: (key, old) :: rest
    else (key, old) :: insert rest name value

/-- Write every entry of `more` over `base`, in the order of `more`. -/
def merge (base more : Fields α) : Fields α :=
  more.foldl (fun m entry => m.insert entry.1 entry.2) base

/-- The map of a list of entries; the last entry of a name wins. -/
def ofEntries (entries : List (String × α)) : Fields α := merge [] entries

/-- Write `value` under `name` unless `name` has a value already. -/
def insertIfNew (m : Fields α) (name : String) (value : α) : Fields α :=
  if m.contains name then m else m.insert name value

/-- The entries of all names but `name`. -/
def erase (m : Fields α) (name : String) : Fields α := m.filter (fun entry => entry.1 ≠ name)

/-- The names, in ascending order. -/
def names (m : Fields α) : List String := m.map Prod.fst

/-- Apply `f` to every value. -/
def mapValues (f : α → β) (m : Fields α) : Fields β := m.map (fun entry => (entry.1, f entry.2))

/-- Names strictly ascend, so none repeats. -/
def Sorted (m : Fields α) : Prop := m.Pairwise (fun a b => a.1 < b.1)

/-! ## Lookups -/

@[simp] theorem get?_nil (name : String) : get? ([] : Fields α) name = none := rfl

/-- A lookup after a write finds the written value under its name and the earlier ones
elsewhere. -/
theorem get?_insert (m : Fields α) (name other : String) (value : α) :
    (m.insert name value).get? other = if name = other then some value else m.get? other := by
  induction m with
  | nil => simp [insert, get?]
  | cons entry rest ih =>
    obtain ⟨key, old⟩ := entry
    -- The write meets the name, has to come before the first entry, or goes on behind it.
    by_cases hk : key = name
    · subst hk
      by_cases ho : key = other <;> simp [insert, get?, ho]
    · by_cases hlt : name < key
      · simp [insert, get?, hk, hlt]
      · simp only [insert, hk, hlt, if_false, get?, ih]
        by_cases ho : name = other
        · subst ho
          simp [hk]
        · simp [ho]

/-- Of two writes to a name the later counts. -/
theorem insert_insert (m : Fields α) (name : String) (first second : α) :
    (m.insert name first).insert name second = m.insert name second := by
  induction m with
  | nil => simp [insert]
  | cons entry rest ih =>
    obtain ⟨key, old⟩ := entry
    by_cases hk : key = name
    · simp [insert, hk]
    · by_cases hlt : name < key
      · simp [insert, hk, hlt]
      · simp [insert, hk, hlt, ih]

theorem contains_insert (m : Fields α) (name other : String) (value : α) :
    (m.insert name value).contains other = (decide (name = other) || m.contains other) := by
  unfold contains
  rw [get?_insert]
  by_cases h : name = other <;> simp [h]

theorem get?_mapValues (f : α → β) (m : Fields α) (name : String) :
    (m.mapValues f).get? name = (m.get? name).map f := by
  induction m with
  | nil => rfl
  | cons entry rest ih =>
    obtain ⟨key, old⟩ := entry
    simp only [mapValues, List.map_cons, get?] at *
    by_cases hk : key = name <;> simp [hk, ih]

theorem mem_of_get? {m : Fields α} {name : String} {value : α} (h : m.get? name = some value) :
    (name, value) ∈ m := by
  induction m with
  | nil => cases h
  | cons entry rest ih =>
    obtain ⟨key, old⟩ := entry
    rw [get?] at h
    by_cases hk : key = name
    · rw [if_pos hk] at h
      cases h
      exact hk ▸ List.mem_cons_self
    · rw [if_neg hk] at h
      exact List.mem_cons_of_mem _ (ih h)

/-- A write of a default is seen only where there was no value. -/
theorem get?_insertIfNew (m : Fields α) (name other : String) (value : α) :
    (m.insertIfNew name value).get? other =
      (m.get? other).or (if name = other then some value else none) := by
  unfold insertIfNew contains
  cases hname : m.get? name with
  | none =>
    simp only [Option.isSome_none, Bool.false_eq_true, if_false, get?_insert]
    by_cases h : name = other
    · subst h
      simp [hname]
    · simp [h]
  -- The name has a value already, so nothing is written.
  | some old =>
    simp only [Option.isSome_some, if_true]
    by_cases h : name = other
    · subst h
      simp [hname]
    · simp [h]

/-- A lookup after writes depends on the map before them only by the same lookup. -/
theorem get?_merge_congr {base base' : Fields α} {name : String} (more : Fields α)
    (h : base.get? name = base'.get? name) :
    (base.merge more).get? name = (base'.merge more).get? name := by
  induction more generalizing base base' with
  | nil => exact h
  | cons first rest ih =>
    apply ih
    rw [get?_insert, get?_insert, h]

/-- Writes to other names do not matter to a lookup. -/
theorem get?_merge_of_not_mem (base : Fields α) {more : Fields α} {name : String}
    (h : name ∉ more.names) : (base.merge more).get? name = base.get? name := by
  induction more generalizing base with
  | nil => rfl
  | cons first rest ih =>
    rw [names, List.map_cons, List.mem_cons, not_or] at h
    have hnext := ih (base.insert first.1 first.2) h.2
    rw [merge, List.foldl_cons, ← merge, hnext, get?_insert, if_neg (Ne.symm h.1)]

theorem not_mem_names_erase (m : Fields α) (name : String) : name ∉ (m.erase name).names := by
  simp [names, erase]

/-! ## Order -/

/-- An entry of a map after a write is the written one or was there before. -/
theorem mem_insert {m : Fields α} {name : String} {value : α} {entry : String × α}
    (h : entry ∈ m.insert name value) : entry = (name, value) ∨ entry ∈ m := by
  induction m with
  | nil => simpa [insert] using h
  | cons first rest ih =>
    obtain ⟨key, old⟩ := first
    simp only [insert] at h
    split at h
    -- The first entry is replaced, preceded or left alone.
    · rcases List.mem_cons.mp h with h | h
      · exact Or.inl h
      · exact Or.inr (List.mem_cons_of_mem _ h)
    · split at h
      · rcases List.mem_cons.mp h with h | h
        · exact Or.inl h
        · exact Or.inr h
      · rcases List.mem_cons.mp h with h | h
        · exact Or.inr (h ▸ List.mem_cons_self)
        · exact (ih h).imp id (List.mem_cons_of_mem _)

/-- What stands in a map after many writes was there before or was written. -/
theorem mem_merge {base more : Fields α} {entry : String × α} (h : entry ∈ base.merge more) :
    entry ∈ base ∨ entry ∈ more := by
  induction more generalizing base with
  | nil => exact .inl h
  | cons first rest ih =>
    rcases ih h with hbase | hrest
    · rcases mem_insert hbase with rfl | hbase
      · exact .inr List.mem_cons_self
      · exact .inl hbase
    · exact .inr (List.mem_cons_of_mem _ hrest)

/-- A write keeps the names in ascending order. -/
theorem sorted_insert {m : Fields α} (h : m.Sorted) (name : String) (value : α) :
    (m.insert name value).Sorted := by
  induction m with
  | nil => simp [insert, Sorted]
  | cons first rest ih =>
    obtain ⟨key, old⟩ := first
    obtain ⟨hfirst, hrest⟩ := List.pairwise_cons.mp h
    simp only [insert]
    split
    case isTrue heq =>
      subst heq
      exact List.pairwise_cons.mpr ⟨hfirst, hrest⟩
    case isFalse hne =>
      split
      case isTrue hlt =>
        refine List.pairwise_cons.mpr ⟨fun entry hentry => ?_, h⟩
        rcases List.mem_cons.mp hentry with rfl | hentry
        · exact hlt
        · exact String.lt_trans hlt (hfirst entry hentry)
      -- The write goes on behind the first entry, and what it meets there is later than that
      -- entry.
      case isFalse hge =>
        refine List.pairwise_cons.mpr ⟨fun entry hentry => ?_, ih hrest⟩
        rcases mem_insert hentry with rfl | hentry
        · show key < name
          grind
        · exact hfirst entry hentry

theorem sorted_merge {base : Fields α} (h : base.Sorted) (more : Fields α) :
    (base.merge more).Sorted := by
  induction more generalizing base with
  | nil => exact h
  | cons first rest ih => exact ih (sorted_insert h first.1 first.2)

theorem sorted_erase {m : Fields α} (h : m.Sorted) (name : String) : (m.erase name).Sorted :=
  h.filter _

theorem sorted_ofEntries (entries : List (String × α)) : (ofEntries entries).Sorted :=
  sorted_merge List.Pairwise.nil entries

/-! ## Lookups in a map with ascending names -/

/-- A name that comes before all names of a map has no value there. -/
theorem get?_eq_none_of_lt {m : Fields α} {name : String} (h : ∀ entry ∈ m, name < entry.1) :
    m.get? name = none := by
  induction m with
  | nil => rfl
  | cons first rest ih =>
    obtain ⟨hfirst, hrest⟩ := List.forall_mem_cons.mp h
    have hne : first.1 ≠ name := fun heq => String.lt_irrefl name (heq ▸ hfirst)
    rw [get?, if_neg hne]
    exact ih hrest

/-- No name repeats, so every entry is the one that a lookup finds. -/
theorem get?_of_mem {m : Fields α} (h : m.Sorted) {name : String} {value : α} (hmem : (name, value) ∈ m) :
    m.get? name = some value := by
  induction m with
  | nil => cases hmem
  | cons first rest ih =>
    obtain ⟨hfirst, hrest⟩ := List.pairwise_cons.mp h
    rcases List.mem_cons.mp hmem with rfl | hmem
    · rw [get?, if_pos rfl]
    · have hlt : first.1 < name := hfirst (name, value) hmem
      have hne : first.1 ≠ name := fun heq => String.lt_irrefl name (heq ▸ hlt)
      rw [get?, if_neg hne]
      exact ih hrest hmem

theorem mem_iff_get? {m : Fields α} (h : m.Sorted) {entry : String × α} :
    entry ∈ m ↔ m.get? entry.1 = some entry.2 :=
  ⟨get?_of_mem h, mem_of_get?⟩

/-- A write takes the place of the entry with its name and leaves the others. -/
theorem mem_insert_iff {m : Fields α} (h : m.Sorted) {name : String} {value : α} {entry : String × α} :
    entry ∈ m.insert name value ↔ entry = (name, value) ∨ entry ∈ m ∧ entry.1 ≠ name := by
  obtain ⟨key, old⟩ := entry
  rw [mem_iff_get? (sorted_insert h name value), mem_iff_get? h, get?_insert, Prod.mk.injEq]
  by_cases hname : name = key
  · subst hname
    simp [eq_comm]
  · simp [hname, Ne.symm hname]

/-- A lookup after many writes finds the value written, if the name was written. -/
theorem get?_merge (base : Fields α) {more : Fields α} (h : more.Sorted) (name : String) :
    (base.merge more).get? name = (more.get? name).or (base.get? name) := by
  induction more generalizing base with
  | nil => rfl
  | cons first rest ih =>
    obtain ⟨key, value⟩ := first
    obtain ⟨hfirst, hrest⟩ := List.pairwise_cons.mp h
    have hnext := ih (base.insert key value) hrest
    rw [merge, List.foldl_cons, ← merge, hnext, get?_insert, get?]
    by_cases hk : key = name
    -- The name is not written again, so the first write is the one that counts.
    · subst hk
      rw [get?_eq_none_of_lt hfirst, if_pos rfl, if_pos rfl]
      rfl
    · rw [if_neg hk, if_neg hk]

theorem get?_erase (m : Fields α) (name other : String) :
    (m.erase name).get? other = if name = other then none else m.get? other := by
  induction m with
  | nil => simp [erase]
  | cons first rest ih =>
    obtain ⟨key, value⟩ := first
    -- An entry that is dropped could only have answered for the dropped name.
    by_cases hk : key = name
    · subst hk
      rw [erase, List.filter_cons_of_neg (by simp), ← erase, ih, get?]
      by_cases ho : key = other <;> simp [ho]
    · rw [erase, List.filter_cons_of_pos (by simpa using hk), ← erase, get?, ih, get?]
      by_cases ho : key = other
      · subst ho
        simp [Ne.symm hk]
      · simp [ho]

/-! ## Values read through a function -/

/-- Writing and then reading through `f` is reading and then writing. -/
theorem mapValues_insert (f : α → β) (m : Fields α) (name : String) (value : α) :
    (m.insert name value).mapValues f = (m.mapValues f).insert name (f value) := by
  induction m with
  | nil => rfl
  | cons entry rest ih =>
    obtain ⟨key, old⟩ := entry
    simp only [mapValues, List.map_cons, insert] at *
    split
    · rfl
    · split
      · rfl
      · rw [List.map_cons, ih]

theorem mapValues_merge (f : α → β) (base more : Fields α) :
    (base.merge more).mapValues f = (base.mapValues f).merge (more.mapValues f) := by
  induction more generalizing base with
  | nil => rfl
  | cons entry rest ih =>
    have hnext := ih (base.insert entry.1 entry.2)
    rw [mapValues_insert] at hnext
    exact hnext

theorem mapValues_erase (f : α → β) (m : Fields α) (name : String) :
    (m.erase name).mapValues f = (m.mapValues f).erase name := by
  rw [erase, erase, mapValues, mapValues, List.filter_map]
  rfl

end Fields

/-! ## Maps that carry their order -/

/-- A map from names to `α`: its entries, in ascending order of the names. -/
@[ext] structure FieldMap (α : Type) where
  entries : Fields α
  sorted : entries.Sorted

namespace FieldMap

variable {α β : Type}

instance : Coe (FieldMap α) (Fields α) := ⟨entries⟩

def empty : FieldMap α := ⟨[], .nil⟩

instance : Inhabited (FieldMap α) := ⟨empty⟩

def get? (m : FieldMap α) (name : String) : Option α := m.entries.get? name

def contains (m : FieldMap α) (name : String) : Bool := (m.get? name).isSome

def names (m : FieldMap α) : List String := m.entries.names

/-- Write `value` under `name`, in place of an earlier value. -/
def insert (m : FieldMap α) (name : String) (value : α) : FieldMap α :=
  ⟨m.entries.insert name value, Fields.sorted_insert m.sorted name value⟩

/-- Write every entry of `more` over `base`, in the order of `more`. -/
def merge (base : FieldMap α) (more : Fields α) : FieldMap α :=
  ⟨base.entries.merge more, Fields.sorted_merge base.sorted more⟩

/-- Write `value` under `name` unless `name` has a value already. -/
def insertIfNew (m : FieldMap α) (name : String) (value : α) : FieldMap α :=
  if m.contains name then m else m.insert name value

/-- The map of a list of entries; the last entry of a name wins. -/
def ofEntries (entries : List (String × α)) : FieldMap α :=
  ⟨Fields.ofEntries entries, Fields.sorted_ofEntries entries⟩

def mapValues (f : α → β) (m : FieldMap α) : FieldMap β :=
  ⟨m.entries.mapValues f, List.pairwise_map.mpr m.sorted⟩

@[simp] theorem entries_empty : (empty : FieldMap α).entries = [] := rfl

@[simp] theorem entries_insert (m : FieldMap α) (name : String) (value : α) :
    (m.insert name value).entries = m.entries.insert name value := rfl

@[simp] theorem entries_merge (base : FieldMap α) (more : Fields α) :
    (base.merge more).entries = base.entries.merge more := rfl

@[simp] theorem get?_empty (name : String) : (empty : FieldMap α).get? name = none := rfl

theorem get?_insert (m : FieldMap α) (name other : String) (value : α) :
    (m.insert name value).get? other = if name = other then some value else m.get? other :=
  Fields.get?_insert m.entries name other value

theorem get?_mapValues (f : α → β) (m : FieldMap α) (name : String) :
    (m.mapValues f).get? name = (m.get? name).map f :=
  Fields.get?_mapValues f m.entries name

theorem get?_merge (base : FieldMap α) {more : Fields α} (h : more.Sorted) (name : String) :
    (base.merge more).get? name = (more.get? name).or (base.get? name) :=
  Fields.get?_merge base.entries h name

theorem insert_insert (m : FieldMap α) (name : String) (first second : α) :
    (m.insert name first).insert name second = m.insert name second :=
  FieldMap.ext (Fields.insert_insert m.entries name first second)

theorem contains_insert (m : FieldMap α) (name other : String) (value : α) :
    (m.insert name value).contains other = (decide (name = other) || m.contains other) :=
  Fields.contains_insert m.entries name other value

theorem mem_iff_get? {m : FieldMap α} {entry : String × α} :
    entry ∈ m.entries ↔ m.get? entry.1 = some entry.2 :=
  Fields.mem_iff_get? m.sorted

end FieldMap

end ServiceEngine
