import Mathlib
import ServiceEngine.Program.Decode

/-!
# Documents of values

The document of a value is what a reader of definitions meets when the value is handed to it. Three facts
about such documents carry the round trips of all definitions:

1. they stand for the value they were made from (`Document.toJson?_ofJson`);
2. they nest as deep as `depth` says and no deeper (`Document.fits_iff`);
3. a reader finds in the document of an object what the object has under each name
   (`Shape.fields?_ofMembers`, `tagged?_bind`).
-/

namespace ServiceEngine

open Json (Document Datum)

/-! ## Values of documents -/

/-- A name behind all others is written at the end. -/
theorem Fields.insert_last {α : Type} {m : Fields α} {name : String} (value : α)
    (h : ∀ entry ∈ m, entry.1 < name) : m.insert name value = m ++ [(name, value)] := by
  induction m with
  | nil => rfl
  | cons entry rest ih =>
    obtain ⟨hfirst, hrest⟩ := List.forall_mem_cons.mp h
    have hne : entry.1 ≠ name := fun heq => String.lt_irrefl _ (heq ▸ hfirst)
    have hnot : ¬ name < entry.1 := fun hlt => String.lt_irrefl _ (String.lt_trans hfirst hlt)
    rw [Fields.insert, if_neg hne, if_neg hnot, ih hrest, List.cons_append]

namespace Json.Document

mutual

/-- **The document of a canonical value stands for this value.** -/
theorem toJson?_ofJson : ∀ {j : Json}, j.Canonical → (ofJson j).toJson? = some j
  | .null, _ => rfl
  | .bool _, _ => rfl
  | .number _, _ => rfl
  | .string _, _ => rfl
  | .array items, h => by
    rw [ofJson, toJson?, toItems?_ofItems h, Option.map_some]
  | .object members, h => by
    have hmembers : toMembers? [] (ofMembers members) = some ([] ++ members) :=
      toMembers?_ofMembers h.1 h.2
    rw [ofJson, toJson?, hmembers, Option.map_some, List.nil_append]

theorem toItems?_ofItems : ∀ {items : List Json}, CanonicalItems items →
    toItems? (ofItems items) = some items
  | [], _ => rfl
  | item :: rest, h => by
    rw [ofItems, toItems?, toJson?_ofJson h.1, toItems?_ofItems h.2]

/-- The names ascend, so each member is written behind those before it. -/
theorem toMembers?_ofMembers : ∀ {members before : Fields Json}, Fields.Sorted (before ++ members) →
    CanonicalMembers members → toMembers? before (ofMembers members) = some (before ++ members)
  | [], before, _, _ => by rw [ofMembers, toMembers?, List.append_nil]
  | (name, value) :: rest, before, hsorted, h => by
    have hlast : before.insert name value = before ++ [(name, value)] := by
      apply Fields.insert_last
      intro entry hentry
      exact (List.pairwise_append.mp hsorted).2.2 entry hentry (name, value) List.mem_cons_self
    have hrest : Fields.Sorted (before ++ [(name, value)] ++ rest) := by
      rwa [List.append_assoc]
    simp only [ofMembers, toMembers?, toJson?_ofJson h.1]
    rw [hlast, toMembers?_ofMembers hrest h.2, List.append_assoc, List.singleton_append]

end

/-- The datum of a document is the value that it was made from. -/
theorem ofDocument?_ofJson (d : Datum) : Datum.ofDocument? (ofJson d.json) = some d := by
  have hvalue := toJson?_ofJson d.canonical
  unfold Datum.ofDocument?
  split
  · rename_i j hj
    obtain rfl : d.json = j := Option.some.inj (hvalue.symm.trans hj)
    rfl
  · rename_i hnone
    rw [hvalue] at hnone
    cases hnone

mutual

/-- Every number, text and name in the document of a value stands for something. -/
theorem isSome_toJson?_ofJson : ∀ j : Json, (ofJson j).toJson?.isSome = true
  | .null => rfl
  | .bool _ => rfl
  | .number _ => rfl
  | .string _ => rfl
  | .array items => by
    rw [ofJson, toJson?, Option.isSome_map]
    exact isSome_toItems?_ofItems items
  | .object members => by
    rw [ofJson, toJson?, Option.isSome_map]
    exact isSome_toMembers?_ofMembers [] members

theorem isSome_toItems?_ofItems : ∀ items : List Json, (toItems? (ofItems items)).isSome = true
  | [] => rfl
  | item :: rest => by
    obtain ⟨value, hvalue⟩ := Option.isSome_iff_exists.mp (isSome_toJson?_ofJson item)
    obtain ⟨values, hvalues⟩ := Option.isSome_iff_exists.mp (isSome_toItems?_ofItems rest)
    rw [ofItems, toItems?, hvalue, hvalues]
    rfl

theorem isSome_toMembers?_ofMembers : ∀ (before : Fields Json) (members : List (String × Json)),
    (toMembers? before (ofMembers members)).isSome = true
  | _, [] => rfl
  | before, (name, value) :: rest => by
    obtain ⟨j, hj⟩ := Option.isSome_iff_exists.mp (isSome_toJson?_ofJson value)
    simp only [ofMembers, toMembers?, hj]
    exact isSome_toMembers?_ofMembers (before.insert name j) rest

end

/-! ## Depth -/

mutual

/-- A document fits where there is room for its depth. -/
theorem fits_iff : ∀ {room : Nat} {d : Document}, d.fits room = true ↔ d.depth ≤ room
  | room, .null => by cases room <;> simp [fits, depth]
  | room, .bool _ => by cases room <;> simp [fits, depth]
  | room, .number _ => by cases room <;> simp [fits, depth]
  | room, .string _ => by cases room <;> simp [fits, depth]
  | 0, .array _ => by simp [fits, depth]
  | 0, .object _ => by simp [fits, depth]
  | room + 1, .array items => by
    rw [fits, depth, fitsItems_iff, Nat.add_le_add_iff_right]
  | room + 1, .object members => by
    rw [fits, depth, fitsMembers_iff, Nat.add_le_add_iff_right]

theorem fitsItems_iff : ∀ {room : Nat} {items : List Document},
    fitsItems room items = true ↔ depthItems items ≤ room
  | _, [] => by simp [fitsItems, depthItems]
  | _, item :: rest => by
    rw [fitsItems, depthItems, Bool.and_eq_true, fits_iff, fitsItems_iff, max_le_iff]

theorem fitsMembers_iff : ∀ {room : Nat} {members : List (Option String × Document)},
    fitsMembers room members = true ↔ depthMembers members ≤ room
  | _, [] => by simp [fitsMembers, depthMembers]
  | _, (_, value) :: rest => by
    rw [fitsMembers, depthMembers, Bool.and_eq_true, fits_iff, fitsMembers_iff, max_le_iff]

end

theorem isValue_ofJson {room : Nat} {j : Json} (h : (ofJson j).depth ≤ room) :
    (ofJson j).isValue room = true := by
  rw [isValue, isSome_toJson?_ofJson, Bool.and_true, fits_iff]
  exact h

theorem depth_le_depthItems {items : List Json} {j : Json} (h : j ∈ items) :
    (ofJson j).depth ≤ depthItems (ofItems items) := by
  induction items with
  | nil => cases h
  | cons item rest ih =>
    rw [ofItems, depthItems]
    rcases List.mem_cons.mp h with rfl | h
    · exact le_max_left _ _
    · exact (ih h).trans (le_max_right _ _)

theorem depth_le_depthMembers {members : List (String × Json)} {entry : String × Json}
    (h : entry ∈ members) : (ofJson entry.2).depth ≤ depthMembers (ofMembers members) := by
  induction members with
  | nil => cases h
  | cons first rest ih =>
    rw [ofMembers, depthMembers]
    rcases List.mem_cons.mp h with rfl | h
    · exact le_max_left _ _
    · exact (ih h).trans (le_max_right _ _)

/-- What stands in an array needs one level less than the array. -/
theorem depth_item {items : List Json} {room : Nat} (hroom : (ofJson (.array items)).depth ≤ room + 1) :
    ∀ j ∈ items, (ofJson j).depth ≤ room := by
  intro j hj
  rw [ofJson, depth] at hroom
  exact (depth_le_depthItems hj).trans (Nat.le_of_succ_le_succ hroom)

/-- What stands in an object needs one level less than the object. -/
theorem depth_member {members : List (String × Json)} {room : Nat}
    (hroom : (ofJson (.object members)).depth ≤ room + 1) :
    ∀ entry ∈ members, (ofJson entry.2).depth ≤ room := by
  intro entry hentry
  rw [ofJson, depth] at hroom
  exact (depth_le_depthMembers hentry).trans (Nat.le_of_succ_le_succ hroom)

theorem exists_room {members : List (String × Json)} {room : Nat}
    (hroom : (ofJson (.object members)).depth ≤ room) : ∃ rest, room = rest + 1 := by
  rw [ofJson, depth] at hroom
  exact ⟨room - 1, by omega⟩

/-! ## Lists -/

theorem list?_ofJson {α : Type} {read : Document → Option α} {items : List Json} {values : List α}
    (h : List.Forall₂ (fun j a => read (ofJson j) = some a) items values) :
    list? read (ofJson (.array items)) = some values := by
  rw [ofJson, list?]
  induction h with
  | nil => rfl
  | cons hfirst _ ih => simp [ofItems, hfirst, ih]

/-- What each item of a list has by being read. -/
theorem forall_of_list? {α : Type} {read : Document → Option α} {P : α → Prop} {d : Document}
    {values : List α} (hread : ∀ item a, read item = some a → P a) (h : list? read d = some values) :
    ∀ a ∈ values, P a := by
  cases d with
  | array items =>
    rw [list?] at h
    induction items generalizing values with
    | nil =>
      simp only [List.mapM_nil, Option.pure_def, Option.some.injEq] at h
      subst h
      simp
    | cons item rest ih =>
      simp only [List.mapM_cons, Option.bind_eq_bind, Option.bind_eq_some_iff, Option.pure_def,
        Option.some.injEq] at h
      obtain ⟨a, ha, more, hmore, rfl⟩ := h
      exact List.forall_mem_cons.mpr ⟨hread item a ha, ih hmore⟩
  | _ => cases h

/-- Definitions that are read back one by one are read back as a list, one level further down. -/
theorem items?_ofJson {α : Type} {read : Nat → Document → Option α} {encode : α → Json} {values : List α}
    (hread : ∀ a ∈ values, ∀ room, (ofJson (encode a)).depth ≤ room → read room (ofJson (encode a)) = some a)
    {room : Nat} (hroom : (ofJson (.array (values.map encode))).depth ≤ room) :
    items? read room (ofJson (.array (values.map encode))) = some values := by
  cases room with
  | zero =>
    rw [ofJson, depth] at hroom
    omega
  | succ room =>
    have hdepth := depth_item hroom
    refine list?_ofJson ?_
    rw [List.forall₂_map_left_iff, List.forall₂_same]
    intro a ha
    exact hread a ha room (hdepth (encode a) (List.mem_map_of_mem ha))

/-- What each of the definitions in a list has by being read. -/
theorem forall_of_items? {α : Type} {P : α → Prop} {read : Nat → Document → Option α}
    (hread : ∀ room item a, read room item = some a → P a) {room : Nat} {d : Document} {values : List α}
    (h : items? read room d = some values) : ∀ a ∈ values, P a := by
  cases room with
  | zero => cases h
  | succ room => exact forall_of_list? (hread room) h

end Json.Document

/-! ## Fields -/

@[simp] theorem required_some {α : Type} (read : Document → Option α) (d : Document) :
    required read (some d) = read d := rfl

@[simp] theorem optional_some {α : Type} (default : α) (read : Document → Option α) (d : Document) :
    optional default read (some d) = read d := rfl

@[simp] theorem Json.Document.text?_ofJson (s : String) :
    Document.text? (Document.ofJson (.string s)) = some s := rfl

@[simp] theorem Json.Document.word?_ofJson (s : String) :
    Document.word? (Document.ofJson (.string s)) = some s := rfl

theorem Json.Document.option?_ofJson {α : Type} (inner : Document → Option α) {j : Json} (hnull : j ≠ .null) :
    Document.option? inner (Document.ofJson j) = (inner (Document.ofJson j)).map some := by
  cases j with
  | null => exact absurd rfl hnull
  | _ => rfl

/-! ## Shapes -/

open Json.Document (ofJson ofMembers)

/-- A name that comes once is found once. -/
theorem Shape.once?_ofMembers {m : Fields Json} (hnames : m.names.Nodup) (name : String) :
    Shape.once? (ofMembers m) name = some ((m.get? name).map ofJson) := by
  -- No other member has the name of the one that is found.
  have hfilter : (ofMembers m).filter (fun entry => entry.1 = some name) =
      ((m.get? name).map (fun j => (some name, ofJson j))).toList := by
    induction m with
    | nil => rfl
    | cons entry rest ih =>
      obtain ⟨key, value⟩ := entry
      obtain ⟨hkey, hrest⟩ := List.nodup_cons.mp hnames
      rw [ofMembers, Fields.get?]
      by_cases heq : key = name
      · subst heq
        have hnone : Fields.get? rest key = none := by
          cases hget : Fields.get? rest key with
          | none => rfl
          | some j => exact absurd (List.mem_map_of_mem (Fields.mem_of_get? hget)) hkey
        rw [List.filter_cons_of_pos (by simp), ih hrest, hnone, if_pos rfl]
        rfl
      · rw [List.filter_cons_of_neg (by simpa using heq), ih hrest, if_neg heq]
  unfold Shape.once?
  rw [hfilter]
  cases m.get? name <;> rfl

/-- **A reader finds what an object has under each name.** -/
theorem Shape.fields?_ofMembers {m : Fields Json} (hnames : m.names.Nodup) (names : List String) :
    (Shape.named (ofMembers m)).fields? names =
      some (names.map (fun name => (m.get? name).map ofJson)) := by
  -- Every member of an object has a name.
  have hall : (ofMembers m).all (fun entry => entry.1.isSome) = true := by
    clear hnames
    induction m with
    | nil => rfl
    | cons entry rest ih =>
      rw [ofMembers, List.all_cons, ih]
      rfl
  rw [Shape.fields?, if_pos hall]
  induction names with
  | nil => rfl
  | cons name rest ih => simp [Shape.once?_ofMembers hnames, ih]

/-- A structure is read from what the object has under each of its names. -/
theorem structure?_ofJson {α : Type} {m : Fields Json} (hnames : m.names.Nodup) (names : List String)
    (read : Nat → List (Option Document) → Option α) (room : Nat) :
    structure? names read (room + 1) (ofJson (.object m)) =
      read room (names.map (fun name => (m.get? name).map ofJson)) := by
  rw [ofJson, structure?, Shape.ofDocument?]
  simp only [Option.bind_eq_bind, Option.bind_some]
  rw [Shape.fields?_ofMembers hnames, Option.bind_some]

/-- What a definition has by being read from its fields. -/
theorem of_structure? {α : Type} {P : α → Prop} {names : List String}
    {read : Nat → List (Option Document) → Option α}
    (hread : ∀ room fields a, read room fields = some a → P a) {room : Nat} {d : Document} {a : α}
    (h : structure? names read room d = some a) : P a := by
  cases room with
  | zero => cases h
  | succ room =>
    rw [structure?] at h
    simp only [Option.bind_eq_bind, Option.bind_eq_some_iff] at h
    obtain ⟨_, -, fields, -, hfields⟩ := h
    exact hread room fields a hfields

/-- The other fields of a node are its members without the tag. -/
theorem filter_ofMembers (m : Fields Json) (key : String) :
    (ofMembers m).filter (fun entry => entry.1 ≠ some key) = ofMembers (m.erase key) := by
  induction m with
  | nil => rfl
  | cons entry rest ih =>
    obtain ⟨name, value⟩ := entry
    by_cases heq : name = key
    · simpa [ofMembers, Fields.erase, heq] using ih
    · simpa [ofMembers, Fields.erase, heq] using ih

/-- **A reader finds the kind of a node**, and goes on with its other fields. -/
theorem tagged?_bind {α : Type} {m : Fields Json} (hnames : m.names.Nodup) {key kind : String}
    {kinds : List String} (hkey : m.get? key = some (.string kind)) (hkind : kind ∈ kinds) (inner : Bool)
    (read : String × Shape → Option α) :
    (tagged? key kinds inner (ofJson (.object m)) >>= read) =
      read (kind, .named (ofMembers (m.erase key))) := by
  have htagged : tagged? key kinds inner (ofJson (.object m)) =
      some (kind, .named (ofMembers (m.erase key))) := by
    rw [ofJson, tagged?, Shape.once?_ofMembers hnames, hkey, filter_ofMembers]
    simp [ofJson, tag?, hkind]
  rw [htagged, Option.bind_eq_bind, Option.bind_some]

end ServiceEngine
