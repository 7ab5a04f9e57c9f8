import Mathlib
import ServiceEngine.Proofs.Decimal.WholeFloats
import ServiceEngine.Proofs.Value.Reflexive

/-!
# To JSON and back

A value that is written as JSON and read again equals the value that it was, if it is made of plain data and
finite numbers, and not otherwise (`Value.eqWith_ofJson`). A JSON value that is read and written again keeps
its whole structure; only the spelling of numbers changes (`Value.toJsonWith_ofJson`), and it changes once:
integers too large for a float become floats, and whole floats become integers (`Json.Number.normal`).
-/

namespace ServiceEngine

/-! ## Numbers -/

namespace Json

theorem natAbs_lt_iff {n : Int} :
    (-9007199254740992 < n ∧ n < 9007199254740992) ↔ n.natAbs < 2 ^ 53 := by
  omega

theorem InRange.natAbs_lt {n : Int} (h : InRange n) : n.natAbs < 2 ^ 64 := by
  unfold InRange at h
  omega

namespace Number

/-- The number as it is written after it was read: an integer if it is one below `2 ^ 53`, and a float
otherwise. -/
def normal : Number → Number
  | .int n h =>
    if n.natAbs < 2 ^ 53 then .int n h
    else .float (Decimal.floatOfInt n) (Decimal.isFinite_floatOfInt h.natAbs_lt)
  | .float x h =>
    match Decimal.whole? x with
    | some n =>
      if hsmall : n.natAbs < 2 ^ 53 then .int n (inRange_of_abs_lt (natAbs_lt_iff.mpr hsmall)) else .float x h
    | none => .float x h

theorem normal_int_of_small {n : Int} {h : InRange n} (hsmall : n.natAbs < 2 ^ 53) :
    normal (.int n h) = .int n h := if_pos hsmall

/-- A float that is no whole number below `2 ^ 53` is written as it is. -/
theorem normal_float_of_not_small {x : Float} {h : x.isFinite = true}
    (hlarge : ∀ n, Decimal.whole? x = some n → ¬ n.natAbs < 2 ^ 53) : normal (.float x h) = .float x h := by
  simp only [normal]
  split
  · rename_i n hwhole
    exact dif_neg (hlarge n hwhole)
  · rfl

/-- The spelling of a number changes once. -/
theorem normal_normal (n : Number) : n.normal.normal = n.normal := by
  cases n with
  | int n h =>
    by_cases hsmall : n.natAbs < 2 ^ 53
    · rw [normal_int_of_small hsmall, normal_int_of_small hsmall]
    · rw [normal, if_neg hsmall]
      -- A large integer becomes a float, and this float is as large.
      apply normal_float_of_not_small
      intro m hwhole
      exact not_lt.mpr (Decimal.le_of_whole?_floatOfInt (not_lt.mp hsmall) h.natAbs_lt hwhole)
  | float x h =>
    by_cases hlarge : ∀ n, Decimal.whole? x = some n → ¬ n.natAbs < 2 ^ 53
    · rw [normal_float_of_not_small hlarge, normal_float_of_not_small hlarge]
    · push Not at hlarge
      -- The float of a small whole number becomes an integer, which stays one.
      obtain ⟨n, hwhole, hsmall⟩ := hlarge
      simp only [normal, hwhole, dif_pos hsmall, if_pos hsmall]

end Number

mutual

/-- The value with each of its numbers changed, and nothing else. -/
def mapNumbers (f : Number → Number) : Json → Json
  | .null => .null
  | .bool b => .bool b
  | .number n => .number (f n)
  | .string s => .string s
  | .array items => .array (mapNumbersItems f items)
  | .object members => .object (mapNumbersMembers f members)

def mapNumbersItems (f : Number → Number) : List Json → List Json
  | [] => []
  | item :: rest => mapNumbers f item :: mapNumbersItems f rest

def mapNumbersMembers (f : Number → Number) : List (String × Json) → List (String × Json)
  | [] => []
  | (name, value) :: rest => (name, mapNumbers f value) :: mapNumbersMembers f rest

end

theorem mapNumbersItems_eq_map (f : Number → Number) (items : List Json) :
    mapNumbersItems f items = items.map (mapNumbers f) := by
  induction items with
  | nil => rfl
  | cons item rest ih => rw [mapNumbersItems, ih, List.map_cons]

theorem mapNumbersMembers_eq_map (f : Number → Number) (members : List (String × Json)) :
    mapNumbersMembers f members = members.map (fun entry => (entry.1, mapNumbers f entry.2)) := by
  induction members with
  | nil => rfl
  | cons entry rest ih => rw [mapNumbersMembers, ih, List.map_cons]

/-- What holds of every JSON value, by induction over the values inside it. -/
theorem nested_induction {P : Json → Prop} (null : P .null) (bool : ∀ b, P (.bool b))
    (number : ∀ n, P (.number n)) (string : ∀ s, P (.string s))
    (array : ∀ items, (∀ item ∈ items, P item) → P (.array items))
    (object : ∀ members : List (String × Json), (∀ entry ∈ members, P entry.2) → P (.object members))
    (j : Json) : P j := by
  refine @Json.rec P (fun items => ∀ item ∈ items, P item) (fun members => ∀ entry ∈ members, P entry.2)
    (fun entry => P entry.2) null bool number string array object ?_ ?_ ?_ ?_ ?_ j
  · intro item hmem
    cases hmem
  · intro item rest hitem hrest
    exact List.forall_mem_cons.mpr ⟨hitem, hrest⟩
  · intro entry hmem
    cases hmem
  · intro entry rest hentry hrest
    exact List.forall_mem_cons.mpr ⟨hentry, hrest⟩
  · intro name value hvalue
    exact hvalue

/-- Changing numbers twice is changing them once by both changes. -/
theorem mapNumbers_mapNumbers (f g : Number → Number) (j : Json) :
    (j.mapNumbers f).mapNumbers g = j.mapNumbers (fun n => g (f n)) := by
  induction j using nested_induction with
  | array items ih =>
    simp only [mapNumbers, mapNumbersItems_eq_map, List.map_map, array.injEq]
    exact List.map_congr_left ih
  | object members ih =>
    simp only [mapNumbers, mapNumbersMembers_eq_map, List.map_map, object.injEq]
    apply List.map_congr_left
    intro entry hentry
    exact congrArg (Prod.mk entry.1) (ih entry hentry)
  | _ => rfl

end Json

namespace Value

/-- A whole number below `2 ^ 53` is written as an integer. -/
theorem numberJson_of_small {x : Float} {n : Int} (hwhole : Decimal.whole? x = some n)
    (hsmall : n.natAbs < 2 ^ 53) :
    numberJson x = .number (.int n (Json.inRange_of_abs_lt (Json.natAbs_lt_iff.mpr hsmall))) := by
  simp only [numberJson, hwhole]
  exact dif_pos (Json.natAbs_lt_iff.mpr hsmall)

/-- Any other float is written as it is. -/
theorem numberJson_of_not_small {x : Float} (hlarge : ∀ n, Decimal.whole? x = some n → ¬ n.natAbs < 2 ^ 53) :
    numberJson x = floatJson x := by
  unfold numberJson
  split
  · rename_i n hwhole
    exact dif_neg (fun hrange => hlarge n hwhole (Json.natAbs_lt_iff.mp hrange))
  · rfl

/-- A finite number is written as its JSON number in normal form, and no other number is written as one. -/
theorem numberJson_eq (x : Float) :
    numberJson x = if h : x.isFinite = true then .number (Json.Number.normal (.float x h)) else .null := by
  by_cases hlarge : ∀ n, Decimal.whole? x = some n → ¬ n.natAbs < 2 ^ 53
  · rw [numberJson_of_not_small hlarge, floatJson]
    split
    · rw [Json.Number.normal_float_of_not_small hlarge]
    · rfl
  · push Not at hlarge
    obtain ⟨n, hwhole, hsmall⟩ := hlarge
    rw [numberJson_of_small hwhole hsmall, dif_pos (Decimal.isFinite_of_whole? hwhole)]
    simp only [Json.Number.normal, hwhole, dif_pos hsmall]

theorem isFinite_toFloat (n : Json.Number) : n.toFloat.isFinite = true := by
  cases n with
  | int n h => exact Decimal.isFinite_floatOfInt h.natAbs_lt
  | float x h => exact h

/-- What a JSON number is written as after it was read. -/
theorem numberJson_toFloat (n : Json.Number) : numberJson n.toFloat = .number n.normal := by
  rw [numberJson_eq, dif_pos (isFinite_toFloat n)]
  cases n with
  | float x h => rfl
  | int n h =>
    by_cases hsmall : n.natAbs < 2 ^ 53
    · simp only [Json.Number.toFloat, Json.Number.normal, Decimal.whole?_floatOfInt hsmall, dif_pos hsmall,
        if_pos hsmall]
    -- The integer is rounded, and stays too large.
    · have hlarge : ∀ m, Decimal.whole? (Decimal.floatOfInt n) = some m → ¬ m.natAbs < 2 ^ 53 := fun m hm =>
        not_lt.mpr (Decimal.le_of_whole?_floatOfInt (not_lt.mp hsmall) h.natAbs_lt hm)
      rw [Json.Number.normal, if_neg hsmall]
      exact congrArg Json.number (Json.Number.normal_float_of_not_small hlarge)

/-- A number in normal form is read as a float that equals the one it was before. -/
theorem normal_toFloat_beq {x : Float} (h : x.isFinite = true) :
    ((Json.Number.normal (.float x h)).toFloat == x) = true := by
  simp only [Json.Number.normal]
  split
  · rename_i n hwhole
    -- A small whole number is an integer in between, and its float equals the float it came from.
    split
    case isTrue hsmall => exact Decimal.floatOfInt_of_whole? hwhole hsmall
    case isFalse => exact Decimal.beq_self_of_isFinite h
  · exact Decimal.beq_self_of_isFinite h

/-! ## Values -/

mutual

/-- Whether a value is made of null, booleans, finite numbers and texts, in lists and maps of any depth. -/
def isData : Value → Bool
  | .null => true
  | .bool _ => true
  | .num x => x.isFinite
  | .str _ => true
  | .list items => isDataItems items
  | .obj fields => isDataFields fields
  | .record _ => false
  | .db => false
  | .entity _ => false
  | .func _ => false

def isDataItems : List Value → Bool
  | [] => true
  | v :: rest => isData v && isDataItems rest

def isDataFields : List (String × Value) → Bool
  | [] => true
  | (_, v) :: rest => isData v && isDataFields rest

end

theorem isDataItems_eq_true {items : List Value} :
    isDataItems items = true ↔ ∀ v ∈ items, v.isData = true := by
  induction items with
  | nil => simp [isDataItems]
  | cons v rest ih => rw [isDataItems, Bool.and_eq_true, ih, List.forall_mem_cons]

theorem isDataFields_eq_true {fields : Fields Value} :
    isDataFields fields = true ↔ ∀ entry ∈ fields, entry.2.isData = true := by
  induction fields with
  | nil => simp [isDataFields]
  | cons entry rest ih => rw [isDataFields, Bool.and_eq_true, ih, List.forall_mem_cons]

theorem ofItems_eq_map (items : List Json) : ofItems items = items.map ofJson := by
  induction items with
  | nil => rfl
  | cons item rest ih => rw [ofItems, ih, List.map_cons]

theorem ofMembers_eq_map (members : List (String × Json)) :
    ofMembers members = members.map (fun entry => (entry.1, ofJson entry.2)) := by
  induction members with
  | nil => rfl
  | cons entry rest ih => rw [ofMembers, ih, List.map_cons]

/-- **What is written as JSON and read again equals what it was** just if it is data. -/
theorem eqWith_ofJson (same : Handle → Handle → Bool) (follow : Handle → Json) (v : Value) :
    eqWith same (ofJson (v.toJsonWith follow)) v = true ↔ v.isData = true := by
  induction v using nested_induction with
  | num x =>
    rw [toJsonWith, numberJson_eq, isData]
    split
    case isTrue h =>
      rw [ofJson, eqWith, h]
      exact iff_of_true (normal_toFloat_beq h) rfl
    case isFalse h =>
      rw [ofJson]
      exact iff_of_false Bool.false_ne_true h
  | list items ih =>
    have hitems := itemsEqWith_map same (fun v => ofJson (v.toJsonWith follow)) items
    rw [toJsonWith, ofJson, eqWith, itemsJsonWith_eq_map, ofItems_eq_map, List.map_map, isData,
      isDataItems_eq_true]
    exact hitems.trans (forall₂_congr ih)
  | obj fields ih =>
    have hfields := fieldsEqWith_map same (fun v => ofJson (v.toJsonWith follow)) fields
    rw [toJsonWith, ofJson, eqWith, fieldsJsonWith_eq_map, ofMembers_eq_map, List.map_map, isData,
      isDataFields_eq_true]
    exact hfields.trans (forall₂_congr ih)
  | record h =>
    -- A record is shown as an object, which is no handle when it is read.
    rw [toJsonWith, isData]
    cases follow h <;> exact iff_of_false Bool.false_ne_true Bool.false_ne_true
  | _ => simp [toJsonWith, ofJson, eqWith, isData]

/-! ## JSON values -/

/-- What JSON spells is data. -/
theorem isData_ofJson (j : Json) : (ofJson j).isData = true := by
  induction j using Json.nested_induction with
  | number n => exact isFinite_toFloat n
  | array items ih =>
    rw [ofJson, isData, ofItems_eq_map, isDataItems_eq_true]
    exact List.forall_mem_map.mpr ih
  | object members ih =>
    rw [ofJson, isData, ofMembers_eq_map, isDataFields_eq_true]
    exact List.forall_mem_map.mpr ih
  | _ => rfl

/-- **What is read from JSON and written again** has the same structure, with its numbers in normal form. -/
theorem toJsonWith_ofJson (follow : Handle → Json) (j : Json) :
    (ofJson j).toJsonWith follow = j.mapNumbers Json.Number.normal := by
  induction j using Json.nested_induction with
  -- Numbers alone are not written as they were read.
  | number n => exact numberJson_toFloat n
  | array items ih =>
    rw [ofJson, toJsonWith, itemsJsonWith_eq_map, ofItems_eq_map, List.map_map, Json.mapNumbers,
      Json.mapNumbersItems_eq_map]
    exact congrArg Json.array (List.map_congr_left ih)
  | object members ih =>
    rw [ofJson, toJsonWith, fieldsJsonWith_eq_map, ofMembers_eq_map, List.map_map, Json.mapNumbers,
      Json.mapNumbersMembers_eq_map]
    apply congrArg Json.object
    apply List.map_congr_left
    intro entry hentry
    exact congrArg (Prod.mk entry.1) (ih entry hentry)
  | _ => rfl

end Value

/-- **Values and JSON round trip.** A value that is written as JSON and read again equals the value that it
was just if it is made of null, booleans, finite numbers, texts, lists and maps. A JSON value that is read
and written again has the same lists, names, texts, booleans and nulls in the same places, with each number
in normal form, which programs cannot tell from the number that it was; doing so again changes nothing. -/
theorem Heap.json_round_trip (heap : Heap) :
    (∀ v, heap.equal (Value.ofJson (heap.json v)) v = true ↔ v.isData = true) ∧
    ∀ j, let shown := heap.json (Value.ofJson j)
      shown = j.mapNumbers Json.Number.normal ∧
        heap.json (Value.ofJson shown) = shown ∧
        heap.equal (Value.ofJson shown) (Value.ofJson j) = true := by
  have hback : ∀ v, heap.equal (Value.ofJson (heap.json v)) v = true ↔ v.isData = true :=
    Value.eqWith_ofJson heap.same heap.recordJson
  have hshown : ∀ j, heap.json (Value.ofJson j) = j.mapNumbers Json.Number.normal :=
    Value.toJsonWith_ofJson heap.recordJson
  refine ⟨hback, fun j => ⟨hshown j, ?_, ?_⟩⟩
  -- Numbers in normal form stay as they are.
  · rw [hshown, hshown, Json.mapNumbers_mapNumbers]
    simp only [Json.Number.normal_normal]
  · exact (hback _).mpr (Value.isData_ofJson j)

end ServiceEngine
