import Mathlib
import ServiceEngine.Proofs.Time.Grammar

/-!
# Values with a step

`v/n` is meant as the range from `v` to the greatest value of the field in steps of `n`, which can be written
`v-max/n`. The reader takes a step of one for no step at all, so `v/1` is only `v`. Apart from that the two
spellings are read as the same part (`part_single_eq`), and what is read as the same part can be exchanged in any
field (`field_replace`) and any pattern (`parse_replace`).
-/

namespace ServiceEngine.Cron

/-! ## Exchanging parts and fields -/

/-- A part can be replaced by another one that is read in the same way. -/
theorem field_replace {b : Bounds} {text text' : List Char} (hpart : part b text = part b text')
    (htext : ',' ∉ text) (htext' : ',' ∉ text') (before after : List (List Char)) :
    field b ([','].intercalate (before ++ text :: after)) =
      field b ([','].intercalate (before ++ text' :: after)) := by
  have hne : ∀ part, before ++ part :: after ≠ [] := by simp
  simp only [field, Text.splitBy_intercalate ',' (hne _), List.flatMap_append, List.flatMap_cons,
    Text.splitBy_of_notMem htext, Text.splitBy_of_notMem htext', List.mapM_append, List.mapM_cons,
    List.mapM_nil, hpart]

/-- A field is not just `*` if one of its parts is not. -/
theorem intercalate_ne_star {text : List Char} (htext : ',' ∉ text) (hstar : text ≠ ['*'])
    (before after : List (List Char)) : [','].intercalate (before ++ text :: after) ≠ ['*'] := by
  intro heq
  have hsplit := Text.splitBy_intercalate ',' (show before ++ text :: after ≠ [] by simp)
  have hmem : text ∈ (before ++ text :: after).flatMap (Text.splitBy (· = ',')) := by
    simp [Text.splitBy_of_notMem htext]
  rw [← hsplit, heq] at hmem
  exact hstar (List.mem_singleton.mp hmem)

/-- The bounds of the fields of a pattern, in order. -/
def fieldBounds : List Bounds := [minuteBounds, hourBounds, dayBounds, monthBounds, weekdayBounds]

/-- A text of more or fewer words is no pattern. -/
theorem parse_of_length_ne {text : List Char} (h : (Text.words text).length ≠ 5) :
    parse text = .error (.fieldCount (Text.words text).length) := by
  unfold parse
  split
  case h_1 hwords =>
    rw [hwords] at h
    exact absurd rfl h
  case h_2 => rfl

/-- A field can be replaced by another one that is read in the same way, as long as neither of them is just
`*`. -/
theorem parse_replace {b : Bounds} {i : Nat} (hb : fieldBounds[i]? = some b) {text text' f f' : List Char}
    (hf : (Text.words text)[i]? = some f) (hwords : Text.words text' = (Text.words text).set i f')
    (hfield : field b f = field b f') (hstar : f ≠ ['*']) (hstar' : f' ≠ ['*']) : parse text = parse text' := by
  by_cases hlength : (Text.words text).length = 5
  · obtain ⟨minute, rest, hfields, hrest⟩ := List.length_eq_succ_iff.mp hlength
    obtain ⟨hour, day, month, weekday, rfl⟩ := List.length_eq_four.mp hrest
    rw [← hfields] at hf hwords
    have hi : i < 5 := (List.getElem?_eq_some_iff.mp hb).1
    -- Each of the five fields has its own place in the schedule, so they are gone through one by one.
    interval_cases i
    all_goals
      cases hb
      cases hf
      simp only [List.set_cons_zero, List.set_cons_succ] at hwords
      simp only [parse, ← hfields, hwords, hfield, hstar, hstar']
  · have hlength' : (Text.words text').length = (Text.words text).length := by
      rw [hwords, List.length_set]
    rw [parse_of_length_ne hlength, parse_of_length_ne (hlength' ▸ hlength), hlength']

/-! ## Values with a step -/

/-- The values that are read from a field. -/
def fieldValues (b : Bounds) (text : List Char) : Except CronError (List Nat) :=
  (field b text).map (values b)

theorem SpellsItem.fieldValues {b : Bounds} (hb : b.low ≤ b.high) {text : List Char} {item : Item}
    (h : SpellsItem b text item) : ∃ l, fieldValues b text = .ok l ∧ Lists l (item.meaning b) := by
  have hfield : SpellsField b text [item] :=
    ⟨List.cons_ne_nil item [], [text], by simp [List.intercalate], .cons h .nil⟩
  have hread := field_eq_ok_iff.mpr ⟨_, hfield, rfl⟩
  obtain ⟨hsorted, hmem⟩ := hfield.lists_values hb
  refine ⟨_, by rw [Cron.fieldValues, hread]; rfl, hsorted, fun v => (hmem v).trans ?_⟩
  simp [meaning]

section

variable {b : Bounds} {v n : Nat} {value last step : List Char}

theorem spells_single (hvalue : SpellsValue b value v) (hstep : SpellsStep step n) :
    SpellsItem b (value ++ '/' :: step) ⟨.one v, some n⟩ :=
  .stepped (.one hvalue) hstep

theorem spells_open (hvalue : SpellsValue b value v) (hlast : SpellsValue b last b.high)
    (hstep : SpellsStep step n) :
    SpellsItem b ((value ++ '-' :: last) ++ '/' :: step) ⟨.between v b.high, some n⟩ :=
  .stepped (.between hvalue hlast hvalue.high) hstep

/-- A value with a step means the open range, except for a step of one from any but the greatest value. -/
theorem meaning_single_eq_iff (hn : 1 ≤ n) (hv : v ≤ b.high) :
    (⟨.one v, some n⟩ : Item).meaning b = (⟨.between v b.high, some n⟩ : Item).meaning b ↔
      1 < n ∨ v = b.high := by
  simp only [Item.meaning, Option.getD_some]
  by_cases hstep : 1 < n
  · simp [hstep]
  · obtain rfl : n = 1 := by omega
    simp only [lt_self_iff_false, if_false, false_or]
    constructor
    -- The greatest value is in the open range, so it is the single one.
    · intro hset
      have hmem : b.high ∈ ladder v 1 b.high := ⟨le_refl _, b.high - v, by omega⟩
      rw [← hset] at hmem
      exact (Set.mem_singleton_iff.mp hmem).symm
    · rintro rfl
      exact (ladder_self b.high 1).symm

/-- Where a value with a step means the open range, it is read as the open range. -/
theorem part_single_eq (hvalue : SpellsValue b value v) (hlast : SpellsValue b last b.high)
    (hstep : SpellsStep step n) (h : 1 < n ∨ v = b.high) :
    part b (value ++ '/' :: step) = part b ((value ++ '-' :: last) ++ '/' :: step) := by
  rw [part_eq_ok_iff.mpr ⟨_, spells_single hvalue hstep, rfl⟩,
    part_eq_ok_iff.mpr ⟨_, spells_open hvalue hlast hstep, rfl⟩]
  rcases h with h | rfl
  · simp [Item.toPart, Extent.toPart, h]
  · simp [Item.toPart, Extent.toPart]

/-- **A value with a step is an open range, unless the step is one.** Let `v` be a value of a field whose
greatest value is `max`, and `n` a step. The field `v-max/n` has the values `v`, `v + n`, `v + 2 n` and so on up
to `max`. The field `v/n` has the same values just if `n` is greater than one or `v` is `max`; for `n = 1` it has
only `v`. Where they have the same values, each of the two can be written for the other in any list of parts, and
such a field for the other in any pattern, without changing what is read. -/
theorem stepped_value_opens_range (hvalue : SpellsValue b value v) (hlast : SpellsValue b last b.high)
    (hstep : SpellsStep step n) :
    let single := value ++ '/' :: step
    let range := (value ++ '-' :: last) ++ '/' :: step
    (∃ l, fieldValues b range = .ok l ∧ Lists l (ladder v n b.high)) ∧
      (fieldValues b single = fieldValues b range ↔ 1 < n ∨ v = b.high) ∧
      (n = 1 → fieldValues b single = .ok [v]) ∧
      (1 < n ∨ v = b.high → ∀ before after,
        let withSingle := [','].intercalate (before ++ single :: after)
        let withRange := [','].intercalate (before ++ range :: after)
        fieldValues b withSingle = fieldValues b withRange ∧
          ∀ i text text', fieldBounds[i]? = some b → (Text.words text)[i]? = some withSingle →
            Text.words text' = (Text.words text).set i withRange → parse text = parse text') := by
  intro single range
  have hsingle := spells_single hvalue hstep
  have hrange := spells_open hvalue hlast hstep
  have hb : b.low ≤ b.high := hvalue.low.trans hvalue.high
  obtain ⟨l, hl, hlists⟩ := hsingle.fieldValues hb
  obtain ⟨l', hl', hlists'⟩ := hrange.fieldValues hb
  refine ⟨⟨l', hl', hlists'⟩, ?_, ?_, ?_⟩
  -- Both fields are lists of sets, so they have the same values just if the sets are the same.
  · rw [← meaning_single_eq_iff hstep.pos hvalue.high, hl, hl', Except.ok.injEq]
    constructor
    · rintro rfl
      exact Set.ext fun w => (hlists.mem_iff w).symm.trans (hlists'.mem_iff w)
    · intro hset
      exact hlists.unique (hset ▸ hlists')
  · rintro rfl
    rw [hl]
    exact congrArg Except.ok (hlists.unique ⟨List.pairwise_singleton _ v, fun w => by simp [Item.meaning]⟩)
  · intro h before after withSingle withRange
    have hfield : field b withSingle = field b withRange :=
      field_replace (part_single_eq hvalue hlast hstep h) hsingle.comma_notMem hrange.comma_notMem before after
    refine ⟨by rw [fieldValues, fieldValues, hfield], ?_⟩
    intro i text text' hi hf hwords
    refine parse_replace hi hf hwords hfield ?_ ?_
    · exact intercalate_ne_star hsingle.comma_notMem (fun h => by simpa using hsingle.star_iff.mp h) before after
    · exact intercalate_ne_star hrange.comma_notMem (fun h => by simpa using hrange.star_iff.mp h) before after

end

/-- Every quarter of an hour from minute five on, in a list with another part. -/
theorem stepped_value_opens_range_of_quarters :
    fieldValues minuteBounds "5/15".toList = fieldValues minuteBounds "5-59/15".toList ∧
      parse "0,5/15 8 * * *".toList = parse "0,5-59/15 8 * * *".toList := by
  have hvalue : SpellsValue minuteBounds "5".toList 5 := value_eq_ok_iff.mp rfl
  have hlast : SpellsValue minuteBounds "59".toList minuteBounds.high := value_eq_ok_iff.mp rfl
  have hstep : SpellsStep "15".toList 15 := step_eq_ok_iff.mp rfl
  obtain ⟨-, heq, -, hreplace⟩ := stepped_value_opens_range hvalue hlast hstep
  refine ⟨heq.mpr (Or.inl (by decide)), ?_⟩
  exact (hreplace (Or.inl (by decide)) ["0".toList] []).2 0 _ _ rfl (by decide) (by decide)

/-- A step of one does not open the range: `58/1` is minute 58 only, and `58-59/1` has both minutes. -/
theorem step_of_one_keeps_single_value :
    fieldValues minuteBounds "58/1".toList = .ok [58] ∧
      fieldValues minuteBounds "58-59/1".toList = .ok [58, 59] ∧
      parse "58/1 * * * *".toList ≠ parse "58-59/1 * * * *".toList := by
  refine ⟨by decide +kernel, by decide +kernel, ?_⟩
  decide +kernel

end ServiceEngine.Cron
