import Mathlib
import ServiceEngine.Proofs.Decimal.Numerals
import ServiceEngine.Proofs.Text.Words
import ServiceEngine.Proofs.Time.FireTime

/-!
# The grammar of patterns

A pattern is read by cutting its text: at white space, at commas, at the first slash, at the first dash. The
grammar below knows of no cuts. It says, level by level, which texts spell a value, a part, a field and a
pattern, and what each of them means as a set of values.

- `SpellsItem` and `Item.meaning`: the parts `*`, `v` and `a-b`, each perhaps with a step `/n`.
- `part_eq_ok_iff`, `field_eq_ok_iff`: a reader of a level accepts what the grammar of that level spells. No
  separator stands in what it separates, so that cutting at the first one is cutting at the only one.
- `exists_spells_of_parse`, `Spells.exists_parse`: the patterns that are accepted, and the schedules that they give.
-/

namespace ServiceEngine.Cron

/-! ## What is written -/

/-- The values that a part names, before its step. -/
inductive Extent where
  | all
  | one (v : Nat)
  | between (first last : Nat)
  deriving DecidableEq, Repr

/-- A part of a field as it is written. -/
structure Item where
  extent : Extent
  step : Option Nat
  deriving DecidableEq, Repr

/-- A text that spells a value within the bounds of a field. -/
structure SpellsValue (b : Bounds) (text : List Char) (v : Nat) : Prop where
  numeral : Decimal.Numeral text v
  lt : v < wordSize
  low : b.low ≤ v
  high : v ≤ b.high

/-- A text that spells a step. -/
structure SpellsStep (text : List Char) (n : Nat) : Prop where
  numeral : Decimal.Numeral text n
  lt : n < wordSize
  pos : 1 ≤ n

/-- A text that spells an extent: a star, a value, or a range that does not fall. -/
inductive SpellsExtent (b : Bounds) : List Char → Extent → Prop where
  | all : SpellsExtent b ['*'] .all
  | one {text : List Char} {v : Nat} (h : SpellsValue b text v) : SpellsExtent b text (.one v)
  | between {first last : List Char} {m n : Nat} (hfirst : SpellsValue b first m)
      (hlast : SpellsValue b last n) (hle : m ≤ n) : SpellsExtent b (first ++ '-' :: last) (.between m n)

/-- A text that spells a part: an extent, perhaps with a step behind a slash. -/
inductive SpellsItem (b : Bounds) : List Char → Item → Prop where
  | plain {text : List Char} {extent : Extent} (h : SpellsExtent b text extent) :
      SpellsItem b text ⟨extent, none⟩
  | stepped {text stepText : List Char} {extent : Extent} {n : Nat} (h : SpellsExtent b text extent)
      (hstep : SpellsStep stepText n) : SpellsItem b (text ++ '/' :: stepText) ⟨extent, some n⟩

/-- A text that spells a field: its parts, at least one, with commas between them. -/
def SpellsField (b : Bounds) (text : List Char) (items : List Item) : Prop :=
  items ≠ [] ∧ ∃ parts, text = [','].intercalate parts ∧ List.Forall₂ (SpellsItem b) parts items

/-- A pattern as it is written. -/
structure Pattern where
  minute : List Item
  hour : List Item
  day : List Item
  month : List Item
  weekday : List Item
  deriving DecidableEq, Repr

/-- A text that spells a pattern: five fields with white space between them, and perhaps around them. -/
def Spells (text : List Char) (p : Pattern) : Prop :=
  ∃ minute hour day month weekday, Text.Spaced [minute, hour, day, month, weekday] text ∧
    SpellsField minuteBounds minute p.minute ∧ SpellsField hourBounds hour p.hour ∧
    SpellsField dayBounds day p.day ∧ SpellsField monthBounds month p.month ∧
    SpellsField weekdayBounds weekday p.weekday

/-! ## What it means -/

/-- The values from `first` on in steps of `step`, up to `last`. -/
def ladder (first step last : Nat) : Set Nat := { v | v ≤ last ∧ ∃ k, v = first + k * step }

/-- The values that a part stands for. A single value stands for itself, unless it has a step greater than one:
then it is the first of the values from there on. -/
def Item.meaning (b : Bounds) : Item → Set Nat
  | ⟨.all, step⟩ => ladder b.low (step.getD 1) b.high
  | ⟨.between first last, step⟩ => ladder first (step.getD 1) last
  | ⟨.one v, none⟩ => {v}
  | ⟨.one v, some n⟩ => if 1 < n then ladder v n b.high else {v}

/-- The values that a field stands for. -/
def meaning (b : Bounds) (items : List Item) : Set Nat := { v | ∃ item ∈ items, v ∈ item.meaning b }

/-- The values of a set in ascending order. -/
structure Lists (values : List Nat) (set : Set Nat) : Prop where
  sorted : values.Pairwise (· < ·)
  mem_iff : ∀ v, v ∈ values ↔ v ∈ set

/-- The schedule that a pattern stands for. Weekdays count modulo 7, and a day field does not restrict if it is
just `*`. -/
structure Pattern.Describes (p : Pattern) (c : Cron) : Prop where
  minutes : Lists c.minutes (meaning minuteBounds p.minute)
  hours : Lists c.hours (meaning hourBounds p.hour)
  days : Lists c.days (meaning dayBounds p.day)
  months : Lists c.months (meaning monthBounds p.month)
  weekdays : Lists c.weekdays ((· % 7) '' meaning weekdayBounds p.weekday)
  anyDay : c.anyDay = true ↔ p.day = [⟨.all, none⟩]
  anyWeekday : c.anyWeekday = true ↔ p.weekday = [⟨.all, none⟩]

theorem Lists.unique {values values' : List Nat} {set : Set Nat} (h : Lists values set)
    (h' : Lists values' set) : values = values' :=
  h.sorted.eq_of_mem_iff h'.sorted (fun v => (h.mem_iff v).trans (h'.mem_iff v).symm)

/-- A pattern stands for one schedule. -/
theorem Pattern.Describes.unique {p : Pattern} {c c' : Cron} (h : p.Describes c) (h' : p.Describes c') :
    c = c' := by
  obtain ⟨minutes, hours, days, months, weekdays, anyDay, anyWeekday⟩ := c
  rw [Cron.mk.injEq]
  refine ⟨h.minutes.unique h'.minutes, h.hours.unique h'.hours, h.days.unique h'.days,
    h.months.unique h'.months, h.weekdays.unique h'.weekdays, ?_, ?_⟩
  · exact Bool.eq_iff_iff.mpr (h.anyDay.trans h'.anyDay.symm)
  · exact Bool.eq_iff_iff.mpr (h.anyWeekday.trans h'.anyWeekday.symm)

/-! ## Reading a part -/

/-- A value is read just if a numeral within the bounds is written. -/
theorem value_eq_ok_iff {b : Bounds} {text : List Char} {v : Nat} :
    value b text = .ok v ↔ SpellsValue b text v := by
  unfold value
  constructor
  · intro h
    split at h
    case h_1 => cases h
    case h_2 n hn =>
      split at h
      -- The numeral is that of a value within the bounds.
      case isTrue hbounds =>
        obtain rfl := Except.ok.inj h
        obtain ⟨hnumeral, hlt⟩ := Decimal.unsigned?_eq_some_iff.mp hn
        exact ⟨hnumeral, hlt, hbounds.1, hbounds.2⟩
      case isFalse => cases h
  · rintro ⟨hnumeral, hlt, hlow, hhigh⟩
    rw [Decimal.unsigned?_eq_some_iff.mpr ⟨hnumeral, hlt⟩]
    simp [hlow, hhigh]

/-- A step is read just if a numeral other than zero is written. -/
theorem step_eq_ok_iff {text : List Char} {n : Nat} : step text = .ok n ↔ SpellsStep text n := by
  unfold step
  constructor
  · intro h
    split at h
    case h_1 => cases h
    case h_2 m hm =>
      split at h
      case isTrue => cases h
      case isFalse hzero =>
        obtain rfl := Except.ok.inj h
        obtain ⟨hnumeral, hlt⟩ := Decimal.unsigned?_eq_some_iff.mp hm
        exact ⟨hnumeral, hlt, Nat.one_le_iff_ne_zero.mpr hzero⟩
  · rintro ⟨hnumeral, hlt, hpos⟩
    rw [Decimal.unsigned?_eq_some_iff.mpr ⟨hnumeral, hlt⟩]
    simp [Nat.one_le_iff_ne_zero.mp hpos]

/-- The part that is read for an extent. -/
def Extent.toPart (b : Bounds) (step : Nat) : Extent → Part
  | .all => ⟨b.low, b.high, step⟩
  | .one v => ⟨v, if 1 < step then b.high else v, step⟩
  | .between first last => ⟨first, last, step⟩

def Item.toPart (b : Bounds) (item : Item) : Part := item.extent.toPart b (item.step.getD 1)

/-- Only the extent `*` is written as a star. -/
theorem SpellsExtent.star_iff {b : Bounds} {text : List Char} {extent : Extent} (h : SpellsExtent b text extent) :
    text = ['*'] ↔ extent = .all := by
  cases h with
  | all => simp
  | one h =>
    refine iff_of_false ?_ (by simp)
    rintro rfl
    exact h.numeral.notMem (by decide) (by decide) List.mem_cons_self
  | between =>
    refine iff_of_false ?_ (by simp)
    intro htext
    have hdash : '-' ∈ ['*'] := htext ▸ (by simp)
    simp at hdash

/-- **The reader of extents accepts what is spelled.** -/
theorem range_eq_ok_iff {b : Bounds} {n : Nat} {text : List Char} {p : Part} :
    range b n text = .ok p ↔ ∃ extent, SpellsExtent b text extent ∧ p = extent.toPart b n := by
  constructor
  · intro h
    unfold range at h
    split at h
    case isTrue hall =>
      obtain rfl := Except.ok.inj h
      exact ⟨.all, hall ▸ .all, rfl⟩
    case isFalse =>
      -- The text is cut at its first dash, if it has one.
      split at h
      case h_1 first last hcut =>
        obtain ⟨m, hm, h⟩ := ok_of_bind h
        obtain ⟨n, hn, h⟩ := ok_of_bind h
        split at h
        case isTrue hle =>
          obtain rfl := Except.ok.inj h
          obtain ⟨-, rfl⟩ := Text.cut?_eq_some_iff.mp hcut
          exact ⟨.between m n, .between (value_eq_ok_iff.mp hm) (value_eq_ok_iff.mp hn) hle, rfl⟩
        case isFalse => cases h
      case h_2 =>
        obtain ⟨v, hv, h⟩ := ok_of_bind h
        obtain rfl := Except.ok.inj h
        exact ⟨.one v, .one (value_eq_ok_iff.mp hv), rfl⟩
  · rintro ⟨extent, hextent, rfl⟩
    have hstar := hextent.star_iff
    cases hextent with
    | all => rfl
    | one h =>
      -- A numeral has no dash in it.
      have hdash : '-' ∉ text := h.numeral.notMem (by decide) (by decide)
      rw [range, if_neg (by simp [hstar]), Text.cut?_eq_none_iff.mpr hdash, value_eq_ok_iff.mpr h]
      rfl
    | @between first last m n hfirst hlast hle =>
      -- The dash behind the first numeral is the first one.
      have hcut : Text.cut? '-' (first ++ '-' :: last) = some (first, last) :=
        Text.cut?_eq_some_iff.mpr ⟨hfirst.numeral.notMem (by decide) (by decide), rfl⟩
      rw [range, if_neg (by simp [hstar]), hcut]
      simp only [value_eq_ok_iff.mpr hfirst, value_eq_ok_iff.mpr hlast]
      show (if m ≤ n then _ else _) = _
      rw [if_pos hle]
      rfl

/-- The characters of an extent are those of numerals, the star and the dash. -/
theorem SpellsExtent.notMem {b : Bounds} {text : List Char} {extent : Extent} (h : SpellsExtent b text extent)
    {c : Char} (hc : c ∉ ['*', '+', '-']) (hdigit : c.isDigit = false) : c ∉ text := by
  simp only [List.mem_cons, List.not_mem_nil, or_false, not_or] at hc
  obtain ⟨hstar, hplus, hdash⟩ := hc
  cases h with
  | all => simpa using hstar
  | one h => exact h.numeral.notMem hplus hdigit
  | between hfirst hlast _ =>
    simp only [List.mem_append, List.mem_cons, not_or]
    exact ⟨hfirst.numeral.notMem hplus hdigit, hdash, hlast.numeral.notMem hplus hdigit⟩

/-- **The reader of parts accepts what is spelled.** -/
theorem part_eq_ok_iff {b : Bounds} {text : List Char} {p : Part} :
    part b text = .ok p ↔ ∃ item, SpellsItem b text item ∧ p = item.toPart b := by
  constructor
  · intro h
    unfold part at h
    split at h
    case h_1 text stepText hcut =>
      obtain ⟨n, hn, h⟩ := ok_of_bind h
      obtain ⟨extent, hextent, rfl⟩ := range_eq_ok_iff.mp h
      obtain ⟨-, rfl⟩ := Text.cut?_eq_some_iff.mp hcut
      exact ⟨⟨extent, some n⟩, .stepped hextent (step_eq_ok_iff.mp hn), rfl⟩
    case h_2 =>
      obtain ⟨extent, hextent, rfl⟩ := range_eq_ok_iff.mp h
      exact ⟨⟨extent, none⟩, .plain hextent, rfl⟩
  · rintro ⟨item, hitem, rfl⟩
    cases hitem with
    | plain h =>
      -- No slash stands in an extent.
      have hslash : '/' ∉ text := h.notMem (by decide) (by decide)
      rw [part, Text.cut?_eq_none_iff.mpr hslash]
      exact range_eq_ok_iff.mpr ⟨_, h, rfl⟩
    | @stepped text stepText extent n h hstep =>
      -- The slash behind the extent is the first one.
      have hcut : Text.cut? '/' (text ++ '/' :: stepText) = some (text, stepText) :=
        Text.cut?_eq_some_iff.mpr ⟨h.notMem (by decide) (by decide), rfl⟩
      have hrange : range b n text = .ok (extent.toPart b n) := range_eq_ok_iff.mpr ⟨extent, h, rfl⟩
      simp only [part, hcut, step_eq_ok_iff.mpr hstep]
      exact hrange

/-! ## Reading a field -/

/-- Parts are read one by one, and the first that is not accepted ends the reading. -/
theorem mapM_part_eq_ok_iff {b : Bounds} {texts : List (List Char)} {parts : List Part} :
    texts.mapM (part b) = .ok parts ↔
      ∃ items, List.Forall₂ (SpellsItem b) texts items ∧ parts = items.map (Item.toPart b) := by
  induction texts generalizing parts with
  | nil =>
    constructor
    · intro h
      obtain rfl := Except.ok.inj h
      exact ⟨[], .nil, rfl⟩
    · rintro ⟨items, hitems, rfl⟩
      cases hitems
      rfl
  | cons text rest ih =>
    rw [List.mapM_cons]
    constructor
    · intro h
      -- Every part was read, the first one and the others.
      obtain ⟨p, hp, h⟩ := ok_of_bind h
      obtain ⟨others, hothers, h⟩ := ok_of_bind h
      obtain rfl := Except.ok.inj h
      obtain ⟨item, hitem, rfl⟩ := part_eq_ok_iff.mp hp
      obtain ⟨items, hitems, rfl⟩ := ih.mp hothers
      exact ⟨item :: items, .cons hitem hitems, rfl⟩
    · rintro ⟨_, hitems, rfl⟩
      cases hitems with
      | @cons _ item _ items hitem hitems =>
        rw [part_eq_ok_iff.mpr ⟨item, hitem, rfl⟩, ih.mpr ⟨items, hitems, rfl⟩]
        rfl

/-- No comma stands in a part. -/
theorem SpellsItem.comma_notMem {b : Bounds} {text : List Char} {item : Item} (h : SpellsItem b text item) :
    ',' ∉ text := by
  cases h with
  | plain h => exact h.notMem (by decide) (by decide)
  | stepped h hstep =>
    simp only [List.mem_append, List.mem_cons, not_or]
    exact ⟨h.notMem (by decide) (by decide), by decide, hstep.numeral.notMem (by decide) (by decide)⟩

theorem splitBy_comma {b : Bounds} {texts : List (List Char)} {items : List Item}
    (h : List.Forall₂ (SpellsItem b) texts items) : texts.flatMap (Text.splitBy (· = ',')) = texts := by
  induction h with
  | nil => rfl
  | @cons text item texts items hitem _ ih =>
    rw [List.flatMap_cons, Text.splitBy_of_notMem hitem.comma_notMem, ih]
    rfl

/-- **The reader of fields accepts what is spelled.** -/
theorem field_eq_ok_iff {b : Bounds} {text : List Char} {parts : List Part} :
    field b text = .ok parts ↔ ∃ items, SpellsField b text items ∧ parts = items.map (Item.toPart b) := by
  constructor
  · intro h
    obtain ⟨items, hitems, rfl⟩ := mapM_part_eq_ok_iff.mp h
    refine ⟨items, ⟨?_, _, (Text.intercalate_splitBy ',' text).symm, hitems⟩, rfl⟩
    rintro rfl
    exact Text.splitBy_ne_nil _ text (List.forall₂_nil_right_iff.mp hitems)
  · rintro ⟨items, ⟨hne, texts, rfl, hitems⟩, rfl⟩
    -- A field without parts is spelled by nothing, and the empty text has one part.
    have htexts : texts ≠ [] := by
      rintro rfl
      exact hne (List.forall₂_nil_left_iff.mp hitems)
    rw [field, Text.splitBy_intercalate ',' htexts, splitBy_comma hitems]
    exact mapM_part_eq_ok_iff.mpr ⟨items, hitems, rfl⟩

/-! ## The values of a field -/

/-- The test of a part is whether a value lies on the ladder. -/
theorem mem_ladder_iff {first step last v : Nat} :
    v ∈ ladder first step last ↔ (⟨first, last, step⟩ : Part).contains v = true := by
  simp only [ladder, Part.contains, Set.mem_ofPred_eq, Bool.and_eq_true, decide_eq_true_eq]
  constructor
  · rintro ⟨hlast, k, rfl⟩
    refine ⟨⟨Nat.le_add_right first _, hlast⟩, ?_⟩
    rw [Nat.add_sub_cancel_left, Nat.mul_mod_left]
  · rintro ⟨⟨hfirst, hlast⟩, hstep⟩
    obtain ⟨k, hk⟩ := Nat.dvd_of_mod_eq_zero hstep
    refine ⟨hlast, k, ?_⟩
    rw [Nat.mul_comm, ← hk]
    omega

theorem ladder_self (v step : Nat) : ladder v step v = {v} := by
  ext w
  simp only [ladder, Set.mem_ofPred_eq, Set.mem_singleton_iff]
  constructor
  · rintro ⟨hle, k, rfl⟩
    omega
  · rintro rfl
    exact ⟨le_refl w, 0, by omega⟩

/-- A part that is read has the values that the part that is written stands for. -/
theorem contains_toPart_iff {b : Bounds} {item : Item} {v : Nat} :
    (item.toPart b).contains v = true ↔ v ∈ item.meaning b := by
  obtain ⟨extent, step⟩ := item
  cases extent with
  | all => exact mem_ladder_iff.symm
  | between first last => exact mem_ladder_iff.symm
  | one w =>
    cases step with
    | none =>
      rw [Item.meaning, ← ladder_self w 1]
      exact mem_ladder_iff.symm
    | some n =>
      -- A single value with a step greater than one opens a range; with step one it stays a value.
      by_cases hn : 1 < n
      · simp only [Item.meaning, Item.toPart, Extent.toPart, Option.getD_some, if_pos hn]
        exact mem_ladder_iff.symm
      · simp only [Item.meaning, Item.toPart, Extent.toPart, Option.getD_some, if_neg hn]
        rw [← ladder_self w n]
        exact mem_ladder_iff.symm

/-- The values of a part lie within the bounds of its field. -/
theorem SpellsExtent.toPart_bounds {b : Bounds} (hb : b.low ≤ b.high) {text : List Char} {extent : Extent}
    (h : SpellsExtent b text extent) (n : Nat) :
    b.low ≤ (extent.toPart b n).first ∧ (extent.toPart b n).first ≤ (extent.toPart b n).last ∧
      (extent.toPart b n).last ≤ b.high := by
  cases h with
  | all => exact ⟨le_refl _, hb, le_refl _⟩
  | between hfirst hlast hle => exact ⟨hfirst.low, hle, hlast.high⟩
  | @one _ v h =>
    have hlast : v ≤ (if 1 < n then b.high else v) ∧ (if 1 < n then b.high else v) ≤ b.high := by
      split
      · exact ⟨h.high, le_refl _⟩
      · exact ⟨le_refl _, h.high⟩
    exact ⟨h.low, hlast⟩

/-- What a part stands for is not nothing and lies within the bounds of its field. -/
theorem SpellsItem.meaning_spec {b : Bounds} (hb : b.low ≤ b.high) {text : List Char} {item : Item}
    (h : SpellsItem b text item) :
    (∃ v, v ∈ item.meaning b) ∧ ∀ v ∈ item.meaning b, b.low ≤ v ∧ v ≤ b.high := by
  have hbounds : b.low ≤ (item.toPart b).first ∧ (item.toPart b).first ≤ (item.toPart b).last ∧
      (item.toPart b).last ≤ b.high := by
    cases h with
    | plain h => exact h.toPart_bounds hb 1
    | @stepped _ _ _ n h _ => exact h.toPart_bounds hb n
  obtain ⟨hlow, hle, hhigh⟩ := hbounds
  constructor
  -- The first value of a part is always among its values.
  · refine ⟨(item.toPart b).first, contains_toPart_iff.mp ?_⟩
    simp [Part.contains, hle]
  · intro v hv
    have hcontains := contains_toPart_iff.mpr hv
    simp only [Part.contains, Bool.and_eq_true, decide_eq_true_eq] at hcontains
    exact ⟨hlow.trans hcontains.1.1, hcontains.1.2.trans hhigh⟩

/-- Every part of a field is written somewhere in it. -/
theorem SpellsField.exists_text {b : Bounds} {text : List Char} {items : List Item}
    (h : SpellsField b text items) {item : Item} (hitem : item ∈ items) : ∃ part, SpellsItem b part item := by
  obtain ⟨-, texts, -, hitems⟩ := h
  induction hitems with
  | nil => cases hitem
  | @cons part _ _ _ hpart _ ih =>
    rcases List.mem_cons.mp hitem with rfl | hitem
    · exact ⟨part, hpart⟩
    · exact ih hitem

/-- A field stands for something, and for nothing outside its bounds. -/
theorem SpellsField.meaning_spec {b : Bounds} (hb : b.low ≤ b.high) {text : List Char} {items : List Item}
    (h : SpellsField b text items) :
    (∃ v, v ∈ meaning b items) ∧ ∀ v ∈ meaning b items, b.low ≤ v ∧ v ≤ b.high := by
  constructor
  · obtain ⟨item, hitem⟩ := List.exists_mem_of_ne_nil items h.1
    obtain ⟨part, hpart⟩ := h.exists_text hitem
    obtain ⟨v, hv⟩ := (hpart.meaning_spec hb).1
    exact ⟨v, item, hitem, hv⟩
  · rintro v ⟨item, hitem, hv⟩
    obtain ⟨part, hpart⟩ := h.exists_text hitem
    exact (hpart.meaning_spec hb).2 v hv

/-- **The values that are read are the values that are meant**, in ascending order. -/
theorem SpellsField.lists_values {b : Bounds} (hb : b.low ≤ b.high) {text : List Char} {items : List Item}
    (h : SpellsField b text items) : Lists (values b (items.map (Item.toPart b))) (meaning b items) := by
  refine ⟨values_sorted b _, fun v => ?_⟩
  simp only [values, List.mem_filter, List.mem_range, List.any_eq_true, List.mem_map]
  constructor
  · rintro ⟨-, p, ⟨item, hitem, rfl⟩, hv⟩
    exact ⟨item, hitem, contains_toPart_iff.mp hv⟩
  · rintro ⟨item, hitem, hv⟩
    have hhigh := ((h.meaning_spec hb).2 v ⟨item, hitem, hv⟩).2
    exact ⟨Nat.lt_succ_of_le hhigh, _, ⟨item, hitem, rfl⟩, contains_toPart_iff.mpr hv⟩

/-- Sunday may be written 0 or 7, and is 0. -/
theorem lists_foldSunday {values : List Nat} {set : Set Nat} (h : Lists values set) (hle : ∀ v ∈ set, v ≤ 7) :
    Lists (foldSunday values) ((· % 7) '' set) := by
  refine ⟨List.pairwise_lt_range.filter _, fun v => ?_⟩
  simp only [foldSunday, List.mem_filter, List.mem_range, Bool.or_eq_true, Bool.and_eq_true,
    decide_eq_true_eq, h.mem_iff, Set.mem_image]
  constructor
  · rintro ⟨hlt, hv | ⟨rfl, hseven⟩⟩
    · exact ⟨v, hv, Nat.mod_eq_of_lt hlt⟩
    · exact ⟨7, hseven, rfl⟩
  · rintro ⟨w, hw, rfl⟩
    refine ⟨Nat.mod_lt w (by decide), ?_⟩
    -- Only 7 is changed.
    rcases Nat.lt_or_eq_of_le (hle w hw) with hlt | rfl
    · exact Or.inl (by rwa [Nat.mod_eq_of_lt hlt])
    · exact Or.inr ⟨rfl, hw⟩

/-! ## Fields that do not restrict -/

/-- A part is written `*` just if it is the star without a step. -/
theorem SpellsItem.star_iff {b : Bounds} {text : List Char} {item : Item} (h : SpellsItem b text item) :
    text = ['*'] ↔ item = ⟨.all, none⟩ := by
  cases h with
  | stepped h hstep =>
    refine iff_of_false ?_ (by simp)
    intro htext
    have hslash : '/' ∈ ['*'] := htext ▸ (by simp)
    simp at hslash
  | plain h => simp [h.star_iff]

/-- A field is written `*` just if it has this one part. -/
theorem SpellsField.star_iff {b : Bounds} {text : List Char} {items : List Item}
    (h : SpellsField b text items) : text = ['*'] ↔ items = [⟨.all, none⟩] := by
  obtain ⟨hne, texts, rfl, hitems⟩ := h
  constructor
  · intro htext
    have htexts : texts ≠ [] := by
      rintro rfl
      exact hne (List.forall₂_nil_left_iff.mp hitems)
    have hsplit := Text.splitBy_intercalate ',' htexts
    rw [htext, splitBy_comma hitems] at hsplit
    -- The only part of the text `*` is the whole of it.
    have hstar : Text.splitBy (· = ',') ['*'] = [['*']] := by decide
    rw [hstar] at hsplit
    subst hsplit
    cases hitems with
    | cons hitem hrest =>
      rw [List.forall₂_nil_left_iff.mp hrest, hitem.star_iff.mp rfl]
  · rintro rfl
    cases hitems with
    | cons hitem hrest =>
      rw [List.forall₂_nil_right_iff.mp hrest, hitem.star_iff.mpr rfl]
      rfl

/-! ## Reading a pattern -/

/-- A reading of the five fields of a pattern. -/
theorem parse_eq_ok_iff {text : List Char} {c : Cron} :
    parse text = .ok c ↔ ∃ minute hour day month weekday minutes hours days months weekdays,
      Text.words text = [minute, hour, day, month, weekday] ∧
        field minuteBounds minute = .ok minutes ∧ field hourBounds hour = .ok hours ∧
        field dayBounds day = .ok days ∧ field monthBounds month = .ok months ∧
        field weekdayBounds weekday = .ok weekdays ∧
        c = ⟨values minuteBounds minutes, values hourBounds hours, values dayBounds days,
          values monthBounds months, foldSunday (values weekdayBounds weekdays), day = ['*'],
          weekday = ['*']⟩ := by
  constructor
  · intro h
    unfold parse at h
    split at h
    case h_1 minute hour day month weekday hwords =>
      -- The fields are read from left to right.
      obtain ⟨minutes, hminutes, h⟩ := ok_of_bind h
      obtain ⟨hours, hhours, h⟩ := ok_of_bind h
      obtain ⟨days, hdays, h⟩ := ok_of_bind h
      obtain ⟨months, hmonths, h⟩ := ok_of_bind h
      obtain ⟨weekdays, hweekdays, h⟩ := ok_of_bind h
      exact ⟨minute, hour, day, month, weekday, minutes, hours, days, months, weekdays, hwords, hminutes,
        hhours, hdays, hmonths, hweekdays, (Except.ok.inj h).symm⟩
    case h_2 => cases h
  · rintro ⟨minute, hour, day, month, weekday, minutes, hours, days, months, weekdays, hwords, hminutes,
      hhours, hdays, hmonths, hweekdays, rfl⟩
    simp only [parse, hwords, hminutes, hhours, hdays, hmonths, hweekdays]
    rfl

/-- **What is accepted is spelled by the grammar.** -/
theorem exists_spells_of_parse {text : List Char} {c : Cron} (h : parse text = .ok c) :
    ∃ p, Spells text p := by
  obtain ⟨minute, hour, day, month, weekday, _, _, _, _, _, hwords, hminutes, hhours, hdays, hmonths,
    hweekdays, -⟩ := parse_eq_ok_iff.mp h
  obtain ⟨minutes, hminutes, -⟩ := field_eq_ok_iff.mp hminutes
  obtain ⟨hours, hhours, -⟩ := field_eq_ok_iff.mp hhours
  obtain ⟨days, hdays, -⟩ := field_eq_ok_iff.mp hdays
  obtain ⟨months, hmonths, -⟩ := field_eq_ok_iff.mp hmonths
  obtain ⟨weekdays, hweekdays, -⟩ := field_eq_ok_iff.mp hweekdays
  exact ⟨⟨minutes, hours, days, months, weekdays⟩, minute, hour, day, month, weekday,
    Text.words_eq_iff.mp hwords, hminutes, hhours, hdays, hmonths, hweekdays⟩

/-- What the grammar spells is accepted and gives the schedule that is meant. -/
theorem Spells.exists_parse {text : List Char} {p : Pattern} (h : Spells text p) :
    ∃ c, parse text = .ok c ∧ p.Describes c := by
  obtain ⟨minute, hour, day, month, weekday, hwords, hminute, hhour, hday, hmonth, hweekday⟩ := h
  have hparse := parse_eq_ok_iff.mpr ⟨minute, hour, day, month, weekday, _, _, _, _, _,
    hwords.words_eq, field_eq_ok_iff.mpr ⟨_, hminute, rfl⟩, field_eq_ok_iff.mpr ⟨_, hhour, rfl⟩,
    field_eq_ok_iff.mpr ⟨_, hday, rfl⟩, field_eq_ok_iff.mpr ⟨_, hmonth, rfl⟩,
    field_eq_ok_iff.mpr ⟨_, hweekday, rfl⟩, rfl⟩
  refine ⟨_, hparse, ?_⟩
  constructor
  · exact hminute.lists_values (by decide)
  · exact hhour.lists_values (by decide)
  · exact hday.lists_values (by decide)
  · exact hmonth.lists_values (by decide)
  -- Weekdays are given up to 7, and Sunday is folded.
  · exact lists_foldSunday (hweekday.lists_values (by decide))
      (fun v hv => ((hweekday.meaning_spec (by decide)).2 v hv).2)
  · simpa using hday.star_iff
  · simpa using hweekday.star_iff

/-- Values within the bounds of a field, at least one. -/
def Within (b : Bounds) (values : List Nat) : Prop :=
  values ≠ [] ∧ ∀ v ∈ values, b.low ≤ v ∧ v ≤ b.high

theorem Lists.within {b : Bounds} {values : List Nat} {set : Set Nat} (h : Lists values set)
    (hne : ∃ v, v ∈ set) (hset : ∀ v ∈ set, b.low ≤ v ∧ v ≤ b.high) : Within b values := by
  obtain ⟨v, hv⟩ := hne
  exact ⟨List.ne_nil_of_mem ((h.mem_iff v).mpr hv), fun w hw => hset w ((h.mem_iff w).mp hw)⟩

/-- The values that are read for a field are not nothing, and within its bounds. -/
theorem SpellsField.within {b : Bounds} (hb : b.low ≤ b.high) {text : List Char} {items : List Item}
    (h : SpellsField b text items) {values : List Nat} (hvalues : Lists values (meaning b items)) :
    Within b values :=
  hvalues.within (h.meaning_spec hb).1 (h.meaning_spec hb).2

/-- **The reader of patterns accepts its grammar and means it.** A text is accepted exactly if it spells a
pattern: five fields between white space, each a list of parts between commas, each part `*`, `v` or `a-b`,
perhaps with a step `/n`, where the values lie within the bounds of the field, `a ≤ b` and `1 ≤ n`. The schedule
that it gives is then exactly the one that the pattern stands for: each set is the union of what the parts of its
field mean, weekdays count modulo 7. All five sets have values, and only such as their fields allow. -/
theorem parse_accepts_grammar (text : List Char) :
    ((∃ c, parse text = .ok c) ↔ ∃ p, Spells text p) ∧
      (∀ p c, Spells text p → (parse text = .ok c ↔ p.Describes c)) ∧
      ∀ c, parse text = .ok c → Within minuteBounds c.minutes ∧ Within hourBounds c.hours ∧
        Within dayBounds c.days ∧ Within monthBounds c.months ∧ Within ⟨0, 6⟩ c.weekdays := by
  refine ⟨⟨fun ⟨c, hc⟩ => exists_spells_of_parse hc, ?_⟩, ?_, ?_⟩
  · rintro ⟨p, hp⟩
    obtain ⟨c, hc, -⟩ := hp.exists_parse
    exact ⟨c, hc⟩
  · intro p c hp
    obtain ⟨c', hc', hdescribes⟩ := hp.exists_parse
    constructor
    · intro hc
      rw [hc] at hc'
      obtain rfl := Except.ok.inj hc'
      exact hdescribes
    · intro hc
      rw [hc', hdescribes.unique hc]
  · intro c hc
    obtain ⟨p, hp⟩ := exists_spells_of_parse hc
    obtain ⟨c', hc', hdescribes⟩ := hp.exists_parse
    obtain rfl : c = c' := by
      rw [hc] at hc'
      exact Except.ok.inj hc'
    obtain ⟨minute, hour, day, month, weekday, -, hminute, hhour, hday, hmonth, hweekday⟩ := hp
    refine ⟨hminute.within (by decide) hdescribes.minutes, hhour.within (by decide) hdescribes.hours,
      hday.within (by decide) hdescribes.days, hmonth.within (by decide) hdescribes.months, ?_⟩
    -- A remainder by 7 is at most 6, whatever it is a remainder of.
    obtain ⟨v, hv⟩ := (hweekday.meaning_spec (by decide)).1
    refine hdescribes.weekdays.within ⟨v % 7, v, hv, rfl⟩ ?_
    rintro _ ⟨w, -, rfl⟩
    exact ⟨Nat.zero_le _, Nat.le_of_lt_succ (Nat.mod_lt w (by decide))⟩

/-- Lists, ranges and steps together, with a sign, leading zeros and white space at the end: at minutes 0, 7, 20
and 40 of the hours 8 and 10, on the first of a month and from Friday to Sunday. -/
theorem parse_accepts_grammar_of_lists :
    ∃ c, parse "*/20,+07  008-10/2 1 * 5-7 ".toList = .ok c ∧
      Pattern.Describes ⟨[⟨.all, some 20⟩, ⟨.one 7, none⟩], [⟨.between 8 10, some 2⟩], [⟨.one 1, none⟩],
        [⟨.all, none⟩], [⟨.between 5 7, none⟩]⟩ c ∧
      c.minutes = [0, 7, 20, 40] ∧ c.weekdays = [0, 5, 6] := by
  have hspells : Spells "*/20,+07  008-10/2 1 * 5-7 ".toList
      ⟨[⟨.all, some 20⟩, ⟨.one 7, none⟩], [⟨.between 8 10, some 2⟩], [⟨.one 1, none⟩], [⟨.all, none⟩],
        [⟨.between 5 7, none⟩]⟩ := by
    have hhours : SpellsExtent hourBounds "008-10".toList (.between 8 10) :=
      @SpellsExtent.between hourBounds "008".toList "10".toList 8 10 (value_eq_ok_iff.mp rfl)
        (value_eq_ok_iff.mp rfl) (by decide)
    have hweekdays : SpellsExtent weekdayBounds "5-7".toList (.between 5 7) :=
      @SpellsExtent.between weekdayBounds "5".toList "7".toList 5 7 (value_eq_ok_iff.mp rfl)
        (value_eq_ok_iff.mp rfl) (by decide)
    refine ⟨"*/20,+07".toList, "008-10/2".toList, "1".toList, "*".toList, "5-7".toList,
      Text.words_eq_iff.mp (by decide), ⟨by simp, ["*/20".toList, "+07".toList], by decide, ?_⟩,
      ⟨by simp, ["008-10/2".toList], by decide, ?_⟩, ⟨by simp, ["1".toList], by decide, ?_⟩,
      ⟨by simp, ["*".toList], by decide, ?_⟩, ⟨by simp, ["5-7".toList], by decide, ?_⟩⟩
    · exact .cons (.stepped .all (step_eq_ok_iff.mp rfl)) (.cons (.plain (.one (value_eq_ok_iff.mp rfl))) .nil)
    · exact .cons (.stepped hhours (step_eq_ok_iff.mp rfl)) .nil
    · exact .cons (.plain (.one (value_eq_ok_iff.mp rfl))) .nil
    · exact .cons (.plain .all) .nil
    · exact .cons (.plain hweekdays) .nil
  obtain ⟨haccepts, hdescribes, -⟩ := parse_accepts_grammar "*/20,+07  008-10/2 1 * 5-7 ".toList
  obtain ⟨c, hc⟩ := haccepts.mpr ⟨_, hspells⟩
  have hparse : parse "*/20,+07  008-10/2 1 * 5-7 ".toList =
      .ok ⟨[0, 7, 20, 40], [8, 10], [1], [1, 2, 3, 4, 5, 6, 7, 8, 9, 10, 11, 12], [0, 5, 6], false, false⟩ := by
    decide +kernel
  refine ⟨c, hc, (hdescribes _ c hspells).mp hc, ?_⟩
  rw [hparse] at hc
  obtain rfl := Except.ok.inj hc
  exact ⟨rfl, rfl⟩

end ServiceEngine.Cron
