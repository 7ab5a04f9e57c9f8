import Mathlib

/-!
# Lists and results

Facts about lists and about computations that may fail which belong to no part of the engine: they are used
wherever tables, rows, jobs or deliveries are walked over.
-/

namespace ServiceEngine

/-! ## Computations that may fail -/

/-- A sequence that succeeds is made of two steps that succeed. -/
theorem ok_of_bind {ε α β : Type} {x : Except ε α} {f : α → Except ε β} {b : β}
    (h : x >>= f = .ok b) : ∃ a, x = .ok a ∧ f a = .ok b := by
  cases x with
  | error e => cases h
  | ok a => exact ⟨a, rfl, h⟩

/-- A walk that succeeds gives the result of each step, in order. -/
theorem forall₂_of_mapM {ε α β : Type} {f : α → Except ε β} {l : List α} {l' : List β}
    (h : l.mapM f = .ok l') : List.Forall₂ (fun a b => f a = .ok b) l l' := by
  induction l generalizing l' with
  | nil =>
    cases h
    exact .nil
  | cons a rest ih =>
    rw [List.mapM_cons] at h
    obtain ⟨b, hb, h⟩ := ok_of_bind h
    obtain ⟨bs, hbs, h⟩ := ok_of_bind h
    cases h
    exact .cons hb (ih hbs)

/-! ## Lists related place by place -/

/-- Related lists have related entries at every place. -/
theorem exists_of_forall₂ {α β : Type} {R : α → β → Prop} {l : List α} {l' : List β} (h : List.Forall₂ R l l')
    {i : Nat} {a : α} (ha : l[i]? = some a) : ∃ b, l'[i]? = some b ∧ R a b := by
  induction h generalizing i with
  | nil => cases ha
  | cons hab _ ih =>
    cases i with
    | zero =>
      cases ha
      exact ⟨_, rfl, hab⟩
    | succ i => exact ih ha

theorem forall₂_modify {α β : Type} {R : α → β → Prop} {f : α → α} {g : β → β} {l : List α} {l' : List β}
    (h : List.Forall₂ R l l') (hfg : ∀ a b, R a b → R (f a) (g b)) (i : Nat) :
    List.Forall₂ R (l.modify i f) (l'.modify i g) := by
  induction h generalizing i with
  | nil => simp
  | cons hab hrest ih =>
    cases i with
    | zero => exact .cons (hfg _ _ hab) hrest
    | succ i => exact .cons hab (ih i)

/-- If what is related to the second list is related to the first, then so place by place. -/
theorem forall₂_pass {α : Type} {R : α → α → Prop} {first second third : List α}
    (hpass : List.Forall₂ (fun a b => ∀ c, R b c → R a c) first second) (h : List.Forall₂ R second third) :
    List.Forall₂ R first third := by
  induction hpass generalizing third with
  | nil => exact h
  | cons hhead _ ih =>
    cases h with
    | cons hfirst hrest => exact .cons (hhead _ hfirst) (ih hrest)

theorem map_eq_map_of_forall₂ {α β : Type} {f : α → β} {items others : List α}
    (h : List.Forall₂ (fun a b => f a = f b) items others) : items.map f = others.map f := by
  rw [← List.forall₂_eq_eq_eq, List.forall₂_map_left_iff, List.forall₂_map_right_iff]
  exact h

/-! ## Entries that are changed, erased or found -/

/-- An entry after a change at one place was there before, changed or not. -/
theorem mem_modify {α : Type} {l : List α} {i : Nat} {f : α → α} {a : α} (h : a ∈ l.modify i f) :
    ∃ old ∈ l, a = old ∨ a = f old := by
  obtain ⟨j, hj⟩ := List.mem_iff_getElem?.mp h
  rw [List.getElem?_modify] at hj
  obtain ⟨old, hold, rfl⟩ := Option.map_eq_some_iff.mp hj
  refine ⟨old, List.mem_of_getElem? hold, ?_⟩
  by_cases heq : i = j
  · right
    simp [heq]
  · left
    simp [heq]

/-- To change what is read at the first place that passes a test is to change the first reading that passes. -/
theorem map_ite_eq_modify {α β : Type} [DecidableEq α] (read : α → β) (test : β → Bool) (change : β → β)
    {l : List α} (hl : l.Nodup) {a : α} (ha : l.find? (test ∘ read) = some a) :
    l.map (fun b => if a = b then change (read a) else read b) =
      (l.map read).modify ((l.map read).findIdx test) change := by
  induction l with
  | nil => simp at ha
  | cons first rest ih =>
    obtain ⟨hfirst, hrest⟩ := List.nodup_cons.mp hl
    by_cases htest : test (read first) = true
    -- No later place is equal to the first one.
    · obtain rfl : first = a := by simpa [List.find?_cons, htest] using ha
      have hlater : rest.map (fun b => if first = b then change (read first) else read b) = rest.map read := by
        apply List.map_congr_left
        intro b hb
        rw [if_neg (ne_of_mem_of_not_mem hb hfirst).symm]
      simp [List.findIdx_cons, htest, hlater]
    -- The place is further on, and is not the first one.
    · have hlater : rest.find? (test ∘ read) = some a := by simpa [List.find?_cons, htest] using ha
      have hne : a ≠ first := ne_of_mem_of_not_mem (List.mem_of_find?_eq_some hlater) hfirst
      simp [List.findIdx_cons, htest, hne, ih hrest hlater]

theorem eraseP_congr {α : Type} {p q : α → Bool} {l : List α} (h : ∀ a ∈ l, p a = q a) :
    l.eraseP p = l.eraseP q := by
  induction l with
  | nil => rfl
  | cons a rest ih =>
    obtain ⟨ha, hrest⟩ := List.forall_mem_cons.mp h
    rw [List.eraseP_cons, List.eraseP_cons, ha, ih hrest]

/-- In a list without repetitions, the entry that is erased is the one that is missing afterwards. -/
theorem toList_find?_eq_filter {α : Type} [DecidableEq α] (p : α → Bool) {l : List α} (hl : l.Nodup) :
    (l.find? p).toList = l.filter (fun a => a ∉ l.eraseP p) := by
  induction l with
  | nil => rfl
  | cons a rest ih =>
    obtain ⟨ha, hrest⟩ := List.nodup_cons.mp hl
    -- Either the first entry is the one that is found, and no other is equal to it, or it stays.
    by_cases hp : p a = true
    · simp [hp, ha]
    -- The first entry stays, and no later one is equal to it.
    · have hsame : rest.filter (fun b => b ∉ a :: rest.eraseP p) =
          rest.filter (fun b => b ∉ rest.eraseP p) := by
        apply List.filter_congr
        intro b hb
        have hne : b ≠ a := fun heq => ha (heq ▸ hb)
        simp [hne]
      rw [List.find?_cons_of_neg hp, List.eraseP_cons_of_neg hp, List.filter_cons_of_neg (by simp), hsame]
      exact ih hrest

/-- The entries of a sublist, picked out of the list, are the sublist. -/
theorem filter_mem_of_sublist {α : Type} [DecidableEq α] {l left : List α} (hl : l.Nodup)
    (h : left.Sublist l) : l.filter (fun a => a ∈ left) = left := by
  induction h with
  | slnil => rfl
  | cons a h ih =>
    -- The entry that is left out occurs nowhere else, so it is not picked.
    obtain ⟨ha, hrest⟩ := List.nodup_cons.mp hl
    rw [List.filter_cons_of_neg (by simpa using fun hmem => ha (h.subset hmem))]
    exact ih hrest
  | cons_cons a h ih =>
    obtain ⟨ha, hrest⟩ := List.nodup_cons.mp hl
    rw [List.filter_cons_of_pos (by simp)]
    congr 1
    rw [← ih hrest]
    apply List.filter_congr
    intro b hb
    have hne : b ≠ a := fun heq => ha (heq ▸ hb)
    simp [hne, hb]

/-- The first item of an ascending list that passes a bound is the least one. -/
theorem find?_isLeast {items : List Nat} (hsorted : items.Pairwise (· < ·)) {bound n : Nat}
    (h : items.find? (bound ≤ ·) = some n) : IsLeast { m | m ∈ items ∧ bound ≤ m } n := by
  obtain ⟨hn, before, after, rfl, hbefore⟩ := List.find?_eq_some_iff_append.mp h
  refine ⟨⟨by simp, by simpa using hn⟩, ?_⟩
  rintro m ⟨hm, hbound⟩
  -- What stands before the found item fails the bound, and what stands behind it is greater.
  rcases List.mem_append.mp hm with hm | hm
  · have hfail := hbefore m hm
    simp only [Bool.not_eq_true', decide_eq_false_iff_not] at hfail
    exact absurd hbound hfail
  · rcases List.mem_cons.mp hm with rfl | hm
    · exact le_refl _
    · have htail := (List.pairwise_append.mp hsorted).2.1
      exact ((List.pairwise_cons.mp htail).1 m hm).le

/-! ## What is seen of a list -/

section

variable {α β : Type} {view : α → Option β} {items : List α} {x : α} {k : Nat}

/-- An item that is replaced by one that looks the same changes nothing in what is seen of the list. -/
theorem filterMap_set_of_same (hfound : items[k]? = some x) (y : α) (hsame : view y = view x) :
    (items.set k y).filterMap view = items.filterMap view := by
  induction items generalizing k with
  | nil => rfl
  | cons first rest ih =>
    cases k with
    | zero =>
      obtain rfl : first = x := by simpa using hfound
      simp [List.filterMap_cons, hsame]
    | succ k => simp [List.filterMap_cons, ih (by simpa using hfound)]

/-- An item that is not seen is not missed. -/
theorem filterMap_eraseIdx_of_none (hfound : items[k]? = some x) (hview : view x = none) :
    (items.eraseIdx k).filterMap view = items.filterMap view := by
  induction items generalizing k with
  | nil => rfl
  | cons first rest ih =>
    cases k with
    | zero =>
      obtain rfl : first = x := by simpa using hfound
      simp [hview]
    | succ k => simp [List.filterMap_cons, ih (by simpa using hfound)]

/-- An item that is seen has a place among those that are seen, and goes from there. -/
theorem filterMap_eraseIdx_of_some (hfound : items[k]? = some x) {y : β} (hview : view x = some y) :
    ∃ j, (items.filterMap view)[j]? = some y ∧
      (items.eraseIdx k).filterMap view = (items.filterMap view).eraseIdx j := by
  induction items generalizing k with
  | nil => cases hfound
  | cons first rest ih =>
    cases k with
    | zero =>
      obtain rfl : first = x := by simpa using hfound
      exact ⟨0, by simp [hview], by simp [hview]⟩
    | succ k =>
      obtain ⟨j, hj, herase⟩ := ih (by simpa using hfound)
      -- A place further down among the seen ones if the first item is seen, the same place
      -- otherwise.
      cases hfirst : view first with
      | none => exact ⟨j, by simp [hfirst, hj], by simp [hfirst, herase]⟩
      | some z => exact ⟨j + 1, by simp [hfirst, hj], by simp [hfirst, herase]⟩

end

end ServiceEngine
