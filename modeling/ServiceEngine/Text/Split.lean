import ServiceEngine.Text.Blank

/-!
# Splitting texts

Texts are cut at every separator (`splitBy`), into the non-empty parts between separators
(`pieces`, `words`), or once at the first separator (`cut?`).

Main statement: `cut?_eq_some_iff` pins the single cut down to the first separator.
-/

namespace ServiceEngine.Text

/-- The parts of `cs` between the characters that satisfy `p`, empty parts included. -/
def splitBy (p : Char → Bool) : List Char → List (List Char)
  | [] => [[]]
  | c :: rest =>
    if p c then [] :: splitBy p rest
    else match splitBy p rest with
      | [] => [[c]]
      | first :: more => (c :: first) :: more

/-- The non-empty parts of `cs` between the characters that satisfy `p`. -/
def pieces (p : Char → Bool) (cs : List Char) : List (List Char) :=
  (splitBy p cs).filter (fun part => !part.isEmpty)

/-- The words of `cs`: its longest runs without white space. -/
def words (cs : List Char) : List (List Char) := pieces isBlank cs

/-- What stands before and after the first `sep`. -/
def cut? (sep : Char) : List Char → Option (List Char × List Char)
  | [] => none
  | c :: rest =>
    if c = sep then some ([], rest)
    else (cut? sep rest).map (fun (before, after) => (c :: before, after))

/-- **A cut is at the first separator**: there is none before it. -/
theorem cut?_eq_some_iff {sep : Char} {cs before after : List Char} :
    cut? sep cs = some (before, after) ↔ sep ∉ before ∧ cs = before ++ sep :: after := by
  induction cs generalizing before with
  | nil => simp [cut?]
  | cons c rest ih =>
    by_cases hc : c = sep
    -- The text starts with the separator, so nothing can stand before the cut.
    · subst hc
      cases before with
      | nil => simp [cut?]
      | cons b before =>
        simp only [cut?, if_true, Option.some.injEq, Prod.mk.injEq, List.cons_append]
        constructor
        · rintro ⟨h, _⟩
          cases h
        · rintro ⟨hmem, heq⟩
          exact absurd (List.cons.inj heq).1 (fun h => hmem (h ▸ List.mem_cons_self))
    -- Otherwise the first character belongs to what stands before the cut.
    · cases before with
      | nil =>
        simp only [cut?, hc, if_false, Option.map_eq_some_iff, Prod.mk.injEq, List.nil_append]
        constructor
        · rintro ⟨_, _, h, _⟩
          cases h
        · rintro ⟨_, heq⟩
          exact absurd (List.cons.inj heq).1 hc
      | cons b before =>
        simp only [cut?, hc, if_false, Option.map_eq_some_iff, Prod.mk.injEq, List.cons_append]
        constructor
        · rintro ⟨⟨x, y⟩, hx, h, rfl⟩
          obtain ⟨rfl, rfl⟩ := List.cons.inj h
          obtain ⟨hmem, rfl⟩ := ih.mp hx
          exact ⟨by simp [hmem, Ne.symm hc], rfl⟩
        · rintro ⟨hmem, heq⟩
          obtain ⟨rfl, rfl⟩ := List.cons.inj heq
          exact ⟨(before, after), ih.mpr ⟨fun h => hmem (List.mem_cons_of_mem _ h), rfl⟩, rfl, rfl⟩

end ServiceEngine.Text
