import Mathlib
import ServiceEngine.Proofs.Exec.Arena

/-!
# Lookups end

A lookup goes from a frame to its parent, to the parent of that one, and so on. `Scope.Walk` lists the
places that a lookup visits if it ends at all, and `Walk.nodup` says that it then visits no place twice:
what a lookup does next depends on the place alone, so one that comes back to a place goes round for ever.

Handles are places, and they outlive their frames. `Scope.Reached` is what a caller can make of a scope
with the handles that it has been given, released ones included. As long as frames are opened inside
frames that exist, a parent is older than its frame (`Reached.layered`), and every lookup goes down to an end.
A frame that is opened with a released handle may take the very place that the handle names, and become its own
parent.
-/

namespace ServiceEngine

namespace Scope

/-! ## Walks -/

/-- A lookup of `name` from a place on that ends, with the places that it visits and the frame that it
finds, if any. -/
inductive Walk (s : Scope) (name : String) : FrameId → List FrameId → Option FrameId → Prop where
  | stop {place : FrameId} {owner : Option FrameId} :
      s.visit name place = .stop owner → Walk s name place [place] owner
  | goOn {place parent : FrameId} {visited : List FrameId} {owner : Option FrameId} :
      s.visit name place = .goOn parent → Walk s name parent visited owner →
      Walk s name place (place :: visited) owner

namespace Walk

variable {s : Scope} {name : String} {place : FrameId} {visited visited' : List FrameId}
  {owner owner' : Option FrameId}

theorem seek_eq (h : s.Walk name place visited owner) : s.seek name place = owner := by
  induction h with
  | stop hvisit => rw [seek, hvisit]
  | goOn hvisit _ ih =>
    rw [seek, hvisit]
    exact ih

/-- A place decides the whole walk from there. -/
theorem visited_eq (h : s.Walk name place visited owner) (h' : s.Walk name place visited' owner') :
    visited = visited' := by
  -- Both walks look at the same frame, so they stop together or go on to the same parent.
  induction h generalizing visited' with
  | stop hvisit =>
    cases h' with
    | stop _ => rfl
    | goOn hvisit' _ => simp [hvisit] at hvisit'
  | goOn hvisit _ ih =>
    cases h' with
    | stop hvisit' => simp [hvisit] at hvisit'
    | goOn hvisit' hrest =>
      rw [hvisit, Visit.goOn.injEq] at hvisit'
      subst hvisit'
      rw [ih hrest]

/-- The rest of a walk, from a place that it visits on, is a walk. -/
theorem exists_rest (h : s.Walk name place visited owner) {other : FrameId} (hother : other ∈ visited) :
    ∃ rest, s.Walk name other rest owner ∧ rest <:+ visited := by
  induction h with
  | stop hvisit =>
    rw [List.mem_singleton] at hother
    subst hother
    exact ⟨_, .stop hvisit, List.suffix_refl _⟩
  | goOn hvisit hrest ih =>
    rcases List.mem_cons.mp hother with rfl | hlater
    · exact ⟨_, .goOn hvisit hrest, List.suffix_refl _⟩
    · obtain ⟨rest, hwalk, hsuffix⟩ := ih hlater
      exact ⟨rest, hwalk, hsuffix.trans (List.suffix_cons _ _)⟩

/-- **A walk that ends visits each place at most once.** -/
theorem nodup (h : s.Walk name place visited owner) : visited.Nodup := by
  induction h with
  | stop _ => exact List.nodup_singleton _
  | goOn hvisit hrest ih =>
    -- A place that is visited twice would start two walks of different lengths.
    refine List.nodup_cons.mpr ⟨?_, ih⟩
    intro hback
    -- The rest of the walk from the second visit on would be as long as the walk from the first.
    obtain ⟨rest, hwalk, hsuffix⟩ := hrest.exists_rest hback
    have hsame := (Walk.goOn hvisit hrest).visited_eq hwalk
    have hshort := hsuffix.length_le
    rw [← hsame, List.length_cons] at hshort
    exact Nat.not_succ_le_self _ hshort

/-- A walk from a frame that is its own parent would be its own rest. -/
theorem not_of_goOn_self (h : s.visit name place = .goOn place) : ¬ s.Walk name place visited owner := by
  intro hwalk
  have hsame := hwalk.visited_eq (.goOn h hwalk)
  exact List.cons_ne_self place visited hsame.symm

end Walk

/-- Where parents are older than their frames, a lookup has no way to go but down. -/
theorem Layered.exists_walk {s : Scope} (hs : s.Layered) (name : String) (place : FrameId) :
    ∃ visited owner, s.Walk name place visited owner := by
  -- By strong induction on the place, since parents are older.
  induction hindex : place.index using Nat.strong_induction_on generalizing place with
  | _ index ih =>
    cases hvisit : s.visit name place with
    | stop owner => exact ⟨[place], owner, .stop hvisit⟩
    | goOn parent =>
      have holder := hs place parent (parent?_of_visit_goOn hvisit)
      obtain ⟨visited, owner, hwalk⟩ := ih parent.index (hindex ▸ holder) parent rfl
      exact ⟨place :: visited, owner, .goOn hvisit hwalk⟩

/-! ## What a caller can make of a scope -/

/-- A frame exists at a place. -/
def Live (s : Scope) (place : FrameId) : Prop := place.index < s.depth

instance (s : Scope) (place : FrameId) : Decidable (s.Live place) := inferInstanceAs (Decidable (_ < _))

/-- The scopes, with the handles given out so far, that a caller gets to from a root frame that binds `vars`.
Every call is made with a handle given out before, whether or not its frame has been released since; `Opens` says
below which of them a frame may be opened. -/
inductive Reached (Opens : Scope → FrameId → Prop) (vars : Fields Value) : Scope → List FrameId → Prop where
  | start : Reached Opens vars (ofVars vars) [root]
  | child {s : Scope} {handles : List FrameId} (parent : FrameId) :
      Reached Opens vars s handles → parent ∈ handles → Opens s parent →
      Reached Opens vars (s.child parent).2 (handles ++ [(s.child parent).1])
  | release {s : Scope} {handles : List FrameId} (place : FrameId) :
      Reached Opens vars s handles → place ∈ handles → Reached Opens vars (s.release place) handles
  /-- Binding a name where no frame is gives no scope to go on with. -/
  | set {s s' : Scope} {handles : List FrameId} {place : FrameId} {name : String} {value : Value} :
      Reached Opens vars s handles → place ∈ handles → s.set? place name value = some s' →
      Reached Opens vars s' handles
  /-- Assigning to a name that is not bound changes nothing. -/
  | assign {s s' : Scope} {handles : List FrameId} {place : FrameId} {name : String} {value : Value} :
      Reached Opens vars s handles → place ∈ handles → s.assign? place name value = some s' →
      Reached Opens vars s' handles

theorem layered_ofVars (vars : Fields Value) : (ofVars vars).Layered := by
  intro place parent h
  obtain ⟨index⟩ := place
  cases index with
  | zero => simp [parent?, frame?, ofVars] at h
  | succ index => simp [parent?, frame?, ofVars] at h

/-- A release takes frames away and changes no parent. -/
theorem Layered.release {s : Scope} (hs : s.Layered) (place : FrameId) : (s.release place).Layered := by
  by_cases hroot : place.index = 0
  · rwa [Scope.release, if_pos hroot]
  · intro other parent h
    rw [parent?, frame?_release s place other hroot] at h
    by_cases hkept : other.index < place.index
    · rw [if_pos hkept] at h
      exact hs other parent h
    · rw [if_neg hkept] at h
      cases h

theorem links_set? {s s' : Scope} {place : FrameId} {name : String} {value : Value}
    (h : s.set? place name value = some s') : s'.links = s.links := by
  unfold set? at h
  by_cases hlive : place.index < s.depth
  · rw [if_pos hlive, Option.some.injEq] at h
    rw [← h, links_put]
  · simp [hlive] at h

/-- **Frames opened inside frames that exist have older parents**, whatever has been released in between. -/
theorem Reached.layered {vars : Fields Value} {s : Scope} {handles : List FrameId}
    (h : Reached Live vars s handles) : s.Layered := by
  induction h with
  | start => exact layered_ofVars vars
  | child _ _ _ hlive ih => exact ih.opened hlive
  | release place _ _ ih => exact ih.release place
  | set _ _ hset ih => exact ih.of_links (links_set? hset)
  | assign _ _ hassign ih => exact (keeps_assign? hassign).layered ih

/-- **Every lookup ends after visiting each frame at most once**, from any place and so with any handle, as long as
frames are opened inside frames that exist. What it finds settles the value of the name, whether it is bound, and
where it is assigned. -/
theorem lookups_end_inside_live_frames {vars : Fields Value} {s : Scope} {handles : List FrameId}
    (h : Reached Live vars s handles) (place : FrameId) (name : String) :
    ∃ visited owner, s.Walk name place visited owner ∧ visited.Nodup ∧
      s.owner? place name = owner ∧
      s.get? place name = owner.bind (fun owner => (s.frame? owner).bind (fun frame => frame.vars.get? name)) ∧
      s.contains place name = owner.isSome ∧
      ∀ value, s.assign? place name value = owner.map (fun owner => s.put owner name value) := by
  obtain ⟨visited, owner, hwalk⟩ := h.layered.exists_walk name place
  have howner : s.owner? place name = owner := by
    rw [owner?]
    exact hwalk.seek_eq
  refine ⟨visited, owner, hwalk, hwalk.nodup, howner, ?_, ?_, ?_⟩
  · rw [get?, howner]
  · rw [contains, howner]
  · intro value
    rw [assign?, howner]

/-- A place that is taken again, and a released handle whose place is not. -/
theorem lookups_end_inside_live_frames_of_reuse :
    ∃ s handles, Reached Live [("x", .null)] s handles ∧ ⟨2⟩ ∈ handles ∧ ¬ s.Live ⟨2⟩ ∧
      s.Walk "x" ⟨1⟩ [⟨1⟩, ⟨0⟩] (some ⟨0⟩) ∧
      ∃ visited owner, s.Walk "y" ⟨2⟩ visited owner ∧ visited.Nodup ∧ s.owner? ⟨2⟩ "y" = owner := by
  have hstart : Reached Live [("x", .null)] _ _ := .start
  have hinner := (hstart.child root (by decide) (by decide)).child ⟨1⟩ (by decide) (by decide)
  have hreuse := (hinner.release ⟨1⟩ (by decide)).child root (by decide) (by decide)
  refine ⟨_, _, hreuse, by decide, by decide, .goOn rfl (.stop rfl), ?_⟩
  obtain ⟨visited, owner, hwalk, hnodup, howner, -⟩ := lookups_end_inside_live_frames hreuse ⟨2⟩ "y"
  exact ⟨visited, owner, hwalk, hnodup, howner⟩

/-- A frame that is opened with a released handle can be its own parent, and the lookup of a name that it does not
bind never ends. -/
theorem lookup_circles_below_released_frame :
    ∃ s handles place, Reached (fun _ _ => True) [] s handles ∧ place ∈ handles ∧
      ∀ visited owner, ¬ s.Walk "x" place visited owner := by
  have hstart : Reached (fun _ _ => True) [] _ _ := .start
  have hinner := hstart.child root (by decide) trivial
  have hcircle := (hinner.release ⟨1⟩ (by decide)).child ⟨1⟩ (by decide) trivial
  exact ⟨_, _, ⟨1⟩, hcircle, by decide, fun _ _ => Walk.not_of_goOn_self rfl⟩

end Scope

end ServiceEngine
