import Mathlib
import ServiceEngine.Exec.Scope

/-!
# What a block may do to a stack of frames

`Scope.Keeps` says how a stack may differ after something has run in one of its frames: the links
between frames are the same, frames outside the walk from that frame to the root are the same, no
frame forgets a name, and only the frame itself may have learned names, from a given list.

The relation is reflexive and transitive, binding and assigning names satisfy it, and it passes from a
fresh inner frame to the frame around it when the inner frame is released.
-/

namespace ServiceEngine

namespace Scope

/-! ## Links and names -/

/-- The parents of the frames, the oldest frame first. -/
def links (s : Scope) : List (Option FrameId) := s.frames.map Frame.parent

/-- The parent of the frame at a place. -/
def parent? (s : Scope) (place : FrameId) : Option FrameId := (s.frame? place).bind Frame.parent

/-- Every frame has a parent that is older than itself, if any. -/
def Layered (s : Scope) : Prop :=
  ∀ place parent, s.parent? place = some parent → parent.index < place.index

/-- A frame lies on the walk from `place` to the root. -/
inductive Encloses (s : Scope) (outer : FrameId) : FrameId → Prop where
  /-- The walk starts at the place itself. -/
  | self : Encloses s outer outer
  /-- It goes on from the parent. -/
  | step {place parent : FrameId} :
      s.parent? place = some parent → Encloses s outer parent → Encloses s outer place

/-- The frame at a place binds a name. -/
def Binds (s : Scope) (place : FrameId) (name : String) : Prop :=
  ∃ frame, s.frame? place = some frame ∧ frame.vars.contains name = true

/-- A parent is read off the links alone, so stacks with the same links have the same walks. -/
theorem parent?_eq (s : Scope) (place : FrameId) : s.parent? place = s.links[place.index]?.join := by
  unfold parent? frame? links
  rw [List.getElem?_map]
  cases s.frames[place.index]? <;> rfl

theorem depth_eq_of_links {s s' : Scope} (h : s'.links = s.links) : s'.depth = s.depth := by
  have hlen := congrArg List.length h
  simpa [links, depth] using hlen

theorem parent?_of_links {s s' : Scope} (h : s'.links = s.links) (place : FrameId) :
    s'.parent? place = s.parent? place := by
  rw [parent?_eq, parent?_eq, h]

theorem Layered.of_links {s s' : Scope} (hs : s.Layered) (h : s'.links = s.links) : s'.Layered := by
  intro place parent hparent
  rw [parent?_of_links h] at hparent
  exact hs place parent hparent

theorem Encloses.of_links {s s' : Scope} (h : s'.links = s.links) {outer place : FrameId}
    (hwalk : s.Encloses outer place) : s'.Encloses outer place := by
  induction hwalk with
  | self => exact .self
  | step hparent _ ih => exact .step (by rwa [parent?_of_links h]) ih

/-- After something has run in the frame at `place`, which may have bound `names` there. -/
structure Keeps (s s' : Scope) (place : FrameId) (names : List String) : Prop where
  links_eq : s'.links = s.links
  frame_eq : ∀ other, ¬ s.Encloses other place → s'.frame? other = s.frame? other
  binds_of : ∀ other name, s.Binds other name → s'.Binds other name
  binds_only : ∀ other name, s'.Binds other name →
    s.Binds other name ∨ other = place ∧ name ∈ names

namespace Keeps

theorem refl (s : Scope) (place : FrameId) (names : List String) : Keeps s s place names :=
  ⟨rfl, fun _ _ => rfl, fun _ _ h => h, fun _ _ h => Or.inl h⟩

/-- One thing after the other, in the same frame: the names that may have been bound add up. -/
theorem trans {s₁ s₂ s₃ : Scope} {place : FrameId} {names more : List String}
    (h₁ : Keeps s₁ s₂ place names) (h₂ : Keeps s₂ s₃ place more) :
    Keeps s₁ s₃ place (names ++ more) := by
  refine ⟨h₂.links_eq.trans h₁.links_eq, ?_, ?_, ?_⟩
  · intro other hout
    -- Both stacks have the same links, so a frame outside the walk of the one is outside that of
    -- the other.
    have hout' : ¬ s₂.Encloses other place := fun h => hout (h.of_links h₁.links_eq.symm)
    exact (h₂.frame_eq other hout').trans (h₁.frame_eq other hout)
  · intro other name h
    exact h₂.binds_of other name (h₁.binds_of other name h)
  · intro other name h
    rcases h₂.binds_only other name h with h | ⟨hplace, hname⟩
    · rcases h₁.binds_only other name h with h | ⟨hplace, hname⟩
      · exact Or.inl h
      · exact Or.inr ⟨hplace, List.mem_append_left _ hname⟩
    · exact Or.inr ⟨hplace, List.mem_append_right _ hname⟩

theorem mono {s s' : Scope} {place : FrameId} {names more : List String} (h : Keeps s s' place names)
    (hnames : names ⊆ more) : Keeps s s' place more := by
  refine ⟨h.links_eq, h.frame_eq, h.binds_of, ?_⟩
  intro other name hbinds
  exact (h.binds_only other name hbinds).imp id (fun ⟨hplace, hname⟩ => ⟨hplace, hnames hname⟩)

theorem depth_eq {s s' : Scope} {place : FrameId} {names : List String} (h : Keeps s s' place names) :
    s'.depth = s.depth := depth_eq_of_links h.links_eq

theorem layered {s s' : Scope} {place : FrameId} {names : List String} (h : Keeps s s' place names)
    (hs : s.Layered) : s'.Layered := hs.of_links h.links_eq

end Keeps

/-! ## Binding and assigning -/

theorem frame?_put (s : Scope) (place other : FrameId) (name : String) (value : Value) :
    (s.put place name value).frame? other =
      (s.frame? other).map (fun frame =>
        if place = other then { frame with vars := frame.vars.insert name value } else frame) := by
  obtain ⟨i⟩ := place
  obtain ⟨j⟩ := other
  simp only [put, frame?, List.getElem?_modify, FrameId.mk.injEq]
  rfl

theorem links_put (s : Scope) (place : FrameId) (name : String) (value : Value) :
    (s.put place name value).links = s.links := by
  unfold links put
  refine List.ext_getElem? (fun i => ?_)
  rw [List.getElem?_map, List.getElem?_map, List.getElem?_modify]
  by_cases h : place.index = i
  · cases s.frames[i]? <;> simp [h]
  · simp [h]

/-- A name written into a frame is bound there, and nothing else changes what is bound. -/
theorem binds_put_iff (s : Scope) (place other : FrameId) (name bound : String) (value : Value) :
    (s.put place name value).Binds other bound ↔
      s.Binds other bound ∨ place = other ∧ name = bound ∧ (s.frame? other).isSome = true := by
  unfold Binds
  rw [frame?_put]
  cases s.frame? other with
  | none => simp
  | some frame =>
    by_cases h : place = other
    · simp [h, Fields.contains_insert, or_comm]
    · simp [h]

/-- A write into a frame around `place` changes no frame outside the walk from there. -/
theorem frame?_put_of_not_encloses {s : Scope} {place target other : FrameId} {name : String}
    {value : Value} (htarget : s.Encloses target place) (hout : ¬ s.Encloses other place) :
    (s.put target name value).frame? other = s.frame? other := by
  have hne : target ≠ other := by
    rintro rfl
    exact hout htarget
  rw [frame?_put]
  simp [hne]

/-- Binding a name is within what a block may do. -/
theorem keeps_put (s : Scope) (place : FrameId) (name : String) (value : Value) :
    Keeps s (s.put place name value) place [name] := by
  refine ⟨links_put s place name value, ?_, ?_, ?_⟩
  · intro other hout
    exact frame?_put_of_not_encloses .self hout
  · intro other bound h
    exact (binds_put_iff s place other name bound value).mpr (Or.inl h)
  · intro other bound h
    rcases (binds_put_iff s place other name bound value).mp h with h | ⟨hplace, hname, -⟩
    · exact Or.inl h
    · exact Or.inr ⟨hplace.symm, by simp [hname]⟩

/-- A walk that finds the name has found it where it stands. -/
theorem eq_of_visit_stop {s : Scope} {name : String} {place owner : FrameId}
    (h : s.visit name place = .stop (some owner)) : owner = place ∧ s.Binds place name := by
  unfold visit at h
  cases hframe : s.frame? place with
  | none => simp [hframe] at h
  | some frame =>
    simp only [hframe] at h
    by_cases hbinds : frame.vars.contains name = true
    · simp only [hbinds, if_true, Visit.stop.injEq, Option.some.injEq] at h
      exact ⟨h.symm, frame, hframe, hbinds⟩
    · simp only [hbinds, Bool.false_eq_true, if_false] at h
      -- Without the name and without a parent the walk ends with nothing.
      cases hparent : frame.parent with
      | none => simp [hparent] at h
      | some parent => simp [hparent] at h

/-- A walk goes on at the parent only. -/
theorem parent?_of_visit_goOn {s : Scope} {name : String} {place parent : FrameId}
    (h : s.visit name place = .goOn parent) : s.parent? place = some parent := by
  unfold visit at h
  cases hframe : s.frame? place with
  | none => simp [hframe] at h
  | some frame =>
    simp only [hframe] at h
    by_cases hbinds : frame.vars.contains name = true
    · simp [hbinds] at h
    · simp only [hbinds, Bool.false_eq_true, if_false] at h
      cases hparent : frame.parent with
      | none => simp [hparent] at h
      | some older =>
        simp only [hparent, Visit.goOn.injEq] at h
        rw [parent?, hframe, Option.bind_some, hparent, h]

/-- The frame that a name is found in lies on the walk and binds the name. -/
theorem seek_spec {s : Scope} {name : String} {place owner : FrameId} (h : s.seek name place = some owner) :
    s.Encloses owner place ∧ s.Binds owner name := by
  -- The induction is on the steps of the walk, which has an end since it has found something.
  refine seek.partial_correctness s name (fun place owner => s.Encloses owner place ∧ s.Binds owner name)
    ?_ place owner h
  intro walk ih place owner hfound
  cases hvisit : s.visit name place with
  | stop found =>
    rw [hvisit] at hfound
    obtain ⟨rfl, hbinds⟩ := eq_of_visit_stop (hvisit.trans (congrArg Visit.stop hfound))
    exact ⟨.self, hbinds⟩
  | goOn parent =>
    rw [hvisit] at hfound
    obtain ⟨hwalk, hbinds⟩ := ih parent owner hfound
    exact ⟨.step (parent?_of_visit_goOn hvisit) hwalk, hbinds⟩

/-- Assigning a name binds none: the frame that is written binds the name already. -/
theorem keeps_assign? {s s' : Scope} {place : FrameId} {name : String} {value : Value}
    (h : s.assign? place name value = some s') : Keeps s s' place [] := by
  unfold assign? at h
  rw [owner?] at h
  obtain ⟨owner, howner, rfl⟩ := Option.map_eq_some_iff.mp h
  -- The owner lies on the walk from `place`, so frames off the walk stay as they are.
  obtain ⟨hwalk, hbinds⟩ := seek_spec howner
  refine ⟨links_put s owner name value, ?_, ?_, ?_⟩
  · intro other hout
    exact frame?_put_of_not_encloses hwalk hout
  · intro other bound h
    exact (binds_put_iff s owner other name bound value).mpr (Or.inl h)
  · intro other bound h
    rcases (binds_put_iff s owner other name bound value).mp h with h | ⟨rfl, rfl, -⟩
    · exact Or.inl h
    -- The name that is written was bound in the owner before.
    · exact Or.inl hbinds

/-! ## A frame inside -/

/-- The scope with a fresh frame inside `parent`. -/
def opened (s : Scope) (parent : FrameId) : Scope := (s.child parent).2

/-- The place of the frame that is opened next. -/
def top (s : Scope) : FrameId := ⟨s.depth⟩

theorem depth_opened (s : Scope) (parent : FrameId) : (s.opened parent).depth = s.depth + 1 := by
  simp [opened, child, depth]

theorem top_lt_depth_opened (s : Scope) (parent : FrameId) :
    s.top.index < (s.opened parent).depth := by
  rw [depth_opened]
  exact Nat.lt_succ_self _

theorem links_opened (s : Scope) (parent : FrameId) :
    (s.opened parent).links = s.links ++ [some parent] := by
  simp [opened, child, links]

theorem frame?_opened (s : Scope) (parent : FrameId) {place : FrameId} (h : place.index < s.depth) :
    (s.opened parent).frame? place = s.frame? place := by
  unfold opened child frame?
  exact List.getElem?_append_left h

theorem parent?_opened (s : Scope) (parent : FrameId) {place : FrameId} (h : place.index < s.depth) :
    (s.opened parent).parent? place = s.parent? place := by
  unfold parent?
  rw [frame?_opened s parent h]

theorem parent?_opened_top (s : Scope) (parent : FrameId) :
    (s.opened parent).parent? s.top = some parent := by
  simp [parent?, frame?, opened, child, top, depth]

theorem lt_depth_of_parent? {s : Scope} {place parent : FrameId} (h : s.parent? place = some parent) :
    place.index < s.depth := by
  unfold parent? frame? at h
  by_contra hge
  rw [List.getElem?_eq_none (by simpa [depth] using hge)] at h
  cases h

/-- A frame opened inside a live one keeps the stack layered. -/
theorem Layered.opened {s : Scope} (hs : s.Layered) {parent : FrameId} (hlive : parent.index < s.depth) :
    (s.opened parent).Layered := by
  intro place older h
  have hlt := lt_depth_of_parent? h
  rw [depth_opened] at hlt
  by_cases hold : place.index < s.depth
  · rw [parent?_opened s parent hold] at h
    exact hs place older h
  -- The only other frame is the fresh one, and its parent exists already.
  · obtain rfl : place = s.top := by
      obtain ⟨index⟩ := place
      simp only [top, FrameId.mk.injEq] at *
      omega
    rw [parent?_opened_top] at h
    cases h
    exact hlive

/-- A fresh frame adds nothing to the walks from older frames. -/
theorem Encloses.of_opened {s : Scope} (hs : s.Layered) {outer place parent : FrameId}
    (h : (s.opened parent).Encloses outer place) (hlive : place.index < s.depth) :
    s.Encloses outer place := by
  -- By induction on the walk. The parent of a live frame is older still, so the walk never meets
  -- the fresh frame.
  induction h with
  | self => exact .self
  | step hparent _ ih =>
    rw [parent?_opened s parent hlive] at hparent
    have hlt := hs _ _ hparent
    exact .step hparent (ih (by omega))

theorem frame?_release (s : Scope) (place other : FrameId) (h : place.index ≠ 0) :
    (s.release place).frame? other = if other.index < place.index then s.frame? other else none := by
  simp only [release, h, if_false, frame?, List.getElem?_take]

theorem links_release (s : Scope) (place : FrameId) (h : place.index ≠ 0) :
    (s.release place).links = s.links.take place.index := by
  simp only [release, h, if_false, links, List.map_take]

/-- **Leaving a block**: what ran in a fresh frame inside `place` leaves the frames around it as
something that ran in `place` and bound no name there. -/
theorem Keeps.release {s s' : Scope} {place : FrameId} {names : List String} (hs : s.Layered)
    (hlive : place.index < s.depth) (h : Keeps (s.opened place) s' s.top names) :
    Keeps s (s'.release s.top) place [] := by
  have hpos : s.top.index ≠ 0 := by
    simp only [top]
    omega
  -- The release cuts the stack at the fresh frame: older frames stay, all others are gone.
  have hframe : ∀ other : FrameId, other.index < s.depth →
      (s'.release s.top).frame? other = s'.frame? other := by
    intro other hlt
    rw [frame?_release s' s.top other hpos, if_pos (by simpa [top] using hlt)]
  have hgone : ∀ other : FrameId, ¬ other.index < s.depth → (s'.release s.top).frame? other = none := by
    intro other hge
    rw [frame?_release s' s.top other hpos, if_neg (by simpa [top] using hge)]
  have hnone : ∀ other : FrameId, ¬ other.index < s.depth → s.frame? other = none := by
    intro other hge
    exact List.getElem?_eq_none (by simpa [depth] using hge)
  refine ⟨?_, ?_, ?_, ?_⟩
  · rw [links_release s' s.top hpos, h.links_eq, links_opened]
    exact List.take_left' (by simp [links, top, depth])
  · intro other hout
    by_cases hlt : other.index < s.depth
    -- The walk from the fresh frame goes on at `place`.
    · have hout' : ¬ (s.opened place).Encloses other s.top := by
        intro hwalk
        cases hwalk with
        | self => simp [top] at hlt
        | step hparent hwalk =>
          rw [parent?_opened_top] at hparent
          cases hparent
          exact hout (hwalk.of_opened hs hlive)
      rw [hframe other hlt, h.frame_eq other hout', frame?_opened s place hlt]
    · rw [hgone other hlt, hnone other hlt]
  -- A name bound before was bound in a frame that stays.
  · rintro other name ⟨frame, hsome, hname⟩
    have hlt : other.index < s.depth := by
      by_contra hge
      rw [hnone other hge] at hsome
      cases hsome
    obtain ⟨frame', hsome', hname'⟩ :=
      h.binds_of other name ⟨frame, (frame?_opened s place hlt).trans hsome, hname⟩
    exact ⟨frame', (hframe other hlt).trans hsome', hname'⟩
  -- A name bound afterwards was bound in a frame that stays; the frame that may have learned
  -- names is gone.
  · rintro other name ⟨frame, hsome, hname⟩
    have hlt : other.index < s.depth := by
      by_contra hge
      rw [hgone other hge] at hsome
      cases hsome
    rcases h.binds_only other name ⟨frame, (hframe other hlt).symm.trans hsome, hname⟩ with
      ⟨frame', hsome', hname'⟩ | ⟨rfl, -⟩
    · exact Or.inl ⟨frame', (frame?_opened s place hlt).symm.trans hsome', hname'⟩
    · simp [top] at hlt

end Scope

end ServiceEngine
