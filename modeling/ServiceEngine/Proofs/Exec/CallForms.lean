import Mathlib
import ServiceEngine.Proofs.Exec.Agreement
import ServiceEngine.Proofs.Service.Influence

/-!
# The two forms of a store call

A store operation can be called as `db.Entity.op(..)` or as `db.op("Entity", ..)`. `Expr.unbind` writes
every call of the first form in the second one, at any depth, and `Stmt.unbindAll` does so in a body. The
two bodies cannot be told apart by running them, as long as `db` means the store wherever it is read.

1. A body leaves the variables alone that it does not bind (`Stmt.run_spares`), so `db` keeps its meaning
   in every frame (`Scope.Provides`).
2. Where `db` means the store, both forms of a call evaluate alike (`Expr.eval_unbind`).
3. So do statements and blocks, with their failures and the places of these (`Stmt.run_unbind`).
-/

namespace ServiceEngine

/-! ## The transformation -/

namespace Expr

/-- The entity and the operation of a callee of the form `db.Entity.op`. An entity that has the name of an
operation cannot be reached in this way. -/
def entityCall? : Expr → Option (String × Operation)
  | .member (.member (.identifier name) entity) property =>
    if name = "db" ∧ Operation.ofName? entity = none then
      (Operation.ofName? property).map (fun operation => (entity, operation))
    else none
  | _ => none

def text (s : String) : Expr := .literal ⟨.string s, trivial⟩

mutual

/-- The expression with every call `db.Entity.op(..)` written as `db.op("Entity", ..)`. -/
def unbind : Expr → Expr
  | .literal value => .literal value
  | .identifier name => .identifier name
  | .binary operator left right => .binary operator left.unbind right.unbind
  | .unary operator operand => .unary operator operand.unbind
  | .member target property => .member target.unbind property
  | .call callee arguments =>
    match callee.entityCall? with
    | some (entity, operation) =>
      .call (.member (.identifier "db") operation.name) (text entity :: unbindAll arguments)
    | none => .call callee.unbind (unbindAll arguments)
  | .object properties => .object (unbindFields properties)
  | .array elements => .array (unbindAll elements)

def unbindAll : List Expr → List Expr
  | [] => []
  | e :: rest => e.unbind :: unbindAll rest

def unbindFields : List (String × Expr) → List (String × Expr)
  | [] => []
  | (name, e) :: rest => (name, e.unbind) :: unbindFields rest

end

end Expr

namespace Stmt

mutual

/-- The statement with the calls in its expressions in the other form. -/
def unbind : Stmt → Stmt
  | .letBind name value => .letBind name value.unbind
  | .assign name value => .assign name value.unbind
  | .ret value => .ret (value.map Expr.unbind)
  | .branch condition thenBody none => .branch condition.unbind (unbindAll thenBody) none
  | .branch condition thenBody (some elseBody) =>
    .branch condition.unbind (unbindAll thenBody) (some (unbindAll elseBody))
  | .forEach item collection body => .forEach item collection.unbind (unbindAll body)
  | .expression e => .expression e.unbind

def unbindAll : List Stmt → List Stmt
  | [] => []
  | s :: rest => s.unbind :: unbindAll rest

end

mutual

/-- The names that a statement binds or assigns, in its frame or inside. -/
def binders : Stmt → List String
  | .letBind name _ => [name]
  | .assign name _ => [name]
  | .ret _ => []
  | .branch _ thenBody none => bindersAll thenBody
  | .branch _ thenBody (some elseBody) => bindersAll thenBody ++ bindersAll elseBody
  | .forEach item _ body => item :: bindersAll body
  | .expression _ => []

def bindersAll : List Stmt → List String
  | [] => []
  | s :: rest => s.binders ++ bindersAll rest

end

theorem unbind_branch (condition : Expr) (thenBody : List Stmt) (elseBody : Option (List Stmt)) :
    (Stmt.branch condition thenBody elseBody).unbind =
      .branch condition.unbind (unbindAll thenBody) (elseBody.map unbindAll) := by
  cases elseBody <;> rw [unbind] <;> rfl

theorem bindersAll_subset_of_mem_blocks {s : Stmt} {body : List Stmt} (h : body ∈ s.blocks) :
    bindersAll body ⊆ s.binders := by
  rcases exists_of_mem_blocks h with ⟨condition, elseBody, rfl⟩ | ⟨condition, thenBody, rfl⟩ | ⟨item, e, rfl⟩
  · cases elseBody <;> simp [binders]
  · simp [binders]
  · simp [binders]

/-- Labels hold names, not calls, so they stay the same. -/
theorem label_unbind (s : Stmt) : s.unbind.label = s.label := by
  cases s with
  | branch condition thenBody elseBody =>
    rw [unbind_branch]
    rfl
  | _ => rfl

/-- The expression of the statement is the only place where its own calls can stand. -/
theorem ownExpr?_unbind (s : Stmt) : s.unbind.ownExpr? = s.ownExpr?.map Expr.unbind := by
  cases s with
  | branch condition thenBody elseBody =>
    rw [unbind_branch]
    rfl
  | _ => rfl

end Stmt

/-- The act with the calls in its block in the other form. -/
def Act.unbind : Act → Act
  | .block body => .block (Stmt.unbindAll body)
  | .loop item items body => .loop item items (Stmt.unbindAll body)
  | act => act

/-- A statement acts alike in both forms: its blocks are written in the other form, and
nothing else. -/
theorem Stmt.act_unbind (s : Stmt) (v : Value) : s.unbind.act v = (s.act v).unbind := by
  cases s with
  | branch condition thenBody elseBody =>
    rw [unbind_branch, act, act]
    split
    · rfl
    · cases elseBody <;> rfl
  | forEach item collection body => cases v <;> rfl
  | _ => rfl

/-! ## Variables that a body does not bind -/

namespace Scope

variable {names : List String}

namespace AgreeOn

theorem refl (s : Scope) : AgreeOn names s s := ⟨rfl, fun _ _ _ => rfl⟩

theorem trans {s₁ s₂ s₃ : Scope} (h : AgreeOn names s₁ s₂) (h' : AgreeOn names s₂ s₃) :
    AgreeOn names s₁ s₃ :=
  ⟨h.links_eq.trans h'.links_eq,
    fun place name hname => (h.var?_eq place name hname).trans (h'.var?_eq place name hname)⟩

end AgreeOn

theorem agreeOn_put (s : Scope) (place : FrameId) {name : String} (value : Value) (hname : name ∉ names) :
    AgreeOn names s (s.put place name value) := by
  refine ⟨(links_put s place name value).symm, ?_⟩
  intro other bound hbound
  have hne : name ≠ bound := fun heq => hname (heq ▸ hbound)
  rw [var?_put, if_neg (fun h => hne h.2)]

theorem agreeOn_assign? {s s' : Scope} {place : FrameId} {name : String} {value : Value}
    (hname : name ∉ names) (h : s.assign? place name value = some s') : AgreeOn names s s' := by
  unfold assign? at h
  obtain ⟨owner, -, rfl⟩ := Option.map_eq_some_iff.mp h
  exact s.agreeOn_put owner value hname

/-- Releasing the frame that was opened last gives back the stack. -/
theorem release_opened {s : Scope} (hdepth : 0 < s.depth) (place : FrameId) :
    (s.opened place).release s.top = s := by
  have hpos : s.top.index ≠ 0 := by
    simp only [top]
    omega
  unfold release
  rw [if_neg hpos]
  simp [opened, child, top, depth]

end Scope

namespace Stmt

open Scope (AgreeOn)

variable {names : List String}

/-- A block that binds none of the names leaves their variables alone. -/
def BlockSpares (names : List String) (body : List Stmt) : Prop :=
  (∀ name ∈ bindersAll body, name ∉ names) → ∀ (place : FrameId) (index : Nat) (m : Machine),
    0 < m.scope.depth → AgreeOn names m.scope (Stmt.runFrom place index body m).2.scope

/-- A block leaves names alone in the frames around it if it does so in its own. -/
theorem agreeOn_inChild {m : Machine} (hdepth : 0 < m.scope.depth) (place : FrameId)
    {step : FrameId → Machine → Except Failure Flow × Machine}
    (hstep : AgreeOn names (m.scope.opened place) (step m.scope.top (m.opened place)).2.scope) :
    AgreeOn names m.scope (m.inChild place step).2.scope := by
  have hclosed := hstep.release m.scope.top
  rwa [Scope.release_opened hdepth] at hclosed

/-- A loop leaves the names alone if each of its passes does. -/
theorem agreeOn_forItems {step : Value → Machine → Except Failure Flow × Machine}
    (hstep : ∀ v m, 0 < m.scope.depth → AgreeOn names m.scope (step v m).2.scope) (items : List Value)
    {m : Machine} (hdepth : 0 < m.scope.depth) :
    AgreeOn names m.scope (Machine.forItems step items m).2.scope := by
  refine Machine.forItems_invariant (I := fun n => AgreeOn names m.scope n.scope) ?_ (.refl _)
  intro v _ n hagree
  -- The passes so far have given back the frames they found, so the next one starts from as many.
  have hdepth' : 0 < n.scope.depth := by rwa [← Scope.depth_eq_of_links hagree.links_eq]
  exact hagree.trans (hstep v n hdepth')

/-- A pass of a loop binds the item in a fresh frame before the body runs. -/
theorem BlockSpares.pass {body : List Stmt} (hbody : BlockSpares names body) {item : String}
    (hnames : ∀ name ∈ item :: bindersAll body, name ∉ names) (place : FrameId) (v : Value) {m : Machine}
    (hdepth : 0 < m.scope.depth) : AgreeOn names m.scope (Stmt.pass place item body v m).2.scope := by
  obtain ⟨hitem, hbodyNames⟩ := List.forall_mem_cons.mp hnames
  have hput := (m.scope.opened place).agreeOn_put m.scope.top v hitem
  -- The body of a pass starts on a stack that is not empty, which its frame sees to.
  have hbound : 0 < ((m.scope.opened place).put m.scope.top item v).depth := by
    rw [← Scope.depth_eq_of_links hput.links_eq, Scope.depth_opened]
    exact Nat.succ_pos _
  refine agreeOn_inChild hdepth place ?_
  exact hput.trans (hbody hbodyNames m.scope.top 0 ((m.opened place).bind m.scope.top item v) hbound)

/-- **Statements and blocks leave the variables alone that they do not bind**, however they end. -/
theorem run_spares :
    (∀ s : Stmt, (∀ name ∈ s.binders, name ∉ names) → ∀ (place : FrameId) (m : Machine),
      0 < m.scope.depth → AgreeOn names m.scope (Stmt.run place s m).2.scope) ∧
    ∀ body : List Stmt, BlockSpares names body := by
  -- The invariant along the run: the stack is not empty and agrees with the first one on the
  -- names.
  refine tree_induction ?statement ?nil ?cons
  case statement =>
    intro s hblocks hnames place m hdepth
    rcases s.own_cases place m with ⟨fault, world, hown⟩ | ⟨v, world, hown⟩
    · rw [run_of_fault hown]
      exact .refl _
    · rw [run_of_value hown]
      have hacts := s.acts v
      generalize s.act v = act at hacts ⊢
      cases hacts with
      | proceed flow => exact .refl _
      | raise item e body hother => exact .refl _
      | bind name e => exact m.scope.agreeOn_put place v (hnames name (by simp [binders]))
      | assign name e =>
        rw [Act.run]
        cases hassign : m.scope.assign? place name v with
        | none => exact .refl _
        | some scope => exact Scope.agreeOn_assign? (hnames name (by simp [binders])) hassign
      | block body hbody =>
        -- The block runs in a frame of its own, which is given back at the end.
        have hopened : 0 < (m.scope.opened place).depth := by
          rw [Scope.depth_opened]
          exact Nat.succ_pos _
        have hbodyNames : ∀ name ∈ bindersAll body, name ∉ names :=
          fun name hname => hnames name (bindersAll_subset_of_mem_blocks hbody hname)
        rw [Act.run, snd_nested]
        refine agreeOn_inChild (m := { m with world }) hdepth place ?_
        exact hblocks body hbody hbodyNames m.scope.top 0 (Machine.opened { m with world } place) hopened
      | loop item e items body hitems =>
        rw [Act.run, snd_nested]
        refine agreeOn_forItems (m := { m with world }) ?_ items hdepth
        intro v m hdepth
        exact (hblocks body List.mem_cons_self).pass (by simpa [binders] using hnames) place v hdepth
  case nil =>
    intro _ place index m _
    rw [Stmt.runFrom]
    exact .refl _
  case cons =>
    intro s rest hstatement hrest hnames place index m hdepth
    rw [bindersAll] at hnames
    obtain ⟨hfirst, hmore⟩ := List.forall_mem_append.mp hnames
    have hrun := hstatement hfirst place m hdepth
    rw [Stmt.runFrom]
    generalize Stmt.run place s m = result at hrun ⊢
    obtain ⟨trouble | (- | v), m'⟩ := result
    · exact hrun
    -- The rest of the block starts from a stack that is as deep.
    · have hdepth' : 0 < m'.scope.depth := by rwa [← Scope.depth_eq_of_links hrun.links_eq]
      exact hrun.trans (hrest hmore place (index + 1) m' hdepth')
    · exact hrun

end Stmt

/-! ## Lookups in a fresh frame -/

namespace Scope

/-- A fresh frame is on no walk from an older one, for every step of a walk goes to an older frame. -/
theorem seek_opened {s : Scope} (hs : s.Layered) (parent : FrameId) (name : String) {place : FrameId}
    (hlive : place.index < s.depth) : (s.opened parent).seek name place = s.seek name place := by
  -- By strong induction on the place, as every step of the walk goes to an older frame.
  induction hindex : place.index using Nat.strong_induction_on generalizing place with
  | _ index ih =>
    have hsame : (s.opened parent).visit name place = s.visit name place := by
      have hlink : (s.opened parent).links[place.index]? = s.links[place.index]? := by
        rw [links_opened]
        exact List.getElem?_append_left (by simpa [links, depth] using hlive)
      rw [visit_eq, visit_eq, var?_opened, hlink]
    rw [seek, seek, hsame]
    cases hvisit : s.visit name place with
    | stop owner => rfl
    | goOn older =>
      have hlt := hs place older (parent?_of_visit_goOn hvisit)
      exact ih older.index (by omega) (by omega) rfl

/-- The value of a name is not changed by a frame that is not on its walk. -/
theorem get?_opened {s : Scope} (hs : s.Layered) (parent : FrameId) (name : String) {place : FrameId}
    (hlive : place.index < s.depth) : (s.opened parent).get? place name = s.get? place name := by
  have howner : (s.opened parent).owner? place name = s.owner? place name := by
    rw [owner?, owner?, seek_opened hs parent name hlive]
  unfold get?
  rw [howner]
  congr 1
  funext owner
  exact s.var?_opened parent owner name

/-- **A fresh frame looks names up in its parent.** -/
theorem get?_opened_top {s : Scope} (hs : s.Layered) {parent : FrameId} (name : String)
    (hlive : parent.index < s.depth) : (s.opened parent).get? s.top name = s.get? parent name := by
  have hlink : (s.opened parent).links[s.top.index]? = some (some parent) := by
    rw [links_opened]
    simp [top, links, depth]
  -- The fresh frame binds nothing itself, so the walk goes on at its parent at once.
  have hnone : s.var? s.top name = none := by
    unfold var?
    rw [(s.frame?_eq_none_iff s.top).mpr le_rfl]
    rfl
  have howner : (s.opened parent).owner? s.top name = s.owner? parent name := by
    have hvisit : (s.opened parent).visit name s.top = .goOn parent := by
      rw [visit_eq, hlink, var?_opened, hnone]
      rfl
    rw [owner?, owner?, seek, hvisit]
    exact seek_opened hs parent name hlive
  unfold get?
  rw [howner]
  congr 1
  funext owner
  exact s.var?_opened parent owner name

/-! ## Where `db` means the store -/

/-- In every frame the name `db` means the store. -/
structure Provides (s : Scope) : Prop where
  layered : s.Layered
  get?_eq : ∀ place : FrameId, place.index < s.depth → s.get? place "db" = some .db

theorem Provides.of_agreeOn {s t : Scope} (h : s.Provides) (hagree : AgreeOn ["db"] s t) : t.Provides := by
  refine ⟨h.layered.of_links hagree.links_eq.symm, ?_⟩
  intro place hlive
  rw [← depth_eq_of_links hagree.links_eq] at hlive
  rw [← hagree.get?_eq List.mem_cons_self]
  exact h.get?_eq place hlive

/-- A fresh frame sees the `db` of its parent. -/
theorem Provides.opened {s : Scope} (h : s.Provides) {parent : FrameId} (hlive : parent.index < s.depth) :
    (s.opened parent).Provides := by
  refine ⟨h.layered.opened hlive, ?_⟩
  intro place hplace
  rw [depth_opened] at hplace
  by_cases hold : place.index < s.depth
  · rw [get?_opened h.layered parent "db" hold]
    exact h.get?_eq place hold
  -- The only new place is that of the fresh frame.
  · obtain rfl : place = s.top := by
      obtain ⟨index⟩ := place
      simp only [top, FrameId.mk.injEq] at *
      omega
    rw [get?_opened_top h.layered "db" hlive]
    exact h.get?_eq parent hlive

end Scope

/-! ## Expressions -/

namespace Expr

/-- A call is no name and no path of names in either form. -/
theorem describe_unbind : (e : Expr) → e.unbind.describe = e.describe
  | .member target property => by
    rw [unbind, describe, describe, describe_unbind target]
  | .call callee arguments => by
    rw [unbind]
    split <;> rfl
  | .literal _ => rfl
  | .identifier _ => rfl
  | .binary _ _ _ => rfl
  | .unary _ _ => rfl
  | .object _ => rfl
  | .array _ => rfl

/-- A callee of this form is a path of three names, and its last one names an operation. -/
theorem entityCall?_eq_some {callee : Expr} {entity : String} {operation : Operation}
    (h : callee.entityCall? = some (entity, operation)) :
    callee = .member (.member (.identifier "db") entity) operation.name ∧
      Operation.ofName? entity = none := by
  unfold entityCall? at h
  split at h
  · rename_i name found property
    split at h
    · rename_i hfound
      obtain ⟨rfl, hentity⟩ := hfound
      simp only [Option.map_eq_some_iff, Prod.mk.injEq] at h
      obtain ⟨found', hproperty, rfl, rfl⟩ := h
      exact ⟨by rw [Operation.name_of_ofName? hproperty], hentity⟩
    · cases h
  · cases h

variable {scope : Scope} {place : FrameId}

theorem run_unboundMethod (hdb : scope.get? place "db" = some .db) (operation : Operation) (w : World) :
    ((Expr.member (.identifier "db") operation.name).eval scope place).run w =
      (.ok (.func (.database none operation)), w) := by
  rw [run_member, run_identifier, hdb]
  simp [Heap.property, Operation.ofName?_name]

theorem run_boundMethod (hdb : scope.get? place "db" = some .db) {entity : String}
    (hentity : Operation.ofName? entity = none) (operation : Operation) (w : World) :
    ((Expr.member (.member (.identifier "db") entity) operation.name).eval scope place).run w =
      (.ok (.func (.database (some entity) operation)), w) := by
  rw [run_member, run_member, run_identifier, hdb]
  simp [Heap.property, hentity, Operation.ofName?_name]

/-- **Both forms of a call evaluate alike** where `db` means the store: to the same value or fault, with the
same effect on the world. -/
theorem eval_unbind (hdb : scope.get? place "db" = some .db) :
    (∀ e : Expr, ∀ w, (e.unbind.eval scope place).run w = (e.eval scope place).run w) ∧
    (∀ es : List Expr, ∀ w,
      (Expr.evalAll scope place (unbindAll es)).run w = (Expr.evalAll scope place es).run w) ∧
    ∀ properties : List (String × Expr), ∀ before w,
      (Expr.evalFields scope place before (unbindFields properties)).run w =
        (Expr.evalFields scope place before properties).run w := by
  -- Every case but the call follows its operands.
  apply operand_induction
  case literal =>
    intro value w
    rw [unbind]
  case identifier =>
    intro name w
    rw [unbind]
  case binary =>
    intro operator left right hleft hright w
    simp only [unbind, run_binary, hleft, hright]
  case unary =>
    intro operator operand hoperand w
    rw [unbind, run_unary, run_unary, hoperand]
  case member =>
    intro target property htarget w
    rw [unbind, run_member, run_member, htarget]
  case call =>
    intro callee arguments hcallee harguments w
    rw [unbind]
    -- A call of another form stays one, and an error text that describes its callee stays the same.
    cases hform : callee.entityCall? with
    | none => simp only [run_call, hcallee, harguments, describe_unbind]
    | some found =>
      obtain ⟨entity, operation⟩ := found
      obtain ⟨rfl, hentity⟩ := entityCall?_eq_some hform
      simp only
      rw [run_call, run_call, run_unboundMethod hdb, run_boundMethod hdb hentity]
      simp only [Action.andThen_ok, run_evalAll_cons, text, run_literal, harguments]
      -- The entity is the first argument in one form, and part of the callee in the other.
      rcases (Expr.evalAll scope place arguments).run w with ⟨fault | args, w'⟩
      · rfl
      · rfl
  case object =>
    intro properties hproperties w
    rw [unbind, run_object, run_object, hproperties]
  case array =>
    intro elements helements w
    rw [unbind, run_array, run_array, helements]
  case nil =>
    intro w
    rw [unbindAll]
  case cons =>
    intro e rest he hrest w
    simp only [unbindAll, run_evalAll_cons, he, hrest]
  case noFields =>
    intro before w
    rw [unbindFields]
  case field =>
    intro name e rest he hrest before w
    simp only [unbindFields, run_evalFields_cons, he, hrest]

end Expr

/-! ## Statements -/

namespace Machine

/-- A statement may run in the frame at a place, and `db` means the store there and in every other frame. -/
structure Ready (place : FrameId) (m : Machine) : Prop where
  provides : m.scope.Provides
  live : place.index < m.scope.depth

variable {place : FrameId} {m : Machine}

theorem Ready.depth_pos (h : Ready place m) : 0 < m.scope.depth := Nat.zero_lt_of_lt h.live

/-- A machine stays ready as long as `db` is left alone. -/
theorem Ready.of_agreeOn {m' : Machine} (h : Ready place m) (hagree : m.scope.AgreeOn ["db"] m'.scope) :
    Ready place m' := by
  refine ⟨h.provides.of_agreeOn hagree, ?_⟩
  rw [← Scope.depth_eq_of_links hagree.links_eq]
  exact h.live

theorem Ready.opened (h : Ready place m) : Ready m.scope.top (m.opened place) :=
  ⟨h.provides.opened h.live, m.scope.top_lt_depth_opened place⟩

theorem Ready.in_world (h : Ready place m) (world : World) : Ready place { m with world } :=
  ⟨h.provides, h.live⟩

/-- In a ready machine both forms of an expression evaluate alike. -/
theorem Ready.eval_unbind (h : Ready place m) (e : Expr) : m.eval place e.unbind = m.eval place e := by
  unfold Machine.eval
  rw [(Expr.eval_unbind (h.provides.get?_eq place h.live)).1 e m.world]

theorem Ready.own_unbind (h : Ready place m) (s : Stmt) : s.unbind.own place m = s.own place m := by
  unfold Stmt.own
  rw [Stmt.ownExpr?_unbind]
  cases s.ownExpr? with
  | none => rfl
  | some e => exact h.eval_unbind e

/-- What runs in a fresh frame may be replaced by what does the same there. -/
theorem inChild_congr {α : Type} {step step' : FrameId → Machine → α × Machine}
    (h : step m.scope.top (m.opened place) = step' m.scope.top (m.opened place)) :
    m.inChild place step = m.inChild place step' := by
  have hstep : m.inChild place step = ((step m.scope.top (m.opened place)).1,
      (step m.scope.top (m.opened place)).2.closed m.scope.top) := rfl
  rw [hstep, h]
  rfl

/-- Two walks over items do the same if every pass does, from any machine that a pass can meet. -/
theorem forItems_congr {I : Machine → Prop} {step step' : Value → Machine → Except Failure Flow × Machine}
    (hstep : ∀ v m, I m → step v m = step' v m) (hkeep : ∀ v m, I m → I (step' v m).2)
    (items : List Value) (hm : I m) : forItems step items m = forItems step' items m := by
  induction items generalizing m with
  | nil => rfl
  | cons item rest ih =>
    have hnext := hkeep item m hm
    rw [forItems, forItems, hstep item m hm]
    generalize step' item m = result at hnext ⊢
    obtain ⟨failure | (- | v), m'⟩ := result
    · rfl
    · exact ih hnext
    · rfl

end Machine

namespace Stmt

open Machine (Ready)

/-- A block does the same with its calls in the other form. -/
def BlockUnbinds (body : List Stmt) : Prop :=
  (∀ name ∈ bindersAll body, name ∉ ["db"]) → ∀ (place : FrameId) (index : Nat) (m : Machine), Ready place m →
    Stmt.runFrom place index (unbindAll body) m = Stmt.runFrom place index body m

/-- **Statements and blocks do the same with their calls in the other form**: they end alike, with the same
failure if they fail, and leave the same machine. -/
theorem run_unbind :
    (∀ s : Stmt, (∀ name ∈ s.binders, name ∉ ["db"]) → ∀ (place : FrameId) (m : Machine), Ready place m →
      Stmt.run place s.unbind m = Stmt.run place s m) ∧
    ∀ body : List Stmt, BlockUnbinds body := by
  -- Only acts that run a block differ in the two forms, and the block is written in the other
  -- form.
  refine tree_induction ?statement ?nil ?cons
  case statement =>
    intro s hblocks hnames place m hready
    rcases s.own_cases place m with ⟨fault, world, hown⟩ | ⟨v, world, hown⟩
    · rw [run_of_fault hown, run_of_fault ((hready.own_unbind s).trans hown)]
    · rw [run_of_value hown, run_of_value ((hready.own_unbind s).trans hown), act_unbind]
      have hacts := s.acts v
      generalize s.act v = act at hacts ⊢
      have hafter : Ready place { m with world } := hready.in_world world
      cases hacts with
      | block body hbody =>
        have hbodyNames : ∀ name ∈ bindersAll body, name ∉ ["db"] :=
          fun name hname => hnames name (bindersAll_subset_of_mem_blocks hbody hname)
        simp only [Act.unbind, Act.run]
        congr 1
        exact Machine.inChild_congr (hblocks body hbody hbodyNames _ 0 _ hafter.opened)
      | loop item e items body hitems =>
        rw [binders] at hnames
        obtain ⟨hitem, hbodyNames⟩ := List.forall_mem_cons.mp hnames
        simp only [Act.unbind, Act.run]
        congr 1
        -- Being ready is the invariant of the loop.
        refine Machine.forItems_congr ?_ ?_ items hafter
        · intro v m hready
          -- The item is another name than `db`, so the body starts in a frame where `db` means the store.
          refine Machine.inChild_congr ?_
          have hput := (m.scope.opened place).agreeOn_put m.scope.top v hitem
          exact hblocks body List.mem_cons_self hbodyNames m.scope.top 0 _ (hready.opened.of_agreeOn hput)
        · intro v m hready
          exact hready.of_agreeOn ((run_spares.2 body).pass hnames place v hready.depth_pos)
      | _ => rfl
  case nil =>
    intro _ place index m _
    rw [unbindAll]
  case cons =>
    intro s rest hstatement hrest hnames place index m hready
    rw [bindersAll] at hnames
    obtain ⟨hfirst, hmore⟩ := List.forall_mem_append.mp hnames
    have hspares := run_spares.1 s hfirst place m hready.depth_pos
    rw [unbindAll, Stmt.runFrom, Stmt.runFrom, hstatement hfirst place m hready]
    generalize Stmt.run place s m = result at hspares ⊢
    obtain ⟨trouble | (- | v), m'⟩ := result
    -- The label of the statement is the same, and so is its place.
    · cases trouble with
      | here fault => simp only [Trouble.locate, label_unbind]
      | inside failure => rfl
    -- The statement has not touched `db`, so the machine is still ready for the rest.
    · exact hrest hmore place (index + 1) m' (hready.of_agreeOn hspares)
    · rfl

end Stmt

/-! ## Bodies -/

/-- A body starts in a ready machine. -/
theorem Machine.ready_start {vars : Fields Value} {world : World}
    (hdb : (Machine.start vars world).get? "db" = some .db) : Ready Scope.root (Machine.start vars world) := by
  refine ⟨⟨?_, ?_⟩, Nat.zero_lt_one⟩
  -- The root is the only frame, and it has no parent.
  · rintro ⟨_ | index⟩ parent hparent
    · cases hparent
    · cases hparent
  · intro place hlive
    obtain rfl : place = Scope.root := by
      obtain ⟨index⟩ := place
      exact congrArg FrameId.mk (Nat.lt_one_iff.mp hlive)
    exact hdb

/-- **The two forms of a store call are interchangeable.** Take any body that never binds or assigns `db`, and
any bindings that leave `db` to mean the store. Written with `db.op("Entity", ..)` for every
`db.Entity.op(..)`, at every depth, the body gives the same value or the same failure, with its path, label
and message, and leaves the same machine: the same store with its events, the same log and the same names. -/
theorem call_forms_interchangeable (body : List Stmt) (vars : Fields Value) (world : World)
    (hbody : "db" ∉ Stmt.bindersAll body) (hdb : (Machine.start vars world).get? "db" = some .db) :
    (Machine.start vars world).runBody (Stmt.unbindAll body) = (Machine.start vars world).runBody body := by
  have hnames : ∀ name ∈ Stmt.bindersAll body, name ∉ ["db"] := by
    intro name hname hmem
    rw [List.mem_singleton.mp hmem] at hname
    exact hbody hname
  unfold Machine.runBody Machine.runBlock
  rw [Stmt.run_unbind.2 body hnames Scope.root 0 _ (Machine.ready_start hdb)]

/-- A loop that makes a record for every item, inside the argument of the call that makes another of the same
name, and that fails on the second item, which is no object. -/
theorem call_forms_interchangeable_of_failure :
    let bound (arguments : List Expr) : Expr :=
      .call (.member (.member (.identifier "db") "User") "create") arguments
    let unbound (arguments : List Expr) : Expr :=
      .call (.member (.identifier "db") "create") (.text "User" :: arguments)
    let items : Expr := .array [.object [("name", .text "Ada")], .text "Ada"]
    let body (create : List Expr → Expr) : List Stmt :=
      [.forEach "item" items
        [.expression (create [.object [("name", .member (create [.identifier "item"]) "name")]])]]
    let start := Machine.start [] ⟨.empty, #[], 0⟩
    Stmt.unbindAll (body bound) = body unbound ∧
      start.runBody (body unbound) = start.runBody (body bound) ∧
      (start.runBody (body bound)).1 =
        .error ⟨[0, 0], "expression", .badArgument "db.User.create" (.notObject .string)⟩ := by
  intro bound unbound items body start
  refine ⟨rfl, ?_, by cbv⟩
  exact call_forms_interchangeable (body bound) [] ⟨.empty, #[], 0⟩ (by decide) (by cbv)

end ServiceEngine
