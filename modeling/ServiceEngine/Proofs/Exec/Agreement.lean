import Mathlib
import ServiceEngine.Proofs.Exec.Evaluation
import ServiceEngine.Proofs.Exec.Trace

/-!
# Runs that agree on names

`Expr.names` and `Stmt.names` list the names that a tree reads: its identifiers and the targets of its
assignments. Two stacks of frames agree on some names when they have the same links and every frame
gives these names the same values, or none.

Layer by layer, what reads only these names cannot tell the two stacks apart:

1. lookups and assignments (`Scope.AgreeOn`);
2. expressions (`Expr.eval_agree`);
3. statements and blocks, however they end (`Stmt.run_agree`).
-/

namespace ServiceEngine

/-! ## The names of a tree -/

mutual

/-- The identifiers of an expression. -/
def Expr.names : Expr → List String
  | .literal _ => []
  | .identifier name => [name]
  | .binary _ left right => left.names ++ right.names
  | .unary _ operand => operand.names
  | .member target _ => target.names
  | .call callee arguments => callee.names ++ Expr.namesAll arguments
  | .object properties => Expr.namesFields properties
  | .array elements => Expr.namesAll elements

def Expr.namesAll : List Expr → List String
  | [] => []
  | e :: rest => e.names ++ Expr.namesAll rest

def Expr.namesFields : List (String × Expr) → List String
  | [] => []
  | (_, e) :: rest => e.names ++ Expr.namesFields rest

end

mutual

/-- The identifiers of a statement and the targets of its assignments. What `let` binds and the item of
a loop do not count by themselves. -/
def Stmt.names : Stmt → List String
  | .letBind _ value => value.names
  | .assign name value => name :: value.names
  | .ret none => []
  | .ret (some value) => value.names
  | .branch condition thenBody none => condition.names ++ Stmt.namesAll thenBody
  | .branch condition thenBody (some elseBody) =>
    condition.names ++ Stmt.namesAll thenBody ++ Stmt.namesAll elseBody
  | .forEach _ collection body => collection.names ++ Stmt.namesAll body
  | .expression e => e.names

def Stmt.namesAll : List Stmt → List String
  | [] => []
  | s :: rest => s.names ++ Stmt.namesAll rest

end

/-! ## Stacks that agree -/

namespace Scope

/-- The value that the frame at a place itself gives a name. -/
def var? (s : Scope) (place : FrameId) (name : String) : Option Value :=
  (s.frame? place).bind (fun frame => frame.vars.get? name)

/-- Two stacks have the same links, and their frames agree on `names`. -/
structure AgreeOn (names : List String) (s t : Scope) : Prop where
  links_eq : s.links = t.links
  var?_eq : ∀ place, ∀ name ∈ names, s.var? place name = t.var? place name

theorem frame?_eq_none_iff (s : Scope) (place : FrameId) :
    s.frame? place = none ↔ s.depth ≤ place.index := by
  simp [frame?, depth]

theorem var?_put (s : Scope) (place other : FrameId) (name bound : String) (value : Value) :
    (s.put place name value).var? other bound =
      if place = other ∧ name = bound then s.links[place.index]?.map (fun _ => value)
      else s.var? other bound := by
  unfold var?
  rw [frame?_put]
  -- The write is seen in its own frame and under its own name only, and only if the frame exists.
  by_cases hplace : place = other
  · subst hplace
    have hlink : s.links[place.index]? = (s.frame? place).map Frame.parent := List.getElem?_map ..
    rw [hlink]
    cases s.frame? place with
    | none => simp
    | some frame => by_cases hname : name = bound <;> simp [Fields.get?_insert, hname]
  · simp [hplace]

/-- A fresh frame binds nothing, so opening it changes no variable. -/
theorem var?_opened (s : Scope) (parent place : FrameId) (name : String) :
    (s.opened parent).var? place name = s.var? place name := by
  by_cases hlt : place.index < s.depth
  · unfold var?
    rw [frame?_opened s parent hlt]
  · have hnone : s.frame? place = none := (s.frame?_eq_none_iff place).mpr (by omega)
    unfold var?
    rw [hnone]
    -- Past the old frames there is the fresh one, which is empty, and then nothing.
    by_cases htop : place.index = s.depth
    · have hfresh : (s.opened parent).frame? place = some ⟨[], some parent⟩ := by
        unfold opened child frame?
        rw [htop, depth]
        exact List.getElem?_concat_length
      simp [hfresh]
    · have hnone' : (s.opened parent).frame? place = none := by
        rw [frame?_eq_none_iff, depth_opened]
        omega
      simp [hnone']

/-- The walk to the owner of a name looks at links and at variables of that name only. -/
theorem visit_eq (s : Scope) (name : String) (place : FrameId) :
    s.visit name place =
      match s.links[place.index]? with
      | none => .stop none
      | some parent =>
        if (s.var? place name).isSome then .stop (some place) else parent.elim (.stop none) .goOn := by
  have hlink : s.links[place.index]? = (s.frame? place).map Frame.parent := List.getElem?_map ..
  rw [hlink, visit, var?]
  cases s.frame? place with
  | none => rfl
  | some frame =>
    simp only [Option.map_some, Option.bind_some, Fields.contains]
    cases frame.parent <;> rfl

/-- Walks that do the same at every place find the same, if they find anything. -/
theorem seek_le {s t : Scope} {name : String} (h : ∀ place, s.visit name place = t.visit name place)
    {place owner : FrameId} (hfound : s.seek name place = some owner) : t.seek name place = some owner := by
  refine seek.partial_correctness s name (fun place owner => t.seek name place = some owner)
    ?_ place owner hfound
  -- The induction is on the steps of the first walk; the second follows it, since both do the
  -- same at every place.
  intro walk ih place owner hfound
  rw [seek, ← h place]
  cases hvisit : s.visit name place with
  | stop found => rwa [hvisit] at hfound
  | goOn parent =>
    rw [hvisit] at hfound
    exact ih parent owner hfound

theorem seek_congr {s t : Scope} {name : String} (h : ∀ place, s.visit name place = t.visit name place)
    (place : FrameId) : s.seek name place = t.seek name place := by
  refine Option.ext (fun owner => ?_)
  exact ⟨seek_le h, seek_le (fun place => (h place).symm)⟩

namespace AgreeOn

variable {names : List String} {s t : Scope}

theorem owner?_eq (h : AgreeOn names s t) {name : String} (hname : name ∈ names) (place : FrameId) :
    s.owner? place name = t.owner? place name := by
  rw [owner?, owner?]
  refine seek_congr (fun place => ?_) place
  rw [visit_eq, visit_eq, h.links_eq, h.var?_eq place name hname]

/-- A name that both stacks agree on has the same value in both. -/
theorem get?_eq (h : AgreeOn names s t) {name : String} (hname : name ∈ names) (place : FrameId) :
    s.get? place name = t.get? place name := by
  unfold Scope.get?
  rw [h.owner?_eq hname place]
  congr 1
  funext owner
  exact h.var?_eq owner name hname

theorem put (h : AgreeOn names s t) (place : FrameId) (name : String) (value : Value) :
    AgreeOn names (s.put place name value) (t.put place name value) := by
  refine ⟨?_, ?_⟩
  · rw [links_put, links_put, h.links_eq]
  · intro other bound hbound
    rw [var?_put, var?_put, h.links_eq, h.var?_eq other bound hbound]

theorem opened (h : AgreeOn names s t) (parent : FrameId) :
    AgreeOn names (s.opened parent) (t.opened parent) := by
  refine ⟨?_, ?_⟩
  · rw [links_opened, links_opened, h.links_eq]
  · intro place name hname
    rw [var?_opened, var?_opened]
    exact h.var?_eq place name hname

theorem release (h : AgreeOn names s t) (place : FrameId) :
    AgreeOn names (s.release place) (t.release place) := by
  by_cases hroot : place.index = 0
  · simpa [Scope.release, hroot] using h
  · refine ⟨?_, ?_⟩
    · rw [links_release s place hroot, links_release t place hroot, h.links_eq]
    · intro other name hname
      have hother := h.var?_eq other name hname
      unfold var? at hother ⊢
      rw [frame?_release s place other hroot, frame?_release t place other hroot]
      by_cases hlt : other.index < place.index
      · simpa [hlt] using hother
      · simp [hlt]

/-- Both assignments find the name in the same frame, or neither finds it. -/
theorem assign? (h : AgreeOn names s t) {name : String} (hname : name ∈ names) (place : FrameId)
    (value : Value) :
    (s.assign? place name value = none ∧ t.assign? place name value = none) ∨
      ∃ s' t', s.assign? place name value = some s' ∧ t.assign? place name value = some t' ∧
        AgreeOn names s' t' := by
  unfold Scope.assign?
  rw [h.owner?_eq hname place]
  cases t.owner? place name with
  | none => exact Or.inl ⟨rfl, rfl⟩
  | some owner => exact Or.inr ⟨_, _, rfl, rfl, h.put owner name value⟩

end AgreeOn

end Scope

/-! ## Expressions -/

/-- **An expression cannot tell apart stacks that agree on its names**: value, fault and effect are the
same. -/
theorem Expr.eval_agree {names : List String} {s t : Scope} (h : s.AgreeOn names t) (place : FrameId) :
    (∀ e : Expr, e.names ⊆ names → ∀ w, (e.eval s place).run w = (e.eval t place).run w) ∧
    (∀ es : List Expr, Expr.namesAll es ⊆ names → ∀ w,
      (Expr.evalAll s place es).run w = (Expr.evalAll t place es).run w) ∧
    ∀ properties : List (String × Expr), Expr.namesFields properties ⊆ names → ∀ before w,
      (Expr.evalFields s place before properties).run w =
        (Expr.evalFields t place before properties).run w := by
  -- Only identifiers look at the stack; every other expression follows its operands.
  apply operand_induction
  case literal =>
    intro value _ w
    rw [run_literal, run_literal]
  case identifier =>
    intro name hnames w
    have hname : name ∈ names := hnames (by simp [Expr.names])
    rw [run_identifier, run_identifier, h.get?_eq hname place]
  case binary =>
    intro operator left right hleft hright hnames w
    obtain ⟨hl, hr⟩ := List.append_subset.mp (by simpa only [Expr.names] using hnames)
    simp only [run_binary, hleft hl, hright hr]
  case unary =>
    intro operator operand hoperand hnames w
    rw [run_unary, run_unary, hoperand (by simpa only [Expr.names] using hnames)]
  case member =>
    intro target property htarget hnames w
    rw [run_member, run_member, htarget (by simpa only [Expr.names] using hnames)]
  case call =>
    intro callee arguments hcallee harguments hnames w
    obtain ⟨hc, ha⟩ := List.append_subset.mp (by simpa only [Expr.names] using hnames)
    simp only [run_call, hcallee hc, harguments ha]
  case object =>
    intro properties hproperties hnames w
    rw [run_object, run_object, hproperties (by simpa only [Expr.names] using hnames)]
  case array =>
    intro elements helements hnames w
    rw [run_array, run_array, helements (by simpa only [Expr.names] using hnames)]
  case nil =>
    intro _ w
    rw [run_evalAll_nil, run_evalAll_nil]
  case cons =>
    intro e rest he hrest hnames w
    obtain ⟨hfirst, hmore⟩ := List.append_subset.mp (by simpa only [Expr.namesAll] using hnames)
    simp only [run_evalAll_cons, he hfirst, hrest hmore]
  case noFields =>
    intro _ before w
    rw [run_evalFields_nil, run_evalFields_nil]
  case field =>
    intro name e rest he hrest hnames before w
    obtain ⟨hfirst, hmore⟩ := List.append_subset.mp (by simpa only [Expr.namesFields] using hnames)
    simp only [run_evalFields_cons, he hfirst, hrest hmore]

/-! ## Statements -/

namespace Machine

/-- Two machines whose stacks agree on `names`, in the same world. -/
structure AgreeOn (names : List String) (m n : Machine) : Prop where
  scope : m.scope.AgreeOn names n.scope
  world_eq : m.world = n.world

/-- Two runs end in the same way, and leave machines that agree. -/
structure SameEnd {ε α : Type} (names : List String) (r q : Except ε α × Machine) : Prop where
  result_eq : r.1 = q.1
  machines : AgreeOn names r.2 q.2

variable {names : List String} {m n : Machine}

/-- Two runs with the same end, in the form that a proof takes apart. -/
theorem SameEnd.exists_end {ε α : Type} {r q : Except ε α × Machine} (h : SameEnd names r q) :
    ∃ result m' n', r = (result, m') ∧ q = (result, n') ∧ AgreeOn names m' n' :=
  ⟨r.1, r.2, q.2, rfl, Prod.ext h.result_eq.symm rfl, h.machines⟩

theorem AgreeOn.bind (h : AgreeOn names m n) (place : FrameId) (name : String) (value : Value) :
    AgreeOn names (m.bind place name value) (n.bind place name value) :=
  ⟨h.scope.put place name value, h.world_eq⟩

/-- Evaluation gives the same value or fault on both sides, and machines that agree. -/
theorem AgreeOn.eval (h : AgreeOn names m n) (place : FrameId) {e : Expr} (he : e.names ⊆ names) :
    ∃ result m' n', m.eval place e = (result, m') ∧ n.eval place e = (result, n') ∧
      AgreeOn names m' n' := by
  have hrun := (Expr.eval_agree h.scope place).1 e he m.world
  unfold Machine.eval
  rw [← h.world_eq, hrun]
  exact ⟨_, _, _, rfl, rfl, h.scope, rfl⟩

/-- What runs in a fresh frame on both sides, once the frames are released. -/
theorem AgreeOn.inChild {α : Type} (h : AgreeOn names m n) (place : FrameId)
    {step : FrameId → Machine → Except Failure α × Machine}
    (hstep : ∀ child m n, AgreeOn names m n → SameEnd names (step child m) (step child n)) :
    SameEnd names (m.inChild place step) (n.inChild place step) := by
  -- Both stacks are as deep, so the fresh frames have the same place.
  have htop : n.scope.top = m.scope.top := by
    unfold Scope.top
    rw [Scope.depth_eq_of_links h.scope.links_eq]
  have hrun := hstep m.scope.top (m.opened place) (n.opened place) ⟨h.scope.opened place, h.world_eq⟩
  have hn : n.inChild place step = ((step n.scope.top (n.opened place)).1,
      (step n.scope.top (n.opened place)).2.closed n.scope.top) := rfl
  rw [hn, htop]
  exact ⟨hrun.result_eq, hrun.machines.scope.release _, hrun.machines.world_eq⟩

/-- A loop ends in the same way on both sides if each of its passes does. -/
theorem AgreeOn.forItems {step : Value → Machine → Except Failure Flow × Machine}
    (hstep : ∀ v m n, AgreeOn names m n → SameEnd names (step v m) (step v n)) (items : List Value)
    (h : AgreeOn names m n) :
    SameEnd names (Machine.forItems step items m) (Machine.forItems step items n) := by
  induction items generalizing m n with
  | nil => exact ⟨rfl, h⟩
  | cons item rest ih =>
    obtain ⟨result, m', n', hm, hn, hagree⟩ := (hstep item m n h).exists_end
    rw [Machine.forItems, Machine.forItems, hm, hn]
    -- Both loops stop at the same item.
    rcases result with failure | (- | v)
    · exact ⟨rfl, hagree⟩
    · exact ih hagree
    · exact ⟨rfl, hagree⟩

theorem SameEnd.nested {r q : Except Failure Flow × Machine} (h : SameEnd names r q) :
    SameEnd names (Flow.nested r) (Flow.nested q) := by
  obtain ⟨result, m', n', rfl, rfl, hagree⟩ := h.exists_end
  cases result <;> exact ⟨rfl, hagree⟩

end Machine

namespace Stmt

open Machine (AgreeOn SameEnd)

variable {names : List String}

/-- A block whose names are among `names` ends in the same way on machines that agree on them. -/
def BlockAgrees (names : List String) (body : List Stmt) : Prop :=
  Stmt.namesAll body ⊆ names → ∀ (place : FrameId) (index : Nat) (m n : Machine), AgreeOn names m n →
    SameEnd names (Stmt.runFrom place index body m) (Stmt.runFrom place index body n)

theorem names_subset_of_ownExpr? {s : Stmt} {e : Expr} (h : s.ownExpr? = some e) : e.names ⊆ s.names := by
  cases s with
  | branch condition thenBody elseBody => cases elseBody <;> cases h <;> simp [Stmt.names]
  | _ =>
    cases h
    simp [Stmt.names]

theorem namesAll_subset_of_mem_blocks {s : Stmt} {body : List Stmt} (h : body ∈ s.blocks) :
    Stmt.namesAll body ⊆ s.names := by
  rcases exists_of_mem_blocks h with ⟨condition, elseBody, rfl⟩ | ⟨condition, thenBody, rfl⟩ | ⟨item, e, rfl⟩
  · cases elseBody <;> simp [Stmt.names]
  · simp [Stmt.names]
  · simp [Stmt.names]

/-- The expression of a statement has the same value or fault on both sides. -/
theorem own_agree {s : Stmt} {m n : Machine} (h : AgreeOn names m n) (place : FrameId)
    (hs : s.names ⊆ names) :
    ∃ result m' n', s.own place m = (result, m') ∧ s.own place n = (result, n') ∧ AgreeOn names m' n' := by
  unfold own
  cases he : s.ownExpr? with
  | none => exact ⟨_, _, _, rfl, rfl, h⟩
  | some e => exact h.eval place (List.Subset.trans (names_subset_of_ownExpr? he) hs)

/-- **Statements and blocks cannot tell apart machines that agree on their names.** -/
theorem run_agree :
    (∀ s : Stmt, s.names ⊆ names → ∀ (place : FrameId) (m n : Machine), AgreeOn names m n →
      SameEnd names (Stmt.run place s m) (Stmt.run place s n)) ∧
    ∀ body : List Stmt, BlockAgrees names body := by
  refine tree_induction ?statement ?nil ?cons
  case statement =>
    intro s hblocks hnames place m n h
    -- The blocks of the statement use no other names, so the induction hypothesis holds of them.
    have hinner : ∀ body ∈ s.blocks, ∀ (place : FrameId) (m n : Machine), AgreeOn names m n →
        SameEnd names (Stmt.runFrom place 0 body m) (Stmt.runFrom place 0 body n) := by
      intro body hbody place
      exact hblocks body hbody (List.Subset.trans (namesAll_subset_of_mem_blocks hbody) hnames) place 0
    obtain ⟨result, m', n', hm, hn, hagree⟩ := own_agree h place hnames
    rw [run_eq, run_eq, hm, hn]
    rcases result with fault | v
    · exact ⟨rfl, hagree⟩
    · simp only
      have hacts := s.acts v
      generalize s.act v = act at hacts ⊢
      cases hacts with
      | proceed flow => exact ⟨rfl, hagree⟩
      | raise item e body hother => exact ⟨rfl, hagree⟩
      -- A name that is bound need not be one of `names`: the same write is made on both sides.
      | bind name e => exact ⟨rfl, hagree.bind place name v⟩
      | assign name e =>
        -- The target is one of the names, so both sides find it in the same frame.
        rw [Act.run, Act.run]
        have hname : name ∈ names := hnames (by simp [Stmt.names])
        rcases hagree.scope.assign? hname place v with ⟨hms, hns⟩ | ⟨s', t', hms, hns, hscope⟩
        · simp only [hms, hns]
          exact ⟨rfl, hagree⟩
        · simp only [hms, hns]
          exact ⟨rfl, hscope, hagree.world_eq⟩
      | block body hbody =>
        exact (hagree.inChild place (hinner body hbody)).nested
      | loop item e items body hitems =>
        refine (AgreeOn.forItems ?_ items hagree).nested
        -- A pass shadows the item on both sides before its body runs.
        intro v m n h
        exact h.inChild place
          (fun child m n h => hinner body List.mem_cons_self child _ _ (h.bind child item v))
  case nil =>
    intro _ place index m n h
    rw [Stmt.runFrom, Stmt.runFrom]
    exact ⟨rfl, h⟩
  case cons =>
    intro s rest hstatement hrest hnames place index m n h
    obtain ⟨hfirst, hmore⟩ := List.append_subset.mp (by simpa only [Stmt.namesAll] using hnames)
    obtain ⟨result, m', n', hm, hn, hagree⟩ := (hstatement hfirst place m n h).exists_end
    rw [Stmt.runFrom, Stmt.runFrom, hm, hn]
    -- Both blocks stop at the same statement or go on together.
    rcases result with trouble | (- | v)
    · exact ⟨rfl, hagree⟩
    · exact hrest hmore place (index + 1) m' n' hagree
    · exact ⟨rfl, hagree⟩

end Stmt

end ServiceEngine
