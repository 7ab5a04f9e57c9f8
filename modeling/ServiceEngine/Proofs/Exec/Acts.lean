import Mathlib
import ServiceEngine.Exec.Run
import ServiceEngine.Proofs.Exec.Arena

/-!
# What a statement does

A statement evaluates its own expression. What it does next depends only on the value: it goes on or ends
the body, raises a fault, binds or assigns a name, or runs a block in frames of its own. `Stmt.act` says
which of these it is, and `Stmt.run_eq` is the one place where the executor is taken apart: a run of a
statement is its evaluation followed by its act.

What holds of every run follows from there. `Stmt.tree_induction` goes over statements and blocks, with the
blocks inside a statement as its hypothesis, so a proof about runs has one case for each kind of act.
-/

namespace ServiceEngine

/-! ## Frames around blocks -/

namespace Machine

/-- Evaluation gives a value or a fault, and changes only the world. -/
theorem eval_cases (m : Machine) (place : FrameId) (e : Expr) :
    (∃ fault world, m.eval place e = (.error fault, { m with world })) ∨
      ∃ v world, m.eval place e = (.ok v, { m with world }) := by
  unfold eval
  rcases (e.eval m.scope place).run m.world with ⟨fault | v, world⟩
  · exact Or.inl ⟨fault, world, rfl⟩
  · exact Or.inr ⟨v, world, rfl⟩

/-- The machine with a fresh frame inside `parent`. -/
def opened (m : Machine) (parent : FrameId) : Machine := { m with scope := m.scope.opened parent }

/-- The machine without the frame at a place. -/
def closed (m : Machine) (place : FrameId) : Machine := { m with scope := m.scope.release place }

/-- What every pass over the items preserves, the whole walk preserves. -/
theorem forItems_invariant {I : Machine → Prop} {step : Value → Machine → Except Failure Flow × Machine}
    {items : List Value} (hstep : ∀ v ∈ items, ∀ m, I m → I (step v m).2) {m : Machine} (hm : I m) :
    I (forItems step items m).2 := by
  -- The walk ends at the first item that fails or ends the body; until then the invariant is
  -- handed on.
  induction items generalizing m with
  | nil => exact hm
  | cons item rest ih =>
    have hitem := hstep item List.mem_cons_self m hm
    rw [forItems]
    generalize step item m = result at hitem ⊢
    obtain ⟨failure | (- | v), m'⟩ := result
    · exact hitem
    · exact ih (fun v hv => hstep v (List.mem_cons_of_mem _ hv)) hitem
    · exact hitem

end Machine

namespace Stmt

theorem snd_nested (result : Except Failure Flow × Machine) : (Flow.nested result).2 = result.2 := by
  rcases result with ⟨_ | _, _⟩ <;> rfl

/-! ## Statements and their blocks -/

/-- The blocks that stand directly in a statement. -/
def blocks : Stmt → List (List Stmt)
  | .branch _ thenBody elseBody => thenBody :: elseBody.toList
  | .forEach _ _ body => [body]
  | _ => []

/-- The expression that a statement evaluates itself. -/
def ownExpr? : Stmt → Option Expr
  | .letBind _ value => some value
  | .assign _ value => some value
  | .ret value => value
  | .branch condition _ _ => some condition
  | .forEach _ collection _ => some collection
  | .expression e => some e

/-- A block of a statement is one of the two of an `if`, or the one of a loop. -/
theorem exists_of_mem_blocks {s : Stmt} {body : List Stmt} (h : body ∈ s.blocks) :
    (∃ condition elseBody, s = .branch condition body elseBody) ∨
      (∃ condition thenBody, s = .branch condition thenBody (some body)) ∨
      ∃ item collection, s = .forEach item collection body := by
  cases s with
  | branch condition thenBody elseBody =>
    rcases List.mem_cons.mp h with rfl | helse
    · exact Or.inl ⟨condition, elseBody, rfl⟩
    · rw [Option.mem_toList] at helse
      exact Or.inr (Or.inl ⟨condition, thenBody, by rw [helse]⟩)
  | forEach item collection inner =>
    rw [List.mem_singleton.mp h]
    exact Or.inr (Or.inr ⟨item, collection, rfl⟩)
  | _ => cases h

/-- What holds of statements and of blocks, by induction over both. -/
theorem block_induction {P : Stmt → Prop} {Q : List Stmt → Prop}
    (letBind : ∀ name value, P (.letBind name value))
    (assign : ∀ name value, P (.assign name value))
    (ret : ∀ value, P (.ret value))
    (branch : ∀ condition thenBody elseBody,
      Q thenBody → (∀ body, elseBody = some body → Q body) →
      P (.branch condition thenBody elseBody))
    (forEach : ∀ item collection body, Q body → P (.forEach item collection body))
    (expression : ∀ e, P (.expression e))
    (nil : Q [])
    (cons : ∀ s rest, P s → Q rest → Q (s :: rest)) :
    (∀ s, P s) ∧ ∀ body, Q body := by
  -- The recursor goes through the optional block of an `if` as a third kind of tree.
  have hnone : ∀ body, (none : Option (List Stmt)) = some body → Q body := by
    intro body h
    cases h
  have hsome : ∀ block, Q block → ∀ body, some block = some body → Q body := by
    intro block hblock body h
    cases h
    exact hblock
  exact ⟨@Stmt.rec P Q (fun block => ∀ body, block = some body → Q body)
      letBind assign ret branch forEach expression nil cons hnone hsome,
    @Stmt.rec_1 P Q (fun block => ∀ body, block = some body → Q body)
      letBind assign ret branch forEach expression nil cons hnone hsome⟩

/-- Induction over statements and blocks in which all kinds of statements are one case: what holds of the
blocks inside a statement may be used for the statement. -/
theorem tree_induction {P : Stmt → Prop} {Q : List Stmt → Prop}
    (statement : ∀ s, (∀ body ∈ s.blocks, Q body) → P s)
    (nil : Q [])
    (cons : ∀ s rest, P s → Q rest → Q (s :: rest)) :
    (∀ s, P s) ∧ ∀ body, Q body := by
  refine block_induction ?letBind ?assign ?ret ?branch ?forEach ?expression nil cons
  case branch =>
    intro condition thenBody elseBody hthen helse
    refine statement _ ?_
    intro body hbody
    rcases List.mem_cons.mp hbody with rfl | hbody
    · exact hthen
    · exact helse body (Option.mem_toList.mp hbody)
  case forEach =>
    intro item collection body hbody
    refine statement _ ?_
    intro inner hinner
    rwa [List.mem_singleton.mp hinner]
  -- The other statements have no blocks.
  all_goals
    intros
    exact statement _ nofun

end Stmt

/-! ## Acts -/

/-- What a statement does once its expression has a value: let the body go on or end, raise a fault, bind or
assign a name, run a block in a frame of its own, or run it once for each item. -/
inductive Act where
  | proceed (flow : Flow)
  | raise (fault : Fault)
  | bind (name : String) (value : Value)
  | assign (name : String) (value : Value)
  | block (body : List Stmt)
  | loop (item : String) (items : List Value) (body : List Stmt)

namespace Stmt

/-- The act of a statement whose expression has the value `v`. -/
def act : Stmt → Value → Act
  | .letBind name _, v => .bind name v
  | .assign name _, v => .assign name v
  | .ret _, v => .proceed (.done v)
  | .branch _ thenBody elseBody, v =>
    if v.isTruthy then .block thenBody else elseBody.elim (.proceed .next) .block
  | .forEach item _ body, .list items => .loop item items body
  | .forEach _ _ _, v => .raise (.notIterable v.kind)
  | .expression _, _ => .proceed .next

/-- Evaluate the expression of a statement; a statement that has none goes on with null. -/
def own (place : FrameId) (s : Stmt) (m : Machine) : Except Fault Value × Machine :=
  match s.ownExpr? with
  | some e => m.eval place e
  | none => (.ok .null, m)

/-- A pass of a loop: the item is bound in a fresh frame and the body runs there. -/
def pass (place : FrameId) (item : String) (body : List Stmt) (v : Value) (m : Machine) :
    Except Failure Flow × Machine :=
  m.inChild place (fun child m => Stmt.runFrom child 0 body (m.bind child item v))

end Stmt

/-- Carry out an act in a frame. -/
def Act.run (place : FrameId) : Act → Machine → Except Trouble Flow × Machine
  | .proceed flow, m => (.ok flow, m)
  | .raise fault, m => (.error (.here fault), m)
  | .bind name value, m => (.ok .next, m.bind place name value)
  | .assign name value, m =>
    match m.scope.assign? place name value with
    | some scope => (.ok .next, { m with scope })
    | none => (.error (.here (.unbound name)), m)
  | .block body, m => Flow.nested (m.inChild place (fun child m => Stmt.runFrom child 0 body m))
  | .loop item items body, m => Flow.nested (Machine.forItems (Stmt.pass place item body) items m)

namespace Stmt

/-- **A statement evaluates its expression and acts on the value**; where there is no value, it fails with
the fault. -/
theorem run_eq (place : FrameId) (s : Stmt) (m : Machine) :
    Stmt.run place s m =
      match s.own place m with
      | (.ok v, m) => (s.act v).run place m
      | (.error fault, m) => (.error (.here fault), m) := by
  -- One case for each statement; the conditions and the lists are where the value decides.
  cases s with
  | ret value => cases value <;> rw [Stmt.run] <;> rfl
  | branch condition thenBody elseBody =>
    -- Without an `else`, a condition that is not met lets the body go on.
    cases elseBody <;> rw [Stmt.run]
    all_goals
      simp only [own, ownExpr?, act]
      rcases m.eval place condition with ⟨_ | v, m'⟩
      · rfl
      · by_cases h : v.isTruthy = true <;> simp [h, Act.run]
  | forEach item collection body =>
    rw [Stmt.run]
    simp only [own, ownExpr?]
    rcases m.eval place collection with ⟨_ | v, m'⟩
    · rfl
    · cases v <;> rfl
  | _ =>
    rw [Stmt.run]
    rfl

variable {place : FrameId} {s : Stmt} {m after : Machine} {v : Value} {fault : Fault}

/-- A statement whose expression fails has done nothing else. -/
theorem run_of_fault (h : s.own place m = (.error fault, after)) :
    Stmt.run place s m = (.error (.here fault), after) := by
  rw [run_eq, h]

/-- A statement whose expression has a value carries out its act. -/
theorem run_of_value (h : s.own place m = (.ok v, after)) :
    Stmt.run place s m = (s.act v).run place after := by
  rw [run_eq, h]

/-- The expression of a statement gives a value or a fault, and changes only the world. -/
theorem own_cases (place : FrameId) (s : Stmt) (m : Machine) :
    (∃ fault world, s.own place m = (.error fault, { m with world })) ∨
      ∃ v world, s.own place m = (.ok v, { m with world }) := by
  unfold own
  cases s.ownExpr? with
  | none => exact Or.inr ⟨.null, m.world, rfl⟩
  | some e => exact m.eval_cases place e

/-- Only the expression of a statement can fail before the statement acts. -/
theorem exists_eval_of_own_error (h : s.own place m = (.error fault, after)) :
    ∃ e, s.ownExpr? = some e ∧ m.eval place e = (.error fault, after) := by
  unfold own at h
  split at h
  next e he => exact ⟨e, he, h⟩
  next => cases h

/-- Which statement can act in which way on a value: names are bound to it or assigned it, the block stands
in the statement, and the items are those of the list. -/
inductive Acts (v : Value) : Stmt → Act → Prop where
  | proceed {s : Stmt} (flow : Flow) : Acts v s (.proceed flow)
  | raise (item : String) (e : Expr) (body : List Stmt) (hother : ∀ items, v ≠ .list items) :
      Acts v (.forEach item e body) (.raise (.notIterable v.kind))
  | bind (name : String) (e : Expr) : Acts v (.letBind name e) (.bind name v)
  | assign (name : String) (e : Expr) : Acts v (.assign name e) (.assign name v)
  | block {s : Stmt} (body : List Stmt) (hbody : body ∈ s.blocks) : Acts v s (.block body)
  | loop (item : String) (e : Expr) (items : List Value) (body : List Stmt) (hitems : v = .list items) :
      Acts v (.forEach item e body) (.loop item items body)

/-- Every statement acts on a value in one of these ways. -/
theorem acts (s : Stmt) (v : Value) : Acts v s (s.act v) := by
  cases s with
  -- The condition chooses one of the blocks, or none.
  | branch condition thenBody elseBody =>
    rw [act]
    split
    · exact .block thenBody List.mem_cons_self
    · cases elseBody with
      | none => exact .proceed .next
      | some elseBody => exact .block elseBody (List.mem_cons_of_mem _ List.mem_cons_self)
  | forEach item e body =>
    -- A loop goes through a list and refuses every other value.
    cases v with
    | list items => exact .loop item e items body rfl
    | _ => exact .raise item e body nofun
  | letBind name e => exact .bind name e
  | assign name e => exact .assign name e
  | ret value => exact .proceed (.done v)
  | expression e => exact .proceed .next

end Stmt

end ServiceEngine
