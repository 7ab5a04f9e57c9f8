import Mathlib
import ServiceEngine.Proofs.Exec.Evaluation
import ServiceEngine.Proofs.Exec.Trace
import ServiceEngine.Proofs.Store.Ledger

/-!
# The store calls of a program

A program reaches the store only through calls of built-in functions. Layer by layer, this module lists
the calls that are made and shows that the store afterwards is the store after these calls:

1. a built-in function makes one call, or none if its arguments are refused (`Builtin.calls`);
2. an expression makes the calls of its operands, from left to right, up to the first fault
   (`Expr.calls`);
3. a statement makes the calls of its own expression, and a run those of all its moments
   (`Stmt.store_run`).

A run that fails is no exception: its calls are those it made before.
-/

namespace ServiceEngine

theorem Store.performAll_append (s : Store) (calls more : List Store.Call) :
    s.performAll (calls ++ more) = (s.performAll calls).performAll more :=
  List.foldl_append

/-! ## Built-in functions -/

/-- The store after an operation, which is the old one if the operation fails. -/
def Store.after {ε : Type} (s : Store) (result : Except ε (Value × Store)) : Store :=
  match result with
  | .ok (_, s) => s
  | .error _ => s

/-- The call that an operation of a program makes. -/
def Query.call (entity : String) : Query → Store.Call
  | .create fields => .create entity fields
  | .findAll filter => .findAll entity (filter.map .fields)
  | .find filter => .find entity filter
  | .update id patch => .update entity id patch
  | .delete target => .delete entity target
  | .count => .count entity

/-- A query leaves the store that its call leaves; one that finds nothing changes nothing. -/
theorem Query.after_perform (s : Store) (entity : String) (query : Query) :
    s.after (query.perform s entity) = (query.call entity).perform s := by
  cases query with
  | find filter =>
    simp only [Query.perform]
    cases s.find entity filter <;> rfl
  | update id patch =>
    simp only [Query.perform, Query.call, Store.Call.perform]
    cases s.update entity id patch <;> rfl
  | _ => rfl

namespace Builtin

/-- The call of an operation on an entity, if its arguments are understood. -/
def callsOn (s : Store) (entity : String) (operation : Operation) (args : List Value) :
    List Store.Call :=
  match Query.ofArguments s.heap operation args with
  | .ok query => [query.call entity]
  | .error _ => []

def calls (s : Store) : Builtin → List Value → List Store.Call
  | .database (some entity) operation, args => callsOn s entity operation args
  | .database none operation, .str entity :: args => callsOn s entity operation args
  | _, _ => []

/-- An operation on an entity makes one call, or none if its arguments are refused. -/
theorem after_callOn (s : Store) (entity : String) (operation : Operation) (args : List Value) :
    s.after (callOn s entity operation args) = s.performAll (callsOn s entity operation args) := by
  unfold callOn callsOn
  cases Query.ofArguments s.heap operation args with
  | error why => rfl
  | ok query =>
    have hquery := query.after_perform s entity
    simp only [Store.performAll, List.foldl_cons, List.foldl_nil, ← hquery]
    cases query.perform s entity <;> rfl

/-- An operation reached as `db.op` has its entity in front of its arguments. -/
theorem after_callDatabase (s : Store) (entity : Option String) (operation : Operation)
    (args : List Value) :
    s.after (callDatabase s entity operation args) =
      s.performAll ((database entity operation).calls s args) := by
  cases entity with
  | some entity => exact after_callOn s entity operation args
  | none =>
    cases args with
    | nil => rfl
    | cons v args =>
      -- A first argument that is no text names no entity, and no call is made.
      cases v with
      | str entity => exact after_callOn s entity operation args
      | _ => rfl

/-- A call of a function leaves the store after its calls. -/
theorem store_call (f : Builtin) (args : List Value) (w : World) :
    ((Action.atomically (f.call args)).run w).2.store = w.store.performAll (f.calls w.store args) := by
  rw [Action.run_atomically]
  cases f with
  | log => rfl
  | now =>
    simp only [call]
    by_cases h : args.isEmpty = true <;> simp [h, calls, Store.performAll]
  | database entity operation =>
    rw [← after_callDatabase]
    simp only [call]
    cases callDatabase w.store entity operation args <;> rfl

end Builtin

/-! ## Expressions -/

/-- What follows a value; nothing follows a fault. -/
def Action.callsAfter {α : Type} (result : Except Fault α × World)
    (next : α → World → List Store.Call) : List Store.Call :=
  match result with
  | (.ok a, w) => next a w
  | (.error _, _) => []

/-- The calls of two steps are those of the first and, if it gives a value, those of the second. -/
theorem Action.store_andThen {α β : Type} {result : Except Fault α × World}
    {next : α → World → Except Fault β × World} {s : Store} {first : List Store.Call}
    {later : α → World → List Store.Call} (hfirst : result.2.store = s.performAll first)
    (hnext : ∀ a w, (next a w).2.store = w.store.performAll (later a w)) :
    (Action.andThen result next).2.store = s.performAll (first ++ Action.callsAfter result later) := by
  rw [Store.performAll_append, ← hfirst]
  obtain ⟨fault | a, w⟩ := result
  · rfl
  · exact hnext a w

/-- A second step that does not touch the world adds no calls. -/
theorem Action.store_andThen_pure {α β : Type} {result : Except Fault α × World}
    {next : α → World → Except Fault β × World} {s : Store} {calls : List Store.Call}
    (hfirst : result.2.store = s.performAll calls) (hnext : ∀ a w, (next a w).2 = w) :
    (Action.andThen result next).2.store = s.performAll calls := by
  rw [← hfirst]
  obtain ⟨fault | a, w⟩ := result
  · rfl
  · exact congrArg World.store (hnext a w)

namespace Expr

variable (scope : Scope) (place : FrameId)

mutual

/-- The calls that the evaluation of an expression makes. -/
def calls : Expr → World → List Store.Call
  | .literal _, _ => []
  | .identifier _, _ => []
  | .member target _, w => calls target w
  | .binary operator left right, w =>
    calls left w ++ Action.callsAfter ((left.eval scope place).run w) (fun l w =>
      match operator.settles? l with
      | some _ => []
      | none => calls right w)
  | .unary _ operand, w => calls operand w
  | .call callee arguments, w =>
    calls callee w ++ Action.callsAfter ((callee.eval scope place).run w) (fun v w =>
      match v with
      | .func f =>
        callsAll arguments w ++ Action.callsAfter ((Expr.evalAll scope place arguments).run w)
          (fun args w => f.calls w.store args)
      | _ => [])
  | .object properties, w => callsFields properties w
  | .array elements, w => callsAll elements w

/-- The calls that the evaluation of a list makes. -/
def callsAll : List Expr → World → List Store.Call
  | [], _ => []
  | e :: rest, w =>
    calls e w ++ Action.callsAfter ((e.eval scope place).run w) (fun _ w => callsAll rest w)

/-- The calls that the evaluation of properties makes. -/
def callsFields : List (String × Expr) → World → List Store.Call
  | [], _ => []
  | (_, e) :: rest, w =>
    calls e w ++ Action.callsAfter ((e.eval scope place).run w) (fun _ w => callsFields rest w)

end

/-- **Evaluation leaves the store after its calls**, whether it gives a value or fails. -/
theorem store_eval_all :
    (∀ e : Expr, ∀ w, ((e.eval scope place).run w).2.store =
      w.store.performAll (e.calls scope place w)) ∧
    (∀ es : List Expr, ∀ w, ((Expr.evalAll scope place es).run w).2.store =
      w.store.performAll (Expr.callsAll scope place es w)) ∧
    ∀ properties : List (String × Expr), ∀ before w,
      ((Expr.evalFields scope place before properties).run w).2.store =
        w.store.performAll (Expr.callsFields scope place properties w) := by
  -- The calls follow the order of evaluation, so each case adds those of its operands one after
  -- the other.
  apply operand_induction
  case literal =>
    intro value w
    rw [run_literal, calls]
    rfl
  case identifier =>
    intro name w
    rw [run_identifier, calls]
    rfl
  case binary =>
    intro operator left right hleft hright w
    rw [run_binary, calls]
    -- The right operand is evaluated only if the left one does not settle the operator.
    refine Action.store_andThen (hleft w) ?_
    intro l w
    cases operator.settles? l with
    | some v => rfl
    | none => exact Action.store_andThen_pure (hright w) (fun _ _ => rfl)
  case unary =>
    intro operator operand hoperand w
    rw [run_unary, calls]
    exact Action.store_andThen_pure (hoperand w) (fun _ _ => rfl)
  case member =>
    intro target property htarget w
    rw [run_member, calls]
    exact Action.store_andThen_pure (htarget w) (fun _ _ => rfl)
  case call =>
    intro callee arguments hcallee harguments w
    rw [run_call, calls]
    refine Action.store_andThen (hcallee w) ?_
    intro v w
    -- A callee that is no function ends the evaluation before any argument is looked at.
    cases v with
    | func f => exact Action.store_andThen (harguments w) (fun args w => f.store_call args w)
    | _ => rfl
  case object =>
    intro properties hproperties w
    rw [run_object, calls]
    exact Action.store_andThen_pure (hproperties [] w) (fun _ _ => rfl)
  case array =>
    intro elements helements w
    rw [run_array, calls]
    exact Action.store_andThen_pure (helements w) (fun _ _ => rfl)
  case nil =>
    intro w
    rw [run_evalAll_nil, callsAll]
    rfl
  case cons =>
    intro e rest he hrest w
    rw [run_evalAll_cons, callsAll]
    exact Action.store_andThen (he w) (fun v w => Action.store_andThen_pure (hrest w) (fun _ _ => rfl))
  case noFields =>
    intro before w
    rw [run_evalFields_nil, callsFields]
    rfl
  case field =>
    intro name e rest he hrest before w
    rw [run_evalFields_cons, callsFields]
    exact Action.store_andThen (he w) (fun v w => hrest (before.insert name v) w)

end Expr

/-! ## Statements -/

namespace Machine

def store (m : Machine) : Store := m.world.store

theorem store_eval (m : Machine) (place : FrameId) (e : Expr) :
    (m.eval place e).2.store = m.store.performAll (e.calls m.scope place m.world) :=
  (Expr.store_eval_all m.scope place).1 e m.world

/-- A loop leaves the store after the calls of its passes. -/
theorem store_forItems {step : Value → Machine → Except Failure Flow × Machine}
    {trace : Value → Machine → List Moment} {calls : Moment → List Store.Call}
    (hstep : ∀ v m, (step v m).2.store = m.store.performAll ((trace v m).flatMap calls))
    (items : List Value) (m : Machine) :
    (Machine.forItems step items m).2.store =
      m.store.performAll ((Machine.traceItems step trace items m).flatMap calls) := by
  induction items generalizing m with
  | nil => rfl
  | cons item rest ih =>
    have hitem := hstep item m
    rw [Machine.forItems, Machine.traceItems, List.flatMap_append, Store.performAll_append, ← hitem]
    -- The loop goes on only after a pass that ends well; the calls of later passes are made from
    -- there.
    rcases step item m with ⟨failure | (- | v), m'⟩
    · rfl
    · exact ih m'
    · rfl

end Machine

/-- The calls of the expression that the statement of a moment evaluates itself. -/
def Moment.calls (moment : Moment) : List Store.Call :=
  match moment.statement.ownExpr? with
  | some e => e.calls moment.machine.scope moment.place moment.machine.world
  | none => []

namespace Stmt

/-- A block leaves the store after the calls of its moments. -/
def BlockCalls (body : List Stmt) : Prop :=
  ∀ (place : FrameId) (index : Nat) (m : Machine),
    (Stmt.runFrom place index body m).2.store =
      m.store.performAll ((Stmt.traceFrom place index body m).flatMap Moment.calls)

/-- A statement leaves the store after its own calls and those of the moments inside it. -/
def Calls (s : Stmt) : Prop :=
  ∀ (place : FrameId) (m : Machine),
    (Stmt.run place s m).2.store =
      m.store.performAll (Moment.calls ⟨[], place, s, m⟩ ++ (Stmt.trace place s m).flatMap Moment.calls)

/-- The expression of a statement leaves the store after its calls. -/
theorem store_own (place : FrameId) (s : Stmt) (m : Machine) :
    (s.own place m).2.store = m.store.performAll (Moment.calls ⟨[], place, s, m⟩) := by
  unfold own Moment.calls
  cases s.ownExpr? with
  | none => rfl
  | some e => exact m.store_eval place e

/-- **A run leaves the store after the calls of its moments**, however it ends. -/
theorem store_run :
    (∀ s : Stmt, Calls s) ∧ ∀ body : List Stmt, BlockCalls body := by
  refine tree_induction ?statement ?nil ?cons
  case statement =>
    intro s hblocks place m
    -- The expression has made its calls; the act starts from the store that it left.
    rw [Store.performAll_append, ← store_own, run_eq, trace_eq]
    rcases s.own place m with ⟨fault | v, m'⟩
    · rfl
    · simp only
      have hacts := s.acts v
      generalize s.act v = act at hacts ⊢
      cases hacts with
      | assign name e =>
        rw [Act.run]
        cases m'.scope.assign? place name v <;> rfl
      | block body hbody =>
        rw [Act.run, snd_nested]
        exact hblocks body hbody m'.scope.top 0 (m'.opened place)
      | loop item e items body hitems =>
        rw [Act.run, snd_nested]
        refine Machine.store_forItems ?_ items m'
        -- Opening, binding and releasing the frame of a pass do not touch the store.
        intro v m
        exact hblocks body List.mem_cons_self m.scope.top 0 ((m.opened place).bind m.scope.top item v)
      | _ => rfl
  case nil =>
    intro place index m
    rw [Stmt.runFrom, Stmt.traceFrom]
    rfl
  case cons =>
    intro s rest hs hrest place index m
    have hfirst := hs place m
    -- A longer path does not change the calls of a moment.
    have hwithin : ((Stmt.trace place s m).map (Moment.within index)).flatMap Moment.calls =
        (Stmt.trace place s m).flatMap Moment.calls := List.flatMap_map ..
    rw [Stmt.runFrom, Stmt.traceFrom, List.flatMap_cons, List.flatMap_append, hwithin,
      ← List.append_assoc, Store.performAll_append]
    simp only [Moment.calls] at hfirst ⊢
    rw [← hfirst]
    rcases Stmt.run place s m with ⟨trouble | (- | v), m'⟩
    · rfl
    · exact hrest place (index + 1) m'
    · rfl

end Stmt

/-! ## What holds of every call -/

section

variable {P : Store.Call → Prop}

/-- A program's operation on an entity makes only calls that some query makes. -/
theorem Builtin.forall_callsOn (hP : ∀ (entity : String) (query : Query), P (query.call entity))
    {s : Store} {entity : String} {operation : Operation} {args : List Value} :
    ∀ call ∈ callsOn s entity operation args, P call := by
  unfold callsOn
  cases Query.ofArguments s.heap operation args with
  | error why => simp
  | ok query =>
    intro call hmem
    rw [List.mem_singleton.mp hmem]
    exact hP entity query

theorem Builtin.forall_calls (hP : ∀ (entity : String) (query : Query), P (query.call entity))
    {s : Store} {f : Builtin} {args : List Value} : ∀ call ∈ f.calls s args, P call := by
  unfold calls
  split
  · exact forall_callsOn hP
  · exact forall_callsOn hP
  · simp

theorem Action.forall_callsAfter {α : Type} {result : Except Fault α × World}
    {next : α → World → List Store.Call} (hnext : ∀ a w, ∀ call ∈ next a w, P call) :
    ∀ call ∈ Action.callsAfter result next, P call := by
  obtain ⟨fault | a, w⟩ := result
  · intro call hmem
    cases hmem
  · exact hnext a w

/-- What holds of every operation that a program can ask for holds of every call of an expression. -/
theorem Expr.forall_calls (hP : ∀ (entity : String) (query : Query), P (query.call entity))
    (scope : Scope) (place : FrameId) :
    (∀ e : Expr, ∀ w, ∀ call ∈ e.calls scope place w, P call) ∧
    (∀ es : List Expr, ∀ w, ∀ call ∈ Expr.callsAll scope place es w, P call) ∧
    ∀ properties : List (String × Expr), ∀ w,
      ∀ call ∈ Expr.callsFields scope place properties w, P call := by
  -- By induction on the expression: calls of operands have the property, and so has the call of a
  -- function.
  apply operand_induction
  case literal => simp [calls]
  case identifier => simp [calls]
  case binary =>
    intro operator left right hleft hright w
    rw [calls]
    refine List.forall_mem_append.mpr ⟨hleft w, Action.forall_callsAfter ?_⟩
    intro l w
    cases operator.settles? l with
    | some v => simp
    | none => exact hright w
  case unary =>
    intro operator operand hoperand w
    rw [calls]
    exact hoperand w
  case member =>
    intro target property htarget w
    rw [calls]
    exact htarget w
  case call =>
    intro callee arguments hcallee harguments w
    rw [calls]
    refine List.forall_mem_append.mpr ⟨hcallee w, Action.forall_callsAfter ?_⟩
    intro v w
    -- Only here may a call of the store be made, after those of the arguments.
    cases v with
    | func f =>
      exact List.forall_mem_append.mpr ⟨harguments w,
        Action.forall_callsAfter (fun args w => Builtin.forall_calls hP)⟩
    | _ => simp
  case object =>
    intro properties hproperties w
    rw [calls]
    exact hproperties w
  case array =>
    intro elements helements w
    rw [calls]
    exact helements w
  case nil => simp [callsAll]
  case cons =>
    intro e rest he hrest w
    rw [callsAll]
    exact List.forall_mem_append.mpr ⟨he w, Action.forall_callsAfter (fun _ w => hrest w)⟩
  case noFields => simp [callsFields]
  case field =>
    intro name e rest he hrest w
    rw [callsFields]
    exact List.forall_mem_append.mpr ⟨he w, Action.forall_callsAfter (fun _ w => hrest w)⟩

theorem Moment.forall_calls (hP : ∀ (entity : String) (query : Query), P (query.call entity))
    (moment : Moment) : ∀ call ∈ moment.calls, P call := by
  unfold calls
  split
  · exact (Expr.forall_calls hP _ _).1 _ _
  · simp

end

end ServiceEngine
