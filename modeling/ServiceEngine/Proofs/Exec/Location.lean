import Mathlib
import ServiceEngine.Proofs.Exec.Trace

/-!
# A failure names the statement that raised it

The path of a failure is put together from the inside out while the failure leaves one block after
another. It is compared here with the static tree (`Stmt.At`, one block inside another) and with the
run itself: the last statement that the run came to is the one at the path, and the fault is raised by
that statement, not by one inside it (`Stmt.Raises`).
-/

namespace ServiceEngine

namespace Stmt

/-! ## Places in the tree -/

/-- The statement at a path: each index picks a statement of a block, and the next block is one that
stands directly in it. -/
inductive At : List Stmt → List Nat → Stmt → Prop where
  | here {body : List Stmt} {index : Nat} {s : Stmt} : body[index]? = some s → At body [index] s
  | inside {body inner : List Stmt} {index : Nat} {path : List Nat} {outer s : Stmt} :
      body[index]? = some outer → inner ∈ outer.blocks → At inner path s → At body (index :: path) s

/-- A statement in front of a block moves the first index by one. -/
theorem At.cons {body : List Stmt} {index : Nat} {path : List Nat} {s : Stmt} (first : Stmt)
    (h : At body (index :: path) s) : At (first :: body) ((index + 1) :: path) s := by
  cases h with
  | here hget => exact .here (by simpa using hget)
  | inside hget hinner hat => exact .inside (by simpa using hget) hinner hat

theorem At.path_ne_nil {body : List Stmt} {path : List Nat} {s : Stmt} (h : At body path s) :
    path ≠ [] := by
  cases h <;> simp

/-! ## Faults of a statement itself -/

/-- A statement raises a fault itself: its own expression fails, it assigns to a name that is not bound,
or it walks over something that is no list. `after` is the machine at that moment. -/
inductive Raises (place : FrameId) : Stmt → Machine → Fault → Machine → Prop where
  | expression {s : Stmt} {e : Expr} {m after : Machine} {fault : Fault} :
      s.ownExpr? = some e → m.eval place e = (.error fault, after) → Raises place s m fault after
  | unbound {name : String} {e : Expr} {v : Value} {m after : Machine} :
      m.eval place e = (.ok v, after) → after.scope.assign? place name v = none →
      Raises place (.assign name e) m (.unbound name) after
  | notIterable {item : String} {e : Expr} {body : List Stmt} {v : Value} {m after : Machine} :
      m.eval place e = (.ok v, after) → (∀ items, v ≠ .list items) →
      Raises place (.forEach item e body) m (.notIterable v.kind) after

/-- A failure, and the machine it leaves, belong to a moment: the path and the label are those of its
statement, the fault is raised by it, and the world has not changed since. -/
structure RaisedAt (failure : Failure) (final : Machine) (moment : Moment) : Prop where
  path_eq : moment.path = failure.path
  label_eq : moment.statement.label = failure.statement
  raises : ∃ after, Raises moment.place moment.statement moment.machine failure.fault after ∧
    final.world = after.world

/-- Inside another statement, failure and moment get the same index in front. -/
theorem RaisedAt.within {failure : Failure} {final : Machine} {moment : Moment} (index : Nat)
    (h : RaisedAt failure final moment) :
    RaisedAt (failure.within index) final (moment.within index) := by
  obtain ⟨hpath, hlabel, hraises⟩ := h
  exact ⟨congrArg (index :: ·) hpath, hlabel, hraises⟩

/-! ## The last moment of a failed run -/

/-- What a failed run of a statement shows. -/
def Explains (place : FrameId) (s : Stmt) (m : Machine) (final : Machine) : Trouble → Prop
  | .here fault => Stmt.trace place s m = [] ∧ Raises place s m fault final
  | .inside failure => ∃ moment, (Stmt.trace place s m).getLast? = some moment ∧
      RaisedAt failure final moment

/-- A failed run of a block ends at the moment that its failure names. -/
def BlockExplains (body : List Stmt) : Prop :=
  ∀ (place : FrameId) (index : Nat) (m final : Machine) (failure : Failure),
    Stmt.runFrom place index body m = (.error failure, final) →
      ∃ moment, (Stmt.traceFrom place index body m).getLast? = some moment ∧
        RaisedAt failure final moment

/-- A loop fails at the last moment of the pass that failed. -/
theorem forItems_explains {step : Value → Machine → Except Failure Flow × Machine}
    {trace : Value → Machine → List Moment}
    (hstep : ∀ v m final failure, step v m = (.error failure, final) →
      ∃ moment, (trace v m).getLast? = some moment ∧ RaisedAt failure final moment)
    (items : List Value) (m final : Machine) (failure : Failure)
    (h : Machine.forItems step items m = (.error failure, final)) :
    ∃ moment, (Machine.traceItems step trace items m).getLast? = some moment ∧
      RaisedAt failure final moment := by
  -- By induction on the items: passes before the failing one only put moments in front.
  induction items generalizing m with
  | nil => cases h
  | cons item rest ih =>
    rw [Machine.forItems] at h
    rw [Machine.traceItems]
    rcases hresult : step item m with ⟨failure' | flow, m'⟩
    -- This pass failed, so it was the last one.
    · simp only [hresult, Prod.mk.injEq, Except.error.injEq] at h
      obtain ⟨rfl, rfl⟩ := h
      obtain ⟨moment, hlast, hraised⟩ := hstep item m m' failure' hresult
      exact ⟨moment, by simp [hlast], hraised⟩
    · cases flow with
      | next =>
        simp only [hresult] at h
        obtain ⟨moment, hlast, hraised⟩ := ih m' h
        exact ⟨moment, by simp [hlast], hraised⟩
      | done v => simp [hresult] at h

/-- The trouble of a statement with a block is a failure of the block. -/
theorem nested_inside {result : Except Failure Flow × Machine} {trouble : Trouble} {final : Machine}
    (h : Flow.nested result = (.error trouble, final)) :
    ∃ failure, result = (.error failure, final) ∧ trouble = .inside failure := by
  rcases result with ⟨failure | flow, m⟩
  · simp only [Flow.nested, Prod.mk.injEq, Except.error.injEq] at h
    exact ⟨failure, by rw [h.2], h.1.symm⟩
  · simp [Flow.nested] at h

/-- A block in a frame of its own fails as it does there; releasing the frame changes no world. -/
theorem BlockExplains.closed {body : List Stmt} (hbody : BlockExplains body) {place top : FrameId}
    {m final : Machine} {failure : Failure}
    (h : ((Stmt.runFrom place 0 body m).1, (Stmt.runFrom place 0 body m).2.closed top) =
      (.error failure, final)) :
    ∃ moment, (Stmt.traceFrom place 0 body m).getLast? = some moment ∧
      RaisedAt failure final moment := by
  rcases hrun : Stmt.runFrom place 0 body m with ⟨result, inner⟩
  rw [hrun] at h
  obtain ⟨rfl, rfl⟩ := Prod.mk.inj h
  obtain ⟨moment, hlast, hpath, hlabel, after, hraises, hworld⟩ := hbody place 0 m inner failure hrun
  exact ⟨moment, hlast, hpath, hlabel, after, hraises, hworld⟩

/-- **A failed run ends at the statement that its failure names.** -/
theorem run_explains :
    (∀ (s : Stmt) (place : FrameId) (m final : Machine) (trouble : Trouble),
      Stmt.run place s m = (.error trouble, final) → Explains place s m final trouble) ∧
    ∀ body : List Stmt, BlockExplains body := by
  refine tree_induction ?statement ?nil ?cons
  case statement =>
    intro s hblocks place m final trouble h
    rcases s.own_cases place m with ⟨fault, world, hown⟩ | ⟨v, world, hown⟩
    -- The expression has failed: no moment inside, and the fault is its own.
    · rw [run_of_fault hown] at h
      cases h
      obtain ⟨e, he, heval⟩ := exists_eval_of_own_error hown
      exact ⟨trace_of_fault hown, .expression he heval⟩
    · have htrace := trace_of_value hown
      rw [run_of_value hown] at h
      have hacts := s.acts v
      generalize s.act v = act at hacts h htrace
      cases hacts with
      -- A statement that proceeds or binds a name does not fail.
      | proceed flow => cases h
      | raise item e body hother =>
        cases h
        exact ⟨htrace, .notIterable hown hother⟩
      | bind name e => cases h
      | assign name e =>
        rw [Act.run] at h
        cases hassign : m.scope.assign? place name v with
        | none =>
          simp only [hassign, Prod.mk.injEq, Except.error.injEq] at h
          obtain ⟨rfl, rfl⟩ := h
          exact ⟨htrace, .unbound hown hassign⟩
        | some scope => simp [hassign] at h
      -- In a block or a loop the failure is one of the body, at its last moment.
      | block body hbody =>
        obtain ⟨failure, hblock, rfl⟩ := nested_inside h
        obtain ⟨moment, hlast, hraised⟩ := (hblocks body hbody).closed hblock
        exact ⟨moment, by rw [htrace]; exact hlast, hraised⟩
      | loop item e items body hitems =>
        obtain ⟨failure, hpasses, rfl⟩ := nested_inside h
        have hbody : BlockExplains body := hblocks body List.mem_cons_self
        obtain ⟨moment, hlast, hraised⟩ := forItems_explains
          (fun v m final failure hpass => hbody.closed hpass) items { m with world } final failure
          hpasses
        exact ⟨moment, by rw [htrace]; exact hlast, hraised⟩
  case nil =>
    intro place index m final failure h
    simp [Stmt.runFrom] at h
  case cons =>
    intro s rest hstatement hrest place index m final failure h
    rw [Stmt.runFrom] at h
    rw [Stmt.traceFrom]
    rcases hrun : Stmt.run place s m with ⟨trouble | flow, m'⟩
    · simp only [hrun, Prod.mk.injEq, Except.error.injEq] at h
      obtain ⟨rfl, rfl⟩ := h
      have hexplains := hstatement place m m' trouble hrun
      cases trouble with
      | here fault =>
        -- The statement itself failed, and nothing ran inside it.
        obtain ⟨htrace, hraises⟩ := hexplains
        exact ⟨⟨[index], place, s, m⟩, by simp [htrace], rfl, rfl, m', hraises, rfl⟩
      | inside failure =>
        -- The failure comes from a block of the statement; its index goes before the path.
        obtain ⟨moment, hlast, hraised⟩ := hexplains
        exact ⟨moment.within index, by simp [List.getLast?_cons, hlast], hraised.within index⟩
    · cases flow with
      | next =>
        -- The statement has passed, so its moments stand before those of the rest.
        simp only [hrun] at h
        obtain ⟨moment, hlast, hraised⟩ := hrest place (index + 1) m' final failure h
        exact ⟨moment, by simp [List.getLast?_cons, hlast], hraised⟩
      | done v => simp [hrun] at h

/-! ## Moments stand in the tree -/

/-- Every moment of a block is at the place of its statement, the first statement being at `index`. -/
def BlockPlaced (body : List Stmt) : Prop :=
  ∀ (place : FrameId) (index : Nat) (m : Machine), ∀ moment ∈ Stmt.traceFrom place index body m,
    ∃ offset path, moment.path = (index + offset) :: path ∧ At body (offset :: path) moment.statement

/-- In a block that starts at place 0, paths are those of the tree. -/
theorem BlockPlaced.at_zero {body : List Stmt} (hbody : BlockPlaced body) {place : FrameId}
    {m : Machine} {moment : Moment} (h : moment ∈ Stmt.traceFrom place 0 body m) :
    At body moment.path moment.statement := by
  obtain ⟨offset, path, hpath, hat⟩ := hbody place 0 m moment h
  rw [hpath, Nat.zero_add]
  exact hat

/-- Every moment of a run stands in the tree at the place that its path names. -/
theorem trace_placed :
    (∀ (s : Stmt) (place : FrameId) (m : Machine), ∀ moment ∈ Stmt.trace place s m,
      ∃ inner ∈ s.blocks, At inner moment.path moment.statement) ∧
    ∀ body : List Stmt, BlockPlaced body := by
  refine tree_induction ?statement ?nil ?cons
  case statement =>
    intro s hblocks place m
    rcases s.own_cases place m with ⟨fault, world, hown⟩ | ⟨v, world, hown⟩
    · rw [trace_of_fault hown]
      exact nofun
    · rw [trace_of_value hown]
      have hacts := s.acts v
      generalize s.act v = act at hacts ⊢
      cases hacts with
      | block body hbody =>
        intro moment h
        exact ⟨body, hbody, (hblocks body hbody).at_zero h⟩
      | loop item e items body hitems =>
        refine Machine.forall_mem_traceItems (I := fun _ => True) (fun _ _ _ => trivial) ?_ items trivial
        intro v m _ moment h
        exact ⟨body, List.mem_cons_self, (hblocks body List.mem_cons_self).at_zero h⟩
      | _ => exact nofun
  case nil =>
    intro place index m moment h
    simp [Stmt.traceFrom] at h
  case cons =>
    intro s rest hstatement hrest place index m moment h
    rw [Stmt.traceFrom] at h
    rcases List.mem_cons.mp h with rfl | h
    · exact ⟨0, [], rfl, .here rfl⟩
    · rcases List.mem_append.mp h with h | h
      -- Inside the first statement: its index stands before the path in one of its blocks.
      · obtain ⟨inner, hinner, rfl⟩ := List.mem_map.mp h
        obtain ⟨block, hblock, hat⟩ := hstatement place m inner hinner
        exact ⟨0, inner.path, rfl, .inside rfl hblock hat⟩
      -- Behind the first statement: the offset in the rest is one less than in the block.
      · split at h
        · obtain ⟨offset, path, hpath, hat⟩ := hrest place (index + 1) _ moment h
          exact ⟨offset + 1, path, by rw [hpath]; congr 1; omega, hat.cons s⟩
        · cases h

/-! ## Failures of bodies -/

/-- **A failure names the statement that raised it.** When a body fails, the path of the failure leads
through the blocks of the tree to a statement with the label of the failure. It is the last statement
that the run came to, and the fault is raised by that statement itself at that moment: after it, the
world does not change any more. -/
theorem failure_of_runBody_names_statement (m final : Machine) (body : List Stmt) (failure : Failure)
    (h : m.runBody body = (.error failure, final)) :
    failure.path ≠ [] ∧ ∃ moment after,
      (Stmt.traceFrom Scope.root 0 body m).getLast? = some moment ∧
      moment.path = failure.path ∧
      At body failure.path moment.statement ∧
      moment.statement.label = failure.statement ∧
      Raises moment.place moment.statement moment.machine failure.fault after ∧
      final.world = after.world := by
  -- A body fails just as its block does.
  have hblock : Stmt.runFrom Scope.root 0 body m = (.error failure, final) := by
    rw [Machine.runBody, Machine.runBlock] at h
    rcases hrun : Stmt.runFrom Scope.root 0 body m with ⟨result | flow, m'⟩
    · simp only [hrun, Prod.mk.injEq, Except.error.injEq] at h
      rw [h.1, h.2]
    · cases flow <;> simp [hrun] at h
  obtain ⟨moment, hlast, hpath, hlabel, after, hraises, hworld⟩ :=
    run_explains.2 body Scope.root 0 m final failure hblock
  -- The last moment is a moment of the run, so it stands in the tree.
  have hat : At body failure.path moment.statement := by
    rw [← hpath]
    exact (trace_placed.2 body).at_zero (List.mem_of_getLast? hlast)
  exact ⟨hat.path_ne_nil, moment, after, hlast, hpath, hat, hlabel, hraises, hworld⟩

/-- A loop assigns to a name that is not bound, inside an `if`. -/
theorem failure_of_runBody_names_assign :
    let body : List Stmt := [.letBind "items" (.array [.array [], .array []]),
      .forEach "x" (.identifier "items")
        [.branch (.identifier "x") [.assign "y" (.identifier "x")] none]]
    ∃ failure final, (Machine.start [] ⟨.empty, #[], 0⟩).runBody body = (.error failure, final) ∧
      failure.path = [1, 0, 0] ∧ failure.fault = .unbound "y" ∧
      ∃ s, At body [1, 0, 0] s ∧ s.label = failure.statement := by
  intro body
  have hfailed : ((Machine.start [] ⟨.empty, #[], 0⟩).runBody body).1 =
      .error ⟨[1, 0, 0], "assign y", .unbound "y"⟩ := by
    cbv
  have hrun : (Machine.start [] ⟨.empty, #[], 0⟩).runBody body = (_, _) := Prod.ext hfailed rfl
  obtain ⟨-, moment, after, -, -, hat, hlabel, -, -⟩ :=
    failure_of_runBody_names_statement (Machine.start [] ⟨.empty, #[], 0⟩) _ body _ hrun
  exact ⟨_, _, hrun, rfl, rfl, moment.statement, hat, hlabel⟩

end Stmt

end ServiceEngine
