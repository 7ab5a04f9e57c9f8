import Mathlib
import ServiceEngine.Proofs.Exec.Effects
import ServiceEngine.Proofs.Exec.Harmless
import ServiceEngine.Proofs.Lists
import ServiceEngine.Proofs.Store.Readers

/-!
# Bodies that only read

Whether a body writes is not seen from its calls, since any expression can give the function that is called.
It is seen from where the functions that write can come from. There are two sources: the properties
`create`, `update` and `delete` of `db` and of entities, and the values that the body starts with.

1. Expressions that read none of these properties leave the store alone and give harmless values
   (`Expr.leaves_eval`).
2. So the variables of a machine stay harmless, and its store stays the same, through all statements
   (`Stmt.run_harmless`).
-/

namespace ServiceEngine

/-! ## Expressions -/

namespace Expr

mutual

/-- The names of the properties that an expression reads. -/
def properties : Expr → List String
  | .literal _ => []
  | .identifier _ => []
  | .binary _ left right => left.properties ++ right.properties
  | .unary _ operand => operand.properties
  | .member target property => property :: target.properties
  | .call callee arguments => callee.properties ++ propertiesAll arguments
  | .object fields => propertiesFields fields
  | .array elements => propertiesAll elements

def propertiesAll : List Expr → List String
  | [] => []
  | e :: rest => e.properties ++ propertiesAll rest

def propertiesFields : List (String × Expr) → List String
  | [] => []
  | (_, e) :: rest => e.properties ++ propertiesFields rest

end

/-- **An expression that reads none of the writing operations leaves the store alone and gives a harmless
value**, if the names in sight mean harmless values. -/
theorem leaves_eval {s : Store} (hs : s.HarmlessRows) {scope : Scope} {place : FrameId}
    (hscope : ∀ name v, scope.get? place name = some v → s.heap.Harmless v) :
    (∀ e : Expr, (∀ name ∈ e.properties, name ∉ Operation.writing) → ∀ w : World, w.store = s →
      Action.Leaves s s.heap.Harmless ((e.eval scope place).run w)) ∧
    (∀ es : List Expr, (∀ name ∈ propertiesAll es, name ∉ Operation.writing) → ∀ w : World, w.store = s →
      Action.Leaves s (fun vs => ∀ v ∈ vs, s.heap.Harmless v) ((Expr.evalAll scope place es).run w)) ∧
    ∀ fields : List (String × Expr), (∀ name ∈ propertiesFields fields, name ∉ Operation.writing) →
      ∀ before, s.heap.HarmlessFields before → ∀ w : World, w.store = s →
        Action.Leaves s s.heap.HarmlessFields ((Expr.evalFields scope place before fields).run w) := by
  -- By induction on the expression. The world changes on the way, but never its store, so the
  -- hypotheses about the heap hold throughout.
  apply operand_induction
  case literal =>
    intro value _ w hw
    rw [run_literal]
    exact .ok (Heap.harmless_ofJson value.json) hw
  case identifier =>
    intro name _ w hw
    rw [run_identifier]
    cases hget : scope.get? place name with
    | none => exact .error hw
    | some v => exact .ok (hscope name v hget) hw
  case binary =>
    intro operator left right hleft hright hnames w hw
    rw [properties] at hnames
    obtain ⟨hleftNames, hrightNames⟩ := List.forall_mem_append.mp hnames
    rw [run_binary]
    refine (hleft hleftNames w hw).andThen ?_
    intro l w _ hw
    cases hsettles : operator.settles? l with
    -- The left operand settles the operator with a truth value.
    | some v => exact .ok (BinaryOp.harmless_settles? hsettles) hw
    | none =>
      refine (hright hrightNames w hw).andThen ?_
      intro r w _ hw
      exact ⟨hw, fun v hv => BinaryOp.harmless_combine hv⟩
  case unary =>
    intro operator operand hoperand hnames w hw
    rw [run_unary]
    refine (hoperand hnames w hw).andThen ?_
    intro v w _ hw
    exact ⟨hw, fun u hu => UnaryOp.harmless_apply hu⟩
  case member =>
    intro target property htarget hnames w hw
    rw [properties] at hnames
    obtain ⟨hproperty, htargetNames⟩ := List.forall_mem_cons.mp hnames
    rw [run_member]
    refine (htarget htargetNames w hw).andThen ?_
    intro v w hv hw
    -- The target may have been a call, but it has left the heap as the hypotheses know it.
    have hheap : w.heap = s.heap := congrArg Store.heap hw
    rw [hheap]
    exact ⟨hw, fun u hu => hv.property hproperty hu⟩
  case call =>
    intro callee arguments hcallee harguments hnames w hw
    rw [properties] at hnames
    obtain ⟨hcalleeNames, hargumentNames⟩ := List.forall_mem_append.mp hnames
    rw [run_call]
    refine (hcallee hcalleeNames w hw).andThen ?_
    intro v w hv hw
    cases v with
    | func f =>
      -- The callee is harmless, so the function does not write whatever its arguments are.
      refine (harguments hargumentNames w hw).andThen ?_
      intro args w _ hw
      exact Builtin.leaves_call hs (Heap.harmless_func.mp hv) args hw
    | _ => exact .error hw
  case object =>
    intro fields hfields hnames w hw
    rw [run_object]
    refine (hfields hnames [] (by nofun) w hw).andThen ?_
    intro values w hvalues hw
    exact .ok (Heap.harmless_obj.mpr hvalues) hw
  case array =>
    intro elements helements hnames w hw
    rw [run_array]
    refine (helements hnames w hw).andThen ?_
    intro items w hitems hw
    exact .ok (Heap.harmless_list.mpr hitems) hw
  case nil =>
    intro _ w hw
    rw [run_evalAll_nil]
    exact .ok nofun hw
  case cons =>
    intro e rest he hrest hnames w hw
    rw [propertiesAll] at hnames
    obtain ⟨hfirst, hmore⟩ := List.forall_mem_append.mp hnames
    rw [run_evalAll_cons]
    refine (he hfirst w hw).andThen ?_
    intro v w hv hw
    refine (hrest hmore w hw).andThen ?_
    intro vs w hvs hw
    exact .ok (List.forall_mem_cons.mpr ⟨hv, hvs⟩) hw
  case noFields =>
    intro _ before hbefore w hw
    rw [run_evalFields_nil]
    exact .ok hbefore hw
  case field =>
    intro name e rest he hrest hnames before hbefore w hw
    rw [propertiesFields] at hnames
    obtain ⟨hfirst, hmore⟩ := List.forall_mem_append.mp hnames
    rw [run_evalFields_cons]
    refine (he hfirst w hw).andThen ?_
    intro v w hv hw
    exact hrest hmore (before.insert name v) (hbefore.insert hv name) w hw

end Expr

/-! ## Scopes and machines -/

namespace Scope

/-- All variables of all frames have harmless values. -/
def Harmless (heap : Heap) (s : Scope) : Prop := ∀ frame ∈ s.frames, heap.HarmlessFields frame.vars

variable {heap : Heap} {s : Scope}

theorem Harmless.get? (h : s.Harmless heap) {place : FrameId} {name : String} {v : Value}
    (hget : s.get? place name = some v) : heap.Harmless v := by
  obtain ⟨owner, -, howner⟩ := Option.bind_eq_some_iff.mp hget
  obtain ⟨frame, hframe, hvar⟩ := Option.bind_eq_some_iff.mp howner
  exact (h frame (List.mem_of_getElem? hframe)).get? hvar

theorem Harmless.put (h : s.Harmless heap) {v : Value} (hv : heap.Harmless v) (place : FrameId)
    (name : String) : (s.put place name v).Harmless heap := by
  intro frame hframe
  obtain ⟨old, hold, rfl | rfl⟩ := mem_modify hframe
  · exact h _ hold
  · exact (h old hold).insert hv name

theorem Harmless.opened (h : s.Harmless heap) (parent : FrameId) : (s.opened parent).Harmless heap := by
  intro frame hframe
  rcases List.mem_append.mp hframe with hold | hnew
  · exact h frame hold
  · rw [List.mem_singleton.mp hnew]
    exact nofun

theorem Harmless.release (h : s.Harmless heap) (place : FrameId) : (s.release place).Harmless heap := by
  unfold Scope.release
  split
  · exact h
  · intro frame hframe
    exact h frame (List.mem_of_mem_take hframe)

end Scope

namespace Machine

/-- A machine works on the store that it was given, and all its variables have harmless values. -/
structure Harmless (s : Store) (m : Machine) : Prop where
  store_eq : m.store = s
  scope : m.scope.Harmless s.heap

variable {s : Store} {m : Machine}

/-- The machine that evaluates an expression stays harmless, and so is the value it gets. -/
theorem Harmless.eval (h : m.Harmless s) (hs : s.HarmlessRows) (place : FrameId) {e : Expr}
    (he : ∀ name ∈ e.properties, name ∉ Operation.writing) :
    (m.eval place e).2.Harmless s ∧ ∀ v, (m.eval place e).1 = .ok v → s.heap.Harmless v := by
  have hscope : ∀ name v, m.scope.get? place name = some v → s.heap.Harmless v :=
    fun _ _ hget => h.scope.get? hget
  have hleaves := (Expr.leaves_eval hs hscope).1 e he m.world h.store_eq
  exact ⟨⟨hleaves.store_eq, h.scope⟩, hleaves.value⟩

theorem Harmless.bind (h : m.Harmless s) {v : Value} (hv : s.heap.Harmless v) (place : FrameId)
    (name : String) : (m.bind place name v).Harmless s :=
  ⟨h.store_eq, h.scope.put hv place name⟩

/-- A frame around a step is opened and released without a value in it. -/
theorem Harmless.inChild {α : Type} (h : m.Harmless s) (place : FrameId)
    {step : FrameId → Machine → α × Machine}
    (hstep : (m.opened place).Harmless s → (step m.scope.top (m.opened place)).2.Harmless s) :
    (m.inChild place step).2.Harmless s := by
  have hdone := hstep ⟨h.store_eq, h.scope.opened place⟩
  exact ⟨hdone.store_eq, hdone.scope.release m.scope.top⟩

end Machine

/-! ## Statements -/

namespace Stmt

mutual

/-- The names of the properties that the expressions of a statement read. -/
def properties : Stmt → List String
  | .letBind _ value => value.properties
  | .assign _ value => value.properties
  | .ret none => []
  | .ret (some value) => value.properties
  | .branch condition thenBody none => condition.properties ++ propertiesAll thenBody
  | .branch condition thenBody (some elseBody) =>
    condition.properties ++ (propertiesAll thenBody ++ propertiesAll elseBody)
  | .forEach _ collection body => collection.properties ++ propertiesAll body
  | .expression e => e.properties

def propertiesAll : List Stmt → List String
  | [] => []
  | s :: rest => s.properties ++ propertiesAll rest

end

theorem properties_subset_of_ownExpr? {s : Stmt} {e : Expr} (h : s.ownExpr? = some e) :
    e.properties ⊆ s.properties := by
  cases s with
  | branch condition thenBody elseBody => cases elseBody <;> cases h <;> simp [properties]
  | _ =>
    cases h
    simp [properties]

theorem propertiesAll_subset_of_mem_blocks {s : Stmt} {body : List Stmt} (h : body ∈ s.blocks) :
    propertiesAll body ⊆ s.properties := by
  rcases exists_of_mem_blocks h with ⟨condition, elseBody, rfl⟩ | ⟨condition, thenBody, rfl⟩ | ⟨item, e, rfl⟩
  · cases elseBody <;> simp [properties]
  · simp [properties]
  · simp [properties]

/-- A block that reads none of the writing operations keeps a machine harmless. -/
def BlockHarmless (store : Store) (body : List Stmt) : Prop :=
  (∀ name ∈ propertiesAll body, name ∉ Operation.writing) → ∀ (place : FrameId) (index : Nat) (m : Machine),
    m.Harmless store → (Stmt.runFrom place index body m).2.Harmless store

/-- The expression of a statement keeps a machine harmless, and so is its value. -/
theorem own_harmless {store : Store} (hs : store.HarmlessRows) {s : Stmt} {m : Machine}
    (hnames : ∀ name ∈ s.properties, name ∉ Operation.writing) (hm : m.Harmless store) (place : FrameId) :
    (s.own place m).2.Harmless store ∧ ∀ v, (s.own place m).1 = .ok v → store.heap.Harmless v := by
  unfold own
  cases he : s.ownExpr? with
  -- A statement without an expression has the value null.
  | none =>
    refine ⟨hm, ?_⟩
    rintro _ ⟨⟩
    exact nofun
  | some e => exact hm.eval hs place (fun name hname => hnames name (properties_subset_of_ownExpr? he hname))

/-- **Statements and blocks that read none of the writing operations keep a machine harmless**, however they
end. -/
theorem run_harmless {store : Store} (hs : store.HarmlessRows) :
    (∀ s : Stmt, (∀ name ∈ s.properties, name ∉ Operation.writing) → ∀ (place : FrameId) (m : Machine),
      m.Harmless store → (Stmt.run place s m).2.Harmless store) ∧
    ∀ body : List Stmt, BlockHarmless store body := by
  -- The invariant is that of the machine: the same store, and harmless variables.
  refine tree_induction ?statement ?nil ?cons
  case statement =>
    intro s hblocks hnames place m hm
    have hinner : ∀ body ∈ s.blocks, ∀ (place : FrameId) (m : Machine), m.Harmless store →
        (Stmt.runFrom place 0 body m).2.Harmless store := by
      intro body hbody place
      exact hblocks body hbody (fun name hname => hnames name (propertiesAll_subset_of_mem_blocks hbody hname))
        place 0
    obtain ⟨hafter, hvalue⟩ := own_harmless hs hnames hm place
    rw [run_eq]
    generalize s.own place m = result at hafter hvalue ⊢
    obtain ⟨fault | v, m'⟩ := result
    · exact hafter
    · simp only
      have hacts := s.acts v
      generalize s.act v = act at hacts ⊢
      cases hacts with
      | proceed flow => exact hafter
      | raise item e body hother => exact hafter
      | bind name e => exact hafter.bind (hvalue v rfl) place name
      | assign name e =>
        rw [Act.run]
        cases hassign : m'.scope.assign? place name v with
        | none => exact hafter
        | some scope =>
          -- An assignment is a binding in the frame that owns the name.
          obtain ⟨owner, -, rfl⟩ := Option.map_eq_some_iff.mp hassign
          exact hafter.bind (hvalue v rfl) owner name
      | block body hbody =>
        rw [Act.run, snd_nested]
        exact hafter.inChild place (hinner body hbody m'.scope.top (m'.opened place))
      | loop item e items body hitems =>
        -- The items of a harmless list are harmless, so they may be bound in the frames of the passes.
        subst hitems
        have hitems := Heap.harmless_list.mp (hvalue _ rfl)
        rw [Act.run, snd_nested]
        refine Machine.forItems_invariant (I := Machine.Harmless store) ?_ hafter
        intro v hv m hm
        refine hm.inChild place ?_
        intro hopened
        exact hinner body List.mem_cons_self _ _ (hopened.bind (hitems v hv) m.scope.top item)
  case nil =>
    intro _ place index m hm
    rw [Stmt.runFrom]
    exact hm
  case cons =>
    intro s rest hstatement hrest hnames place index m hm
    rw [propertiesAll] at hnames
    obtain ⟨hfirst, hmore⟩ := List.forall_mem_append.mp hnames
    have hafter := hstatement hfirst place m hm
    rw [Stmt.runFrom]
    generalize Stmt.run place s m = result at hafter ⊢
    obtain ⟨trouble | (- | v), m'⟩ := result
    -- However the statement ends, the machine it leaves is harmless.
    · exact hafter
    · exact hrest hmore place (index + 1) m' hafter
    · exact hafter

end Stmt

/-! ## Bodies -/

/-- The built-in names mean functions that do not write, so a body starts in a
harmless machine. -/
theorem Machine.harmless_start {vars : Fields Value} {world : World} (hvars : world.heap.HarmlessFields vars) :
    (Machine.start vars world).Harmless world.store := by
  refine ⟨rfl, ?_⟩
  intro frame hframe
  rw [List.mem_singleton.mp hframe]
  -- `db` itself is no function; `log` and `now` are functions that do not write.
  have hdb := hvars.insertIfNew (v := .db) nofun "db"
  have hlog := hdb.insertIfNew ((Heap.harmless_func (f := .log)).mpr rfl) "log"
  exact hlog.insertIfNew ((Heap.harmless_func (f := .now)).mpr rfl) "now"

/-- **A body in which no `create`, `update` or `delete` is read as a property writes nothing.** Take any
bindings and any store such that neither the bindings nor the rows of the tables lead to a function, through
lists, objects or records. However the body ends, the store is the same as before: the tables and their ids,
the fields of all records, the defaults, and the journal, so that nobody is told of an event. -/
theorem reading_bodies_keep_store (body : List Stmt) (vars : Fields Value) (world : World)
    (hbody : ∀ name ∈ Stmt.propertiesAll body, name ∉ ["create", "update", "delete"])
    (hvars : ∀ entry ∈ vars, ∀ f, ¬ world.heap.Yields entry.2 f)
    (hrows : ∀ entity, ∀ h ∈ world.store.rows entity, ∀ f, ¬ world.heap.Yields (.record h) f) :
    ((Machine.start vars world).runBody body).2.world.store = world.store := by
  have hstart : (Machine.start vars world).Harmless world.store := by
    refine Machine.harmless_start ?_
    -- A value that leads to no function at all is harmless.
    intro entry hentry f hf
    exact absurd hf (hvars entry hentry f)
  have hs : world.store.HarmlessRows := by
    intro entity h hh f hf
    exact absurd hf (hrows entity h hh f)
  have hdone := (Stmt.run_harmless hs).2 body hbody Scope.root 0 _ hstart
  unfold Machine.runBody Machine.runBlock
  generalize Stmt.runFrom Scope.root 0 body (Machine.start vars world) = result at hdone ⊢
  obtain ⟨failure | (- | v), m'⟩ := result <;> exact hdone.store_eq

/-- A body that puts the function that finds all records into an object, calls it there, and fails inside a
loop over what it gave. -/
theorem reading_bodies_keep_store_of_failure :
    let world : World := ⟨(Store.empty.create "User" [("name", .str "Ada")]).2, #[], 0⟩
    let user : Expr := .member (.identifier "db") "User"
    let body : List Stmt :=
      [.letBind "tools" (.object [("all", .member user "findAll")]),
        .letBind "rows" (.call (.member (.identifier "tools") "all") []),
        .forEach "row" (.identifier "rows")
          [.expression (.call (.identifier "log") [.member (.identifier "row") "name"]),
            .expression (.identifier "missing")]]
    let done := (Machine.start [("role", .str "admin")] world).runBody body
    (∀ name ∈ Stmt.propertiesAll body, name ∉ ["create", "update", "delete"]) ∧
      done.1 = .error ⟨[2, 1], "expression", .unbound "missing"⟩ ∧ done.2.world.store = world.store := by
  intro world user body done
  have hbody : ∀ name ∈ Stmt.propertiesAll body, name ∉ ["create", "update", "delete"] := by decide
  have hfailed : ((Machine.start [("role", .str "admin")] world).runBody body).1 =
      .error ⟨[2, 1], "expression", .unbound "missing"⟩ := by
    cbv
  refine ⟨hbody, hfailed, ?_⟩
  refine reading_bodies_keep_store body _ world hbody ?_ ?_
  · rintro entry hentry f hf
    rw [List.mem_singleton.mp hentry] at hf
    cases hf
  -- The only record of the heap has a text in its only field.
  · rintro entity ⟨index⟩ - f ⟨⟩
    next entry hentry hf =>
      cases index with
      | zero =>
        rw [List.mem_singleton.mp hentry] at hf
        cases hf
      | succ index => cases hentry

end ServiceEngine
