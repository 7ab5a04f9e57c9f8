import Mathlib
import ServiceEngine.Proofs.Exec.Agreement
import ServiceEngine.Service.Engine

/-!
# What can influence a body

A body depends on its bindings only through the names it reads. So the host may add any other names:
nothing that the run shows is changed by them, not even by one that hides a built-in name or has the
name of a loop's item. For an endpoint this says which parts of a request it can see at all.
-/

namespace ServiceEngine

/-! ## The root frame -/

theorem Machine.get?_withBuiltins_congr {vars vars' : Fields Value} {name : String}
    (h : vars.get? name = vars'.get? name) :
    (Machine.withBuiltins vars).get? name = (Machine.withBuiltins vars').get? name := by
  unfold Machine.withBuiltins
  simp only [Fields.get?_insertIfNew, h]

/-- Machines that start with bindings which agree on some names agree on them. -/
theorem Machine.agreeOn_start {names : List String} {vars vars' : Fields Value} (world : World)
    (h : ∀ name ∈ names, vars.get? name = vars'.get? name) :
    Machine.AgreeOn names (Machine.start vars world) (Machine.start vars' world) := by
  refine ⟨⟨rfl, ?_⟩, rfl⟩
  rintro ⟨_ | index⟩ name hname
  · exact Machine.get?_withBuiltins_congr (h name hname)
  -- There is only the root frame.
  · rfl

/-- **Runs that agree on the names of a body end alike.** -/
theorem Machine.runBody_agree {vars vars' : Fields Value} {body : List Stmt} (world : World)
    (h : ∀ name ∈ Stmt.namesAll body, vars.get? name = vars'.get? name) :
    ((Machine.start vars world).runBody body).1 = ((Machine.start vars' world).runBody body).1 ∧
      ((Machine.start vars world).runBody body).2.world =
        ((Machine.start vars' world).runBody body).2.world := by
  have hblock := Stmt.run_agree.2 body (List.Subset.refl _) Scope.root 0 _ _
    (Machine.agreeOn_start world h)
  obtain ⟨result, m, n, hm, hn, hagree⟩ := hblock.exists_end
  unfold Machine.runBody Machine.runBlock
  rw [hm, hn]
  rcases result with failure | (- | v) <;> exact ⟨rfl, hagree.world_eq⟩

/-! ## Requests -/

namespace Route

/-- The fields of a request's body; a body that is no object has none. -/
def bodyFields : Option Json → Fields Value
  | some (.object members) => Value.ofMembers members
  | _ => []

/-- The whole body of a request; null if there is none. -/
def wholeBody (request : Option Json) : Value := (request.map Value.ofJson).getD .null

/-- The bindings of a request: its body field by field, then the whole body, the query and what
the path captures. -/
theorem bindings_eq (request : Option Json) (query : List Char) (captured : List (String × String)) :
    bindings request query captured =
      (((bodyFields request).insert "body" (wholeBody request)).insert "query" (.obj (Route.query query))).merge
        (captured.map (fun (name, part) => (name, .str part))) := by
  -- One case for no body and one for each kind of JSON.
  rcases request with _ | _ | _ | _ | _ | _ | _ <;> rfl

/-- The body of a request reaches a name other than `body` only by its field of that name. -/
theorem get?_bindings_congr {request request' : Option Json} {name : String} (query : List Char)
    (captured : List (String × String)) (hname : name ≠ "body")
    (h : (bodyFields request).get? name = (bodyFields request').get? name) :
    (bindings request query captured).get? name = (bindings request' query captured).get? name := by
  rw [bindings_eq, bindings_eq]
  apply Fields.get?_merge_congr
  simp only [Fields.get?_insert, hname.symm, if_false, h]

/-- Which endpoint answers, and what is captured for it, does not depend on the body of a request. -/
theorem resolve?_eq_map (endpoints : List Endpoint) (method target : String) :
    ∃ choice : Option (Endpoint × List Char × List (String × String)), ∀ request,
      resolve? endpoints method target request =
        choice.map (fun (endpoint, query, captured) => (endpoint, bindings request query captured)) := by
  unfold resolve?
  cases Method.ofName? method with
  | none => exact ⟨none, fun _ => rfl⟩
  | some method =>
    obtain ⟨path, query⟩ := splitTarget target
    refine ⟨endpoints.findSome? (fun endpoint =>
      if endpoint.method = method then
        (captures? endpoint.path path).map (fun captured => (endpoint, query, captured))
      else none), fun request => ?_⟩
    -- The body of the request comes in only after the choice.
    rw [List.map_findSome?]
    simp only [Option.bind_eq_bind, Option.bind_some]
    congr 1
    funext endpoint
    by_cases hmethod : endpoint.method = method
    · simp [hmethod, Function.comp_def]
    · simp [hmethod]

end Route

namespace Engine

/-- An engine takes from a run of a body its result and its world, and nothing else. -/
theorem runBody_congr (e : Engine) {vars vars' : Fields Value} {body : List Stmt}
    (h : ∀ name ∈ Stmt.namesAll body, vars.get? name = vars'.get? name) :
    e.runBody vars body = e.runBody vars' body := by
  obtain ⟨hresult, hworld⟩ := Machine.runBody_agree ⟨e.store, #[], e.now⟩ h
  unfold Engine.runBody
  simp only [hresult, hworld]

end Engine

/-- **A body depends only on the bindings it names.** Run from the same world with two sets of bindings
that agree on every identifier and every assigned name of the body, it gives the same value, or the same
failure with path and label, and leaves the same world: store, events and log. So an endpoint that does
not name `body` gives the same answer to two requests, and leaves the same engine, when their bodies
agree on the fields that it names. -/
theorem body_depends_only_on_named_bindings (body : List Stmt) :
    (∀ (vars vars' : Fields Value) (world : World),
      (∀ name ∈ Stmt.namesAll body, vars.get? name = vars'.get? name) →
      ((Machine.start vars world).runBody body).1 = ((Machine.start vars' world).runBody body).1 ∧
        ((Machine.start vars world).runBody body).2.world =
          ((Machine.start vars' world).runBody body).2.world) ∧
    ∀ (e : Engine) (method target : String) (request request' : Option Json),
      (∀ endpoint vars, Route.resolve? e.endpoints method target request = some (endpoint, vars) →
        endpoint.body = body) →
      "body" ∉ Stmt.namesAll body →
      (∀ name ∈ Stmt.namesAll body,
        (Route.bodyFields request).get? name = (Route.bodyFields request').get? name) →
      e.dispatch method target request = e.dispatch method target request' := by
  refine ⟨fun vars vars' world h => Machine.runBody_agree world h, ?_⟩
  intro e method target request request' hendpoint hbody hfields
  obtain ⟨choice, hchoice⟩ := Route.resolve?_eq_map e.endpoints method target
  unfold Engine.dispatch
  rw [hchoice] at hendpoint
  rw [hchoice, hchoice]
  cases choice with
  | none => rfl
  | some found =>
    obtain ⟨endpoint, query, captured⟩ := found
    obtain rfl : endpoint.body = body := hendpoint endpoint _ rfl
    simp only [Option.map_some]
    congr 1
    apply Engine.runBody_congr
    intro name hname
    -- The name `body` is excluded, and for all others only the fields count.
    have hne : name ≠ "body" := fun heq => hbody (heq ▸ hname)
    exact Route.get?_bindings_congr query captured hne (hfields name hname)

/-- A body that loops over `xs` is not influenced by a binding that hides `db`, and an endpoint with this
body answers a request in the same way whether or not its body has a field `db`. -/
theorem body_depends_only_on_named_bindings_hidden_db :
    let body : List Stmt := [.forEach "x" (.identifier "xs") [.ret (some (.identifier "x"))]]
    let e : Engine := ⟨true, [⟨.post, "/first", body, none⟩], [], .idle, .empty, .fixed 0, 0, #[]⟩
    let run := fun vars => (Machine.start vars ⟨.empty, #[], 0⟩).runBody body
    (run [("xs", .list [.bool true])]).1 = .ok (.bool true) ∧
      (run [("db", .null), ("xs", .list [.bool true])]).1 = .ok (.bool true) ∧
      e.dispatch "post" "/first" (some (.object [("xs", .array [.bool true])])) =
        e.dispatch "post" "/first" (some (.object [("db", .null), ("xs", .array [.bool true])])) := by
  intro body e run
  have hnames : Stmt.namesAll body = ["xs", "x"] := by rfl
  obtain ⟨hruns, hrequests⟩ := body_depends_only_on_named_bindings body
  have hsame := hruns [("xs", .list [.bool true])] [("db", .null), ("xs", .list [.bool true])]
    ⟨.empty, #[], 0⟩ (by rw [hnames]; simp [Fields.get?])
  have hfirst : ((Machine.start [("xs", .list [.bool true])] ⟨.empty, #[], 0⟩).runBody body).1 =
      .ok (.bool true) := by
    cbv
  refine ⟨hfirst, hsame.1.symm.trans hfirst, ?_⟩
  refine hrequests e "post" "/first" _ _ ?_ (by rw [hnames]; simp) ?_
  · intro endpoint vars hresolve
    have hchosen : (Route.resolve? e.endpoints "post" "/first"
        (some (.object [("xs", .array [.bool true])]))).map (fun found => found.1.body) = some body := by
      cbv
    rw [hresolve] at hchosen
    exact Option.some.inj hchosen
  · rw [hnames]
    simp [Route.bodyFields, Value.ofMembers, Fields.get?]

end ServiceEngine
