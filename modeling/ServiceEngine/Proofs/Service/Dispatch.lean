import Mathlib
import ServiceEngine.Proofs.Service.Influence
import ServiceEngine.Proofs.Service.Patterns

/-!
# Answering requests

Which endpoint answers a request, and what its body sees.

1. A request fits an endpoint if it spells its method, in any letter case, and the endpoint's pattern matches what
   stands before the first question mark (`Route.Fits`). The first endpoint that it fits is chosen (`Route.Chosen`),
   and `Route.resolve?` finds just this one (`Route.resolve?_eq_some_iff`).
2. Five sources give meaning to names: captured parts, the query, the whole body, its fields, and the built-in names.
   `Route.visible?` lists them in the order in which they count, and the root frame follows it
   (`Route.get?_start_bindings`).
3. A body runs alike in all root frames in which names mean the same (`Engine.runBody_congr_root`), so that the answer
   to a request is determined by these two (`Engine.requests_go_to_first_match`).
-/

namespace ServiceEngine

/-! ## Methods -/

namespace Method

/-- The text is the name of the method, each letter in upper or lower case. -/
def Spells (m : Method) (text : String) : Prop :=
  List.Forall₂ (fun c letter => c = letter ∨ c = letter.toLower) text.toList m.name.toList

/-- A capital comes from itself and from its small letter. -/
theorem toUpper_eq_iff {c letter : Char} (hletter : letter.isLower = false) :
    c.toUpper = letter ↔ c = letter ∨ c = letter.toLower := by
  have hfixed : letter.toUpper = letter := Char.toUpper_eq_of_not_isLower (by simp [hletter])
  constructor
  · rintro rfl
    by_cases hc : c.isLower = true
    · right
      have hupper : ¬ c.isUpper = true := Char.not_isUpper_of_isLower hc
      rw [Char.toLower_toUpper_eq_toLower, Char.toLower_eq_of_not_isUpper hupper]
    · left
      exact (Char.toUpper_eq_of_not_isLower hc).symm
  · rintro (rfl | rfl)
    · exact hfixed
    · rw [Char.toUpper_toLower_eq_toUpper, hfixed]

/-- A method is spelled by the texts that are its name in capitals. -/
theorem spells_iff {m : Method} {text : String} : m.Spells text ↔ text.toList.map Char.toUpper = m.name.toList := by
  -- Names of methods are written in capitals.
  have hcapitals : ∀ letter ∈ m.name.toList, (!letter.isLower) = true := by
    cases m <;> exact List.all_eq_true.mp (by decide)
  rw [Spells, ← List.forall₂_eq_eq_eq, List.forall₂_map_left_iff]
  generalize m.name.toList = letters at hcapitals
  generalize text.toList = cs
  induction letters generalizing cs with
  | nil => simp
  | cons letter letters ih =>
    obtain ⟨hletter, hletters⟩ := List.forall_mem_cons.mp hcapitals
    cases cs with
    | nil => simp
    | cons c cs =>
      rw [List.forall₂_cons, List.forall₂_cons, toUpper_eq_iff (by simpa using hletter)]
      exact and_congr_right fun _ => ih hletters cs

/-- A method is found by its name in any letter case, and by no other text. -/
theorem ofName?_eq_some_iff {text : String} {m : Method} : ofName? text = some m ↔ m.Spells text := by
  rw [spells_iff]
  constructor
  · intro h
    have hname := List.find?_some h
    exact (of_decide_eq_true hname).symm
  · intro h
    unfold ofName?
    rw [h]
    -- No two methods have the same name.
    cases m <;> decide

end Method

/-! ## The endpoint that answers -/

namespace Route

/-- What stands before the first question mark. -/
def pathOf (target : String) : String := String.ofList (target.toList.takeWhile (· ≠ '?'))

/-- What stands behind the first question mark. -/
def queryOf (target : String) : List Char := (target.toList.dropWhile (· ≠ '?')).tail

/-- Characters before the first question mark are not question marks. -/
theorem ne_of_notMem {cs : List Char} (h : '?' ∉ cs) : ∀ c ∈ cs, decide (c ≠ '?') = true :=
  fun _ hc => decide_eq_true (fun heq => h (heq ▸ hc))

/-- A target is split at its first question mark. -/
theorem splitTarget_eq (target : String) : splitTarget target = (pathOf target, queryOf target) := by
  unfold splitTarget pathOf queryOf
  split
  case h_1 path query hcut =>
    obtain ⟨hpath, heq⟩ := Text.cut?_eq_some_iff.mp hcut
    rw [heq, List.takeWhile_append_of_pos (ne_of_notMem hpath), List.dropWhile_append_of_pos (ne_of_notMem hpath)]
    simp
  case h_2 hcut =>
    have hnone := ne_of_notMem (Text.cut?_eq_none_iff.mp hcut)
    rw [List.takeWhile_eq_self_iff.mpr hnone, List.dropWhile_eq_nil_iff.mpr hnone, String.ofList_toList]
    rfl

/-- A request fits an endpoint: it spells the method, and the pattern matches the path and captures these parts. -/
structure Fits (method target : String) (endpoint : Endpoint) (captured : List (String × String)) : Prop where
  spelled : endpoint.method.Spells method
  matched : Segment.Captures (segments endpoint.path) (parts (pathOf target)) captured

/-- The first endpoint that a request fits, in the order of the definitions, and what it captures. -/
structure Chosen (endpoints : List Endpoint) (method target : String) (endpoint : Endpoint)
    (captured : List (String × String)) : Prop where
  first : ∃ before after, endpoints = before ++ endpoint :: after ∧
    ∀ other ∈ before, ∀ captured, ¬ Fits method target other captured
  fits : Fits method target endpoint captured

/-- What one endpoint has for a request. -/
def attempt? (method target : String) (body : Option Json) (endpoint : Endpoint) :
    Option (Endpoint × Fields Value) :=
  if Method.ofName? method = some endpoint.method then
    (captures? endpoint.path (pathOf target)).map (fun captured =>
      (endpoint, bindings body (queryOf target) captured))
  else none

section

variable {endpoints : List Endpoint} {method target : String} {body : Option Json}

/-- The endpoints are tried in their order. -/
theorem resolve?_eq_findSome? :
    resolve? endpoints method target body = endpoints.findSome? (attempt? method target body) := by
  unfold resolve? attempt?
  rw [splitTarget_eq]
  cases Method.ofName? method with
  | none =>
    symm
    simp
  | some m => simp [eq_comm]

theorem attempt?_eq_some_iff {endpoint : Endpoint} {found : Endpoint × Fields Value} :
    attempt? method target body endpoint = some found ↔
      ∃ captured, Fits method target endpoint captured ∧
        (endpoint, bindings body (queryOf target) captured) = found := by
  unfold attempt?
  split
  case isTrue hmethod =>
    simp only [Option.map_eq_some_iff, captures?_eq_some_iff]
    constructor
    · rintro ⟨captured, hmatched, rfl⟩
      exact ⟨captured, ⟨Method.ofName?_eq_some_iff.mp hmethod, hmatched⟩, rfl⟩
    · rintro ⟨captured, hfits, rfl⟩
      exact ⟨captured, hfits.matched, rfl⟩
  case isFalse hmethod =>
    refine iff_of_false (by simp) ?_
    rintro ⟨captured, hfits, -⟩
    exact hmethod (Method.ofName?_eq_some_iff.mpr hfits.spelled)

/-- An endpoint has nothing for a request that does not fit it. -/
theorem attempt?_eq_none_iff {endpoint : Endpoint} :
    attempt? method target body endpoint = none ↔ ∀ captured, ¬ Fits method target endpoint captured := by
  rw [Option.eq_none_iff_forall_ne_some]
  constructor
  · intro h captured hfits
    exact h _ (attempt?_eq_some_iff.mpr ⟨captured, hfits, rfl⟩)
  · intro h found hfound
    obtain ⟨captured, hfits, -⟩ := attempt?_eq_some_iff.mp hfound
    exact h captured hfits

/-- **A request is resolved to the first endpoint that it fits.** -/
theorem resolve?_eq_some_iff {endpoint : Endpoint} {vars : Fields Value} :
    resolve? endpoints method target body = some (endpoint, vars) ↔
      ∃ captured, Chosen endpoints method target endpoint captured ∧
        bindings body (queryOf target) captured = vars := by
  rw [resolve?_eq_findSome?, List.findSome?_eq_some_iff]
  simp only [attempt?_eq_some_iff, attempt?_eq_none_iff]
  constructor
  · rintro ⟨before, chosen, after, heq, ⟨captured, hfits, hfound⟩, hbefore⟩
    obtain ⟨rfl, rfl⟩ := Prod.mk.inj hfound
    exact ⟨captured, ⟨⟨before, after, heq, hbefore⟩, hfits⟩, rfl⟩
  · rintro ⟨captured, ⟨⟨before, after, heq, hbefore⟩, hfits⟩, rfl⟩
    exact ⟨before, endpoint, after, heq, ⟨captured, hfits, rfl⟩, hbefore⟩

theorem resolve?_eq_none_iff :
    resolve? endpoints method target body = none ↔
      ∀ endpoint ∈ endpoints, ∀ captured, ¬ Fits method target endpoint captured := by
  rw [resolve?_eq_findSome?, List.findSome?_eq_none_iff]
  simp only [attempt?_eq_none_iff]

end

end Route

/-! ## What names mean -/

/-- The value of a built-in name. -/
def Machine.builtin? (name : String) : Option Value :=
  if name = "db" then some .db
  else if name = "log" then some (.func .log)
  else if name = "now" then some (.func .now)
  else none

/-- A built-in name means its built-in value, unless it is bound. -/
theorem Machine.get?_withBuiltins (vars : Fields Value) (name : String) :
    (withBuiltins vars).get? name = (vars.get? name).or (builtin? name) := by
  unfold withBuiltins builtin?
  simp only [Fields.get?_insertIfNew, Option.or_assoc]
  congr 1
  by_cases hdb : name = "db"
  · subst hdb
    rfl
  · by_cases hlog : name = "log"
    · subst hlog
      rfl
    · simp [Ne.symm hdb, Ne.symm hlog, hdb, hlog, eq_comm]

theorem Scope.get?_ofVars (vars : Fields Value) (name : String) : (ofVars vars).get? root name = vars.get? name := by
  have hvisit : (ofVars vars).visit name root = .stop (if vars.contains name then some root else none) :=
    -- There is one frame, so the search for a name ends in it.
    (apply_ite Visit.stop ..).symm
  have howner : (ofVars vars).owner? root name = if vars.contains name then some root else none := by
    rw [owner?, seek, hvisit]
  have hframe : (ofVars vars).frame? root = some ⟨vars, none⟩ := rfl
  rw [Scope.get?, howner, Fields.contains]
  cases hname : vars.get? name with
  | none => simp
  | some value => simp [hframe, hname]

theorem Machine.get?_start (vars : Fields Value) (world : World) (name : String) :
    (start vars world).get? name = (vars.get? name).or (builtin? name) :=
  (Scope.get?_ofVars _ name).trans (get?_withBuiltins vars name)

theorem Machine.withBuiltins_withBuiltins (vars : Fields Value) :
    withBuiltins (withBuiltins vars) = withBuiltins vars := by
  have hbound : ∀ name value, (builtin? name).isSome →
      (withBuiltins vars).insertIfNew name value = withBuiltins vars := by
    intro name value hname
    apply if_pos
    rw [Fields.contains, get?_withBuiltins, Option.isSome_or, hname, Bool.or_true]
  rw [withBuiltins, hbound "db" _ rfl, hbound "log" _ rfl, hbound "now" _ rfl]

/-- **A body runs alike in all root frames in which names mean the same.** -/
theorem Engine.runBody_congr_root (e : Engine) {vars vars' : Fields Value} {world : World}
    (h : ∀ name, (Machine.start vars world).get? name = (Machine.start vars' world).get? name)
    (body : List Stmt) : e.runBody vars body = e.runBody vars' body := by
  -- With the built-in names bound beforehand, the bindings are all that names can mean.
  have hstart : ∀ vars, e.runBody (Machine.withBuiltins vars) body = e.runBody vars body := by
    intro vars
    unfold Engine.runBody Machine.start
    rw [Machine.withBuiltins_withBuiltins]
  rw [← hstart vars, ← hstart vars']
  apply Engine.runBody_congr
  intro name _
  rw [Machine.get?_withBuiltins, Machine.get?_withBuiltins, ← Machine.get?_start vars world,
    ← Machine.get?_start vars' world]
  exact h name

namespace Route

/-- What a name means to the body of an endpoint: the last part captured under it, else the query or the whole body,
else the field of the body, else the built-in. -/
def visible? (body : Option Json) (query : List Char) (captured : List (String × String)) (name : String) :
    Option Value :=
  match Fields.last? captured name with
  | some part => some (.str part)
  | none =>
    if name = "query" then some (.obj (Route.query query))
    else if name = "body" then some (wholeBody body)
    else match body.bind (·.member? name) with
      | some field => some (Value.ofJson field)
      | none => Machine.builtin? name

/-- The field of a body is the member of the JSON object. -/
theorem get?_bodyFields (body : Option Json) (name : String) :
    (bodyFields body).get? name = (body.bind (·.member? name)).map Value.ofJson := by
  rcases body with _ | _ | _ | _ | _ | _ | members
  case some.object =>
    show Fields.get? (Value.ofMembers members) name = (Fields.get? members name).map Value.ofJson
    induction members with
    | nil => rfl
    | cons member members ih =>
      obtain ⟨key, value⟩ := member
      by_cases hkey : key = name
      · simp [Value.ofMembers, Fields.get?, hkey]
      · simp [Value.ofMembers, Fields.get?, hkey, ih]
  all_goals rfl

/-- Captured parts come before the query and the whole body, and these before the fields. -/
theorem get?_bindings (body : Option Json) (query : List Char) (captured : List (String × String)) (name : String) :
    (bindings body query captured).get? name =
      ((Fields.last? captured name).map .str).or
        (if name = "query" then some (.obj (Route.query query))
        else if name = "body" then some (wholeBody body)
        else (body.bind (·.member? name)).map Value.ofJson) := by
  rw [bindings_eq, Fields.get?_merge_last, Fields.last?_mapValues, Fields.get?_insert, Fields.get?_insert,
    get?_bodyFields]
  simp only [eq_comm]

/-- The root frame of an endpoint's body gives each name its meaning. -/
theorem get?_start_bindings (body : Option Json) (query : List Char) (captured : List (String × String))
    (world : World) (name : String) :
    (Machine.start (bindings body query captured) world).get? name = visible? body query captured name := by
  rw [Machine.get?_start, get?_bindings, visible?]
  -- From the name that counts most to the one that counts least.
  cases Fields.last? captured name with
  | some part => rfl
  | none =>
    by_cases hquery : name = "query"
    · simp [hquery]
    · by_cases hbody : name = "body"
      · simp [hbody]
      · cases hfield : body.bind (·.member? name) <;> simp [hquery, hbody]

/-- A root frame with these bindings gives each name this meaning. -/
def Means (vars : Fields Value) (meaning : String → Option Value) : Prop :=
  ∀ world name, (Machine.start vars world).get? name = meaning name

theorem means_bindings (body : Option Json) (query : List Char) (captured : List (String × String)) :
    Means (bindings body query captured) (visible? body query captured) :=
  fun world => get?_start_bindings body query captured world

/-- No endpoint answers a request: it spells none of the methods, or no endpoint of its method matches its path. -/
def Unanswered (endpoints : List Endpoint) (method target : String) : Prop :=
  (∀ m : Method, ¬ m.Spells method) ∨ ∀ endpoint ∈ endpoints, endpoint.method.Spells method →
    ∀ captured, ¬ Segment.Captures (segments endpoint.path) (parts (pathOf target)) captured

/-- No endpoint is found just if none answers. -/
theorem resolve?_eq_none_iff_unanswered {endpoints : List Endpoint} {method target : String} {body : Option Json} :
    resolve? endpoints method target body = none ↔ Unanswered endpoints method target := by
  rw [resolve?_eq_none_iff]
  constructor
  · intro h
    exact Or.inr fun endpoint hmem hspelled captured hmatched => h endpoint hmem captured ⟨hspelled, hmatched⟩
  · rintro (h | h) endpoint hmem captured hfits
    · exact h endpoint.method hfits.spelled
    · exact h endpoint hmem hfits.spelled captured hfits.matched

end Route

namespace Engine

open Route

/-- Nothing that a body does is reported as an endpoint that is not found. -/
theorem notFound_iff {e : Engine} {method target : String} {body : Option Json} :
    (∃ m p, (e.dispatch method target body).1 = .error (.endpointNotFound m p)) ↔
      resolve? e.endpoints method target body = none := by
  rw [dispatch]
  cases resolve? e.endpoints method target body with
  | none => simp
  -- The body of the endpoint may fail, but in another way.
  | some found =>
    refine iff_of_false ?_ nofun
    rintro ⟨m, p, h⟩
    rcases hrun : e.runBody found.2 found.1.body with ⟨_ | _, _⟩ <;> simp [hrun, answer] at h

/-- **A request goes to the first endpoint that it fits.** It is not found just if it spells none of the methods, or no
endpoint of its method has a pattern that matches what stands before the first question mark; nothing is changed then.
Otherwise there is a first endpoint that it fits, and the answer with all its effects is that of running the body of
this endpoint in a root frame, any root frame, in which each name means the last part captured under it, else, for
`query` and `body`, the query and the whole body, else the field of the body, else the built-in. -/
theorem requests_go_to_first_match (e : Engine) (method target : String) (body : Option Json) :
    ((∃ m p, (e.dispatch method target body).1 = .error (.endpointNotFound m p)) ↔
      Unanswered e.endpoints method target) ∧
    (Unanswered e.endpoints method target →
      e.dispatch method target body = (.error (.endpointNotFound method target), e)) ∧
    (¬ Unanswered e.endpoints method target →
      ∃ endpoint captured, Chosen e.endpoints method target endpoint captured) ∧
    ∀ endpoint captured, Chosen e.endpoints method target endpoint captured →
      (∃ vars, Means vars (visible? body (queryOf target) captured)) ∧
      ∀ vars, Means vars (visible? body (queryOf target) captured) →
        e.dispatch method target body = answer (e.runBody vars endpoint.body) := by
  refine ⟨notFound_iff.trans resolve?_eq_none_iff_unanswered, ?_, ?_, ?_⟩
  · intro h
    rw [dispatch, resolve?_eq_none_iff_unanswered.mpr h]
  · intro h
    have hne : resolve? e.endpoints method target body ≠ none := mt resolve?_eq_none_iff_unanswered.mp h
    obtain ⟨⟨endpoint, vars⟩, hresolve⟩ := Option.ne_none_iff_exists'.mp hne
    obtain ⟨captured, hchosen, -⟩ := resolve?_eq_some_iff.mp hresolve
    exact ⟨endpoint, captured, hchosen⟩
  · intro endpoint captured hchosen
    have hmeans := means_bindings body (queryOf target) captured
    refine ⟨⟨_, hmeans⟩, fun vars hvars => ?_⟩
    rw [dispatch, resolve?_eq_some_iff.mpr ⟨captured, hchosen, rfl⟩]
    -- The bindings of the request are one of the frames in which names mean this.
    show answer (e.runBody (bindings body (queryOf target) captured) endpoint.body) = _
    rw [runBody_congr_root e (fun name => (hmeans _ name).trans (hvars ⟨e.store, #[], e.now⟩ name).symm)]

/-- The second of three endpoints answers. Of the two parts captured as `id` the last counts, and it hides a field of
the body, while another field hides the built-in `db`. -/
theorem requests_go_to_first_match_of_repeated_name :
    let body : List Stmt := [.ret (some (.identifier "id"))]
    let endpoints : List Endpoint :=
      [⟨.get, "/a/:id/:id", [], none⟩, ⟨.post, "/a/:id/:id", body, none⟩, ⟨.post, "/a/:x/:y", [], none⟩]
    let e : Engine := ⟨true, endpoints, [], .idle, .empty, .fixed 0, 0, #[]⟩
    let request : Option Json := some (.object [("db", .null), ("id", .bool true)])
    let meaning := visible? request "q=1".toList [("id", "7"), ("id", "8")]
    Chosen endpoints "pOsT" "/a/7/8?q=1" ⟨.post, "/a/:id/:id", body, none⟩ [("id", "7"), ("id", "8")] ∧
      meaning "id" = some (.str "8") ∧ meaning "db" = some .null ∧ meaning "log" = some (.func .log) ∧
      ∃ vars, Means vars meaning ∧ e.dispatch "pOsT" "/a/7/8?q=1" request = answer (e.runBody vars body) := by
  intro body endpoints e request meaning
  have hchosen : Chosen endpoints "pOsT" "/a/7/8?q=1" ⟨.post, "/a/:id/:id", body, none⟩
      [("id", "7"), ("id", "8")] := by
    refine ⟨⟨[⟨.get, "/a/:id/:id", [], none⟩], [⟨.post, "/a/:x/:y", [], none⟩], rfl, ?_⟩, ?_, ?_⟩
    · rintro other hother captured ⟨hspelled, -⟩
      rw [List.mem_singleton.mp hother] at hspelled
      exact absurd (Method.ofName?_eq_some_iff.mpr hspelled) (by decide)
    · exact Method.ofName?_eq_some_iff.mp (by decide)
    · exact captures?_eq_some_iff.mp (by decide)
  obtain ⟨⟨vars, hvars⟩, hdispatch⟩ := (requests_go_to_first_match e "pOsT" "/a/7/8?q=1" request).2.2.2 _ _ hchosen
  exact ⟨hchosen, rfl, rfl, rfl, vars, hvars, hdispatch vars hvars⟩

end Engine

end ServiceEngine
