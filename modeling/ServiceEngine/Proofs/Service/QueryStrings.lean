import Mathlib
import ServiceEngine.Proofs.Service.Dispatch

/-!
# Query strings

A query is written as pairs `key=value` with `&` between them, and read by three cuts: the target at its first `?`, the
query at every `&`, and each pair at its first `=`. What is written is read again (`Route.query_eq_ofEntries`), so that
a request with a query goes where its path alone goes, and the body sees the pairs as `query`
(`Engine.query_strings_decode`).

A pattern may capture a part under the name `query`. A captured part counts more than anything else, and the body does
not see the pairs then (`Engine.captured_query_hides_pairs`).
-/

namespace ServiceEngine

namespace Route

/-! ## Writing and reading pairs -/

/-- A pair as it is written in a query. -/
def writePair (pair : String × String) : List Char := pair.1.toList ++ '=' :: pair.2.toList

/-- Pairs as they are written in a query. -/
def writePairs (pairs : List (String × String)) : List Char := ['&'].intercalate (pairs.map writePair)

/-- No character of a pair is taken for one that ends its key or its value. -/
structure Writable (pair : String × String) : Prop where
  key : '&' ∉ pair.1.toList ∧ '=' ∉ pair.1.toList
  value : '&' ∉ pair.2.toList

/-- A written pair is cut at its first `=`, and this one ends the key. -/
theorem Writable.queryPair_writePair {pair : String × String} (h : Writable pair) :
    queryPair (writePair pair) = (pair.1, .str pair.2) := by
  have hcut : Text.cut? '=' (writePair pair) = some (pair.1.toList, pair.2.toList) :=
    Text.cut?_eq_some_iff.mpr ⟨h.key.2, rfl⟩
  rw [queryPair, hcut]
  simp

/-- A written pair is one part between separators: it has none in it, and it is never empty. -/
theorem Writable.pieces_writePair {pair : String × String} (h : Writable pair) :
    Text.pieces (· = '&') (writePair pair) = [writePair pair] := by
  apply Text.pieces_of_notMem
  · simp [writePair]
  · simp [writePair, h.key.1, h.value]

/-- Written pairs are the parts between their separators. -/
theorem pieces_writePairs {pairs : List (String × String)} (h : ∀ pair ∈ pairs, Writable pair) :
    Text.pieces (· = '&') (writePairs pairs) = pairs.map writePair := by
  rw [writePairs, Text.pieces_intercalate, List.flatMap_map,
    List.flatMap_congr (fun pair hpair => (h pair hpair).pieces_writePair), List.map_eq_flatMap]

/-- **What is written in a query is read again**, whatever separators are added that separate nothing. -/
theorem query_eq_ofEntries {pairs : List (String × String)} (h : ∀ pair ∈ pairs, Writable pair) {text : List Char}
    (htext : Text.SameBetween '&' (writePairs pairs) text) :
    query text = Fields.ofEntries (pairs.map (fun pair => (pair.1, .str pair.2))) := by
  rw [query, ← htext.pieces_eq, pieces_writePairs h, List.map_map]
  congr 1
  exact List.map_congr_left (fun pair hpair => (h pair hpair).queryPair_writePair)

/-! ## Targets -/

theorem toList_target (path : String) (text : List Char) :
    (path ++ "?" ++ String.ofList text).toList = path.toList ++ '?' :: text := by
  simp

section

variable {path : String} (hpath : '?' ∉ path.toList)

include hpath

theorem pathOf_of_notMem : pathOf path = path := by
  rw [pathOf, List.takeWhile_eq_self_iff.mpr (ne_of_notMem hpath), String.ofList_toList]

/-- The path of a target is what stands before the query. -/
theorem pathOf_append (text : List Char) : pathOf (path ++ "?" ++ String.ofList text) = path := by
  rw [pathOf, toList_target, List.takeWhile_append_of_pos (ne_of_notMem hpath)]
  simp

theorem queryOf_append (text : List Char) : queryOf (path ++ "?" ++ String.ofList text) = text := by
  rw [queryOf, toList_target, List.dropWhile_append_of_pos (ne_of_notMem hpath)]
  simp

end

section

variable {endpoints : List Endpoint} {method target target' : String} {endpoint : Endpoint}
  {captured : List (String × String)} (h : pathOf target = pathOf target')

include h

theorem fits_congr : Fits method target endpoint captured ↔ Fits method target' endpoint captured := by
  constructor
  · rintro ⟨hspelled, hmatched⟩
    exact ⟨hspelled, h ▸ hmatched⟩
  · rintro ⟨hspelled, hmatched⟩
    exact ⟨hspelled, h ▸ hmatched⟩

theorem Chosen.congr (hchosen : Chosen endpoints method target endpoint captured) :
    Chosen endpoints method target' endpoint captured := by
  obtain ⟨⟨before, after, heq, hbefore⟩, hfits⟩ := hchosen
  refine ⟨⟨before, after, heq, ?_⟩, (fits_congr h).mp hfits⟩
  intro other hother captured hfits'
  exact hbefore other hother captured ((fits_congr h).mpr hfits')

theorem resolve?_eq_none_congr {body : Option Json} :
    resolve? endpoints method target body = none ↔ resolve? endpoints method target' body = none := by
  rw [resolve?_eq_none_iff, resolve?_eq_none_iff]
  simp only [fits_congr h]

end

/-- What a body sees under a name other than `query` does not depend on the query. -/
theorem get?_bindings_of_ne (body : Option Json) (query query' : List Char) (captured : List (String × String))
    {name : String} (hname : name ≠ "query") :
    (bindings body query captured).get? name = (bindings body query' captured).get? name := by
  rw [get?_bindings, get?_bindings, if_neg hname, if_neg hname]

/-- Under `query` a body sees the part captured under this name, or else the query. -/
theorem get?_bindings_query (body : Option Json) (query : List Char) (captured : List (String × String)) :
    (bindings body query captured).get? "query" =
      some (((Fields.ofEntries captured).get? "query").elim (.obj (Route.query query)) .str) := by
  rw [get?_bindings, Fields.get?_ofEntries]
  cases Fields.last? captured "query" <;> rfl

end Route

namespace Engine

open Route

/-- **Query strings decode what they encode.** For pairs whose keys have no `&` and no `=` and whose values have no `&`,
written as `key=value` with `&` between them and perhaps with separators that separate nothing, behind a path without
`?`: the request goes where the path alone goes, with the same meaning of every name but `query`, and is not found just
if the path alone is not. Under `query` the body sees the map of each key to the value of its last pair, unless the
pattern of the endpoint captures a part under this name: then it sees that part. -/
theorem query_strings_decode (e : Engine) (method path : String) (body : Option Json) (hpath : '?' ∉ path.toList)
    (pairs : List (String × String)) (hpairs : ∀ pair ∈ pairs, Writable pair) (text : List Char)
    (htext : Text.SameBetween '&' (writePairs pairs) text) :
    let target := path ++ "?" ++ String.ofList text
    (resolve? e.endpoints method path body = none → resolve? e.endpoints method target body = none ∧
      e.dispatch method target body = (.error (.endpointNotFound method target), e)) ∧
    ∀ endpoint alone, resolve? e.endpoints method path body = some (endpoint, alone) →
      ∃ captured vars values, captures? endpoint.path path = some captured ∧
        resolve? e.endpoints method target body = some (endpoint, vars) ∧
        e.dispatch method target body = answer (e.runBody vars endpoint.body) ∧
        (Fields.Sorted values ∧ ∀ key, values.get? key = (Fields.last? pairs key).map .str) ∧
        vars.get? "query" = some (((Fields.ofEntries captured).get? "query").elim (.obj values) .str) ∧
        ∀ name, name ≠ "query" → vars.get? name = alone.get? name := by
  intro target
  have hsame : pathOf target = pathOf path := by
    rw [pathOf_of_notMem hpath]
    exact pathOf_append hpath text
  constructor
  · intro hnone
    -- The path is the same, so no endpoint fits the target either.
    have hnone' : resolve? e.endpoints method target body = none := (resolve?_eq_none_congr hsame).mpr hnone
    refine ⟨hnone', ?_⟩
    rw [dispatch, hnone']
  · intro endpoint alone halone
    -- The same parts are captured with the query as without, so only what `query` is bound to can differ.
    obtain ⟨captured, hchosen, rfl⟩ := resolve?_eq_some_iff.mp halone
    have hcaptured : captures? endpoint.path path = some captured := by
      rw [captures?_eq_some_iff, ← pathOf_of_notMem hpath]
      exact hchosen.fits.matched
    have hresolve : resolve? e.endpoints method target body =
        some (endpoint, bindings body (queryOf target) captured) :=
      resolve?_eq_some_iff.mpr ⟨captured, hchosen.congr hsame.symm, rfl⟩
    have hvalues : query (queryOf target) = Fields.ofEntries (pairs.map (fun pair => (pair.1, .str pair.2))) := by
      rw [queryOf_append hpath text]
      exact query_eq_ofEntries hpairs htext
    refine ⟨captured, _, query (queryOf target), hcaptured, hresolve, ?_, ⟨?_, ?_⟩, ?_, ?_⟩
    · rw [dispatch, hresolve]
    · rw [hvalues]
      exact Fields.sorted_ofEntries _
    · intro key
      rw [hvalues, Fields.get?_ofEntries, Fields.last?_mapValues]
    · exact get?_bindings_query body _ captured
    · intro name hname
      exact get?_bindings_of_ne body _ _ captured hname

/-- A key that comes twice, an empty key, a value with separators in it, and two separators too many. -/
theorem query_strings_decode_of_repeated_key :
    let pairs := [("a", "1"), ("", "=?"), ("a", "2")]
    let endpoint : Endpoint := ⟨.get, "/s/:id", [.ret (some (.identifier "query"))], none⟩
    let e : Engine := ⟨true, [endpoint], [], .idle, .empty, .fixed 0, 0, #[]⟩
    (∀ pair ∈ pairs, Writable pair) ∧ Text.SameBetween '&' (writePairs pairs) "&a=1&&==?&a=2".toList ∧
      ∃ vars, ∃ values : Fields Value, resolve? e.endpoints "GET" "/s/x?&a=1&&==?&a=2" none = some (endpoint, vars) ∧
        vars.get? "query" = some (.obj values) ∧ vars.get? "id" = some (.str "x") ∧
        values.get? "a" = some (.str "2") ∧ values.get? "" = some (.str "=?") ∧ values.get? "b" = none := by
  intro pairs endpoint e
  have hpairs : ∀ pair ∈ pairs, Writable pair := by
    simp only [pairs, List.forall_mem_cons]
    exact ⟨⟨by decide, by decide⟩, ⟨by decide, by decide⟩, ⟨by decide, by decide⟩, nofun⟩
  have htext : Text.SameBetween '&' (writePairs pairs) "&a=1&&==?&a=2".toList :=
    .trans _ _ _ (.rel _ _ (.doubled "a=1".toList "==?&a=2".toList)) (.rel _ _ (.front "a=1&&==?&a=2".toList))
  have halone : resolve? e.endpoints "GET" "/s/x" none = some (endpoint, bindings none [] [("id", "x")]) := by cbv
  obtain ⟨captured, vars, values, hcaptured, hresolve, -, ⟨-, hvalues⟩, hquery, hothers⟩ :=
    (query_strings_decode e "GET" "/s/x" none (by decide) pairs hpairs _ htext).2 _ _ halone
  have hid : captures? endpoint.path "/s/x" = some [("id", "x")] := by decide
  obtain rfl : [("id", "x")] = captured := Option.some.inj (hid.symm.trans hcaptured)
  refine ⟨hpairs, htext, vars, values, hresolve, ?_, ?_, hvalues "a", hvalues "", hvalues "b"⟩
  · exact hquery
  · exact hothers "id" (by decide)

/-- A part that is captured as `query` is what the body sees, and not the pair of the query. -/
theorem captured_query_hides_pairs :
    let endpoint : Endpoint := ⟨.get, "/s/:query", [.ret (some (.identifier "query"))], none⟩
    let e : Engine := ⟨true, [endpoint], [], .idle, .empty, .fixed 0, 0, #[]⟩
    '?' ∉ "/s/x".toList ∧ Writable ("a", "1") ∧ "/s/x" ++ "?" ++ String.ofList (writePairs [("a", "1")]) = "/s/x?a=1" ∧
      query "a=1".toList = [("a", .str "1")] ∧
      (∃ vars, resolve? e.endpoints "GET" "/s/x?a=1" none = some (endpoint, vars) ∧
        vars.get? "query" = some (.str "x")) ∧
      (e.dispatch "GET" "/s/x?a=1" none).1 = .ok (.string "x") := by
  intro endpoint e
  have hresolve : resolve? e.endpoints "GET" "/s/x?a=1" none =
      some (endpoint, bindings none "a=1".toList [("query", "x")]) := by cbv
  refine ⟨by decide, ⟨by decide, by decide⟩, rfl, rfl, ⟨_, hresolve, rfl⟩, ?_⟩
  rw [dispatch, hresolve]
  cbv

end Engine

end ServiceEngine
