import Mathlib
import ServiceEngine.Proofs.Text.Words
import ServiceEngine.Service.Route

/-!
# Path patterns

A pattern is a path with names in it, and a path that it matches is the pattern with a text for each name.

1. `Segment.Captures` says what a list of segments captures from the parts of a path, one rule for each kind of
   segment; it is what `Segment.capture` computes (`Segment.capture_eq_some_iff`).
2. Captured parts become a map in which the last entry of a name counts (`Fields.get?_ofEntries`).
3. Writing texts into a pattern and matching it are inverse to each other (`Route.patterns_capture_what_they_spell`).
-/

namespace ServiceEngine

/-! ## The last entry of a name -/

namespace Fields

variable {α : Type}

/-- The value of the last entry of a name. -/
def last? (entries : List (String × α)) (name : String) : Option α :=
  (entries.filter (fun entry => entry.1 = name)).getLast?.map Prod.snd

theorem last?_cons (entry : String × α) (entries : List (String × α)) (name : String) :
    last? (entry :: entries) name =
      (last? entries name).or (if entry.1 = name then some entry.2 else none) := by
  by_cases hname : entry.1 = name
  · rw [last?, List.filter_cons_of_pos (by simpa using hname), List.getLast?_cons, if_pos hname, last?]
    cases (entries.filter (fun entry => entry.1 = name)).getLast? <;> rfl
  · rw [last?, List.filter_cons_of_neg (by simpa using hname), if_neg hname, Option.or_none, last?]

/-- A lookup after writes finds the last of them, or what was there before. -/
theorem get?_merge_last (base : Fields α) (entries : List (String × α)) (name : String) :
    (base.merge entries).get? name = (last? entries name).or (base.get? name) := by
  induction entries generalizing base with
  | nil => rfl
  | cons entry entries ih =>
    rw [merge, List.foldl_cons, ← merge, ih, get?_insert, last?_cons, Option.or_assoc]
    by_cases hname : entry.1 = name <;> simp [hname]

theorem get?_ofEntries (entries : List (String × α)) (name : String) :
    (ofEntries entries).get? name = last? entries name := by
  rw [ofEntries, get?_merge_last, get?_nil, Option.or_none]

theorem last?_mapValues {β : Type} (f : α → β) (entries : List (String × α)) (name : String) :
    last? (entries.map (fun entry => (entry.1, f entry.2))) name = (last? entries name).map f := by
  induction entries with
  | nil => rfl
  | cons entry entries ih =>
    rw [List.map_cons, last?_cons, last?_cons, ih]
    cases last? entries name with
    | some value => rfl
    | none => by_cases hname : entry.1 = name <;> simp [hname]

/-- Entries whose values depend on their names only. -/
theorem last?_map_names (value : String → α) (names : List String) (name : String) :
    last? (names.map (fun name => (name, value name))) name =
      if name ∈ names then some (value name) else none := by
  induction names with
  | nil => rfl
  | cons first rest ih =>
    rw [List.map_cons, last?_cons, ih]
    by_cases hrest : name ∈ rest
    · simp [hrest]
    · by_cases hfirst : first = name
      · simp [hrest, hfirst]
      · simp [hrest, hfirst, Ne.symm hfirst]

theorem last?_eq_none_iff {entries : List (String × α)} {name : String} :
    last? entries name = none ↔ name ∉ entries.map Prod.fst := by
  rw [last?, Option.map_eq_none_iff, List.getLast?_eq_none_iff, List.filter_eq_nil_iff, List.mem_map]
  simp only [decide_eq_true_eq, not_exists, not_and]

/-- Where no name repeats, every entry is the last of its name. -/
theorem last?_of_mem {entries : List (String × α)} (hnodup : (entries.map Prod.fst).Nodup) {name : String}
    {value : α} (hmem : (name, value) ∈ entries) : last? entries name = some value := by
  induction entries with
  | nil => cases hmem
  | cons entry entries ih =>
    obtain ⟨hfirst, hrest⟩ := List.nodup_cons.mp hnodup
    rw [last?_cons]
    rcases List.mem_cons.mp hmem with rfl | hmem
    · rw [last?_eq_none_iff.mpr hfirst]
      simp
    · rw [ih hrest hmem]
      rfl

end Fields

/-! ## Segments -/

namespace Segment

/-- What segments capture from parts: a literal stands for itself, and a name captures the part in its place. -/
inductive Captures : List Segment → List String → List (String × String) → Prop where
  | nil : Captures [] [] []
  | literal {segments : List Segment} {parts : List String} {captured : List (String × String)} (text : String)
      (h : Captures segments parts captured) : Captures (.literal text :: segments) (text :: parts) captured
  | param {segments : List Segment} {parts : List String} {captured : List (String × String)} (name part : String)
      (h : Captures segments parts captured) :
      Captures (.param name :: segments) (part :: parts) ((name, part) :: captured)

/-- **What is computed is what the rules say.** -/
theorem capture_eq_some_iff {segments : List Segment} {parts : List String} {captured : List (String × String)} :
    capture segments parts = some captured ↔ Captures segments parts captured := by
  constructor
  · intro h
    -- Along the segments and the parts at once, as they are consumed.
    fun_induction capture segments parts generalizing captured with
    | case1 =>
      cases h
      exact .nil
    | case2 segments part parts ih => exact .literal part (ih h)
    | case3 => cases h
    | case4 name segments part parts ih =>
      obtain ⟨rest, hrest, rfl⟩ := Option.map_eq_some_iff.mp h
      exact .param name part (ih hrest)
    | case5 => cases h
  · intro h
    induction h with
    | nil => rfl
    | literal text _ ih => simpa [capture] using ih
    | param name part _ ih => simp [capture, ih]

/-- The name of a segment that captures. -/
def name? : Segment → Option String
  | .literal _ => none
  | .param name => some name

/-- The part that a segment becomes when its name stands for a text. -/
def fill (value : String → String) : Segment → String
  | .literal text => text
  | .param name => value name

/-- The part that a segment becomes by a map of names. -/
def spelled? (values : Fields String) : Segment → Option String
  | .literal text => some text
  | .param name => values.get? name

/-- The captured names are those of the segments, in their order. -/
theorem Captures.names {segments : List Segment} {parts : List String} {captured : List (String × String)}
    (h : Captures segments parts captured) : captured.map Prod.fst = segments.filterMap name? := by
  induction h with
  | nil => rfl
  | literal text _ ih => exact ih
  | param name part _ ih => simp [name?, ih]

/-- What the segments become when names stand for texts is captured as these texts. -/
theorem captures_fill (value : String → String) (segments : List Segment) :
    Captures segments (segments.map (fill value))
      ((segments.filterMap name?).map (fun name => (name, value name))) := by
  induction segments with
  | nil => exact .nil
  | cons segment segments ih =>
    cases segment with
    | literal text => exact .literal text ih
    | param name => exact .param name (value name) ih

/-- A map that has all the captured parts spells the parts of the path. -/
theorem Captures.map_spelled? {segments : List Segment} {parts : List String} {captured : List (String × String)}
    (h : Captures segments parts captured) {values : Fields String}
    (hvalues : ∀ entry ∈ captured, values.get? entry.1 = some entry.2) :
    segments.map (spelled? values) = parts.map some := by
  induction h with
  | nil => rfl
  | literal text _ ih => rw [List.map_cons, List.map_cons, ih hvalues, spelled?]
  | param name part _ ih =>
    obtain ⟨hfirst, hrest⟩ := List.forall_mem_cons.mp hvalues
    rw [List.map_cons, List.map_cons, ih hrest, spelled?, hfirst]

end Segment

/-! ## Patterns and paths -/

namespace Route

/-- The names of a pattern, in its order. -/
def params (pattern : String) : List String := (segments pattern).filterMap Segment.name?

/-- The path that a pattern becomes: between its slashes each name is replaced by its text. -/
def fill (value : String → String) (pattern : String) : String :=
  String.ofList (['/'].intercalate ((Text.splitBy (· = '/') pattern.toList).map
    (fun part => ((Segment.ofPart (String.ofList part)).fill value).toList)))

theorem captures?_eq_some_iff {pattern path : String} {captured : List (String × String)} :
    captures? pattern path = some captured ↔ Segment.Captures (segments pattern) (parts path) captured :=
  Segment.capture_eq_some_iff

/-- Slashes that change no part between them change nothing. -/
theorem parts_congr {path path' : String} (h : Text.SameBetween '/' path.toList path'.toList) :
    parts path = parts path' := by
  rw [parts, parts, h.pieces_eq]

/-- What becomes of the text between two slashes is one part again, or nothing if there was nothing. -/
theorem pieces_fill {value : String → String} {part : List Char} (hpart : '/' ∉ part)
    (hvalue : ∀ name, (Segment.ofPart (String.ofList part)).name? = some name →
      value name ≠ "" ∧ '/' ∉ (value name).toList) :
    Text.pieces (· = '/') ((Segment.ofPart (String.ofList part)).fill value).toList =
      if part = [] then [] else [((Segment.ofPart (String.ofList part)).fill value).toList] := by
  by_cases hempty : part = []
  · subst hempty
    rfl
  · rw [if_neg hempty]
    cases hsegment : Segment.ofPart (String.ofList part) with
    | literal text =>
      -- A literal is the part itself.
      have htext : text = String.ofList part := by
        unfold Segment.ofPart at hsegment
        split at hsegment <;> cases hsegment
        rfl
      rw [Segment.fill, htext, String.toList_ofList]
      exact Text.pieces_of_notMem hempty hpart
    | param name =>
      obtain ⟨hne, hslash⟩ := hvalue name (by rw [hsegment]; rfl)
      exact Text.pieces_of_notMem (fun h => hne (String.toList_eq_nil_iff.mp h)) hslash

/-- A name between two slashes of a pattern is one of its names. -/
theorem mem_params {pattern name : String} {part : List Char}
    (hpart : part ∈ Text.splitBy (· = '/') pattern.toList)
    (hname : (Segment.ofPart (String.ofList part)).name? = some name) : name ∈ params pattern := by
  have hne : part ≠ [] := by
    rintro rfl
    cases hname
  have hpiece : part ∈ Text.pieces (· = '/') pattern.toList := List.mem_filter.mpr ⟨hpart, by simpa using hne⟩
  exact List.mem_filterMap.mpr ⟨_, List.mem_map_of_mem (List.mem_map_of_mem hpiece), hname⟩

/-- The parts of the path that a pattern becomes are its segments with their texts. -/
theorem parts_fill {value : String → String} {pattern : String}
    (hvalue : ∀ name ∈ params pattern, value name ≠ "" ∧ '/' ∉ (value name).toList) :
    parts (fill value pattern) = (segments pattern).map (Segment.fill value) := by
  have hpieces : ∀ part ∈ Text.splitBy (· = '/') pattern.toList, _ := fun part hpart =>
    pieces_fill (Text.notMem_of_mem_splitBy hpart) (fun name hname => hvalue name (mem_params hpart hname))
  -- The texts that are not empty keep their places.
  have hkept : ∀ (f : List Char → List Char) (texts : List (List Char)),
      texts.flatMap (fun part => if part = [] then [] else [f part]) =
        (texts.filter (fun part => !part.isEmpty)).map f := by
    intro f texts
    induction texts with
    | nil => rfl
    | cons part rest ih => by_cases hempty : part = [] <;> simp [hempty, ih]
  rw [parts, fill, String.toList_ofList, Text.pieces_intercalate, List.flatMap_map, List.flatMap_congr hpieces, hkept,
    segments, parts, Text.pieces]
  simp [Function.comp_def]

/-- **Patterns and what they capture are inverse.** For every pattern and every choice of texts for its names, none
empty or with a slash, the path that the pattern becomes is matched, and the names are captured with just these texts.
Conversely, if no name repeats and a path is matched, the captured texts turn the segments of the pattern into the
non-empty parts of the path. Slashes in front, behind or beside each other, in the pattern or in the path, change
nothing. -/
theorem patterns_capture_what_they_spell (pattern : String) :
    (∀ value : String → String, (∀ name ∈ params pattern, value name ≠ "" ∧ '/' ∉ (value name).toList) →
      ∃ captured, captures? pattern (fill value pattern) = some captured ∧
        ∀ name, (Fields.ofEntries captured).get? name =
          if name ∈ params pattern then some (value name) else none) ∧
    ((params pattern).Nodup → ∀ path captured, captures? pattern path = some captured →
      (segments pattern).map (Segment.spelled? (Fields.ofEntries captured)) = (parts path).map some) ∧
    ∀ pattern' path path', Text.SameBetween '/' pattern.toList pattern'.toList →
      Text.SameBetween '/' path.toList path'.toList → captures? pattern' path' = captures? pattern path := by
  refine ⟨?_, ?_, ?_⟩
  -- Texts without slashes stay in their places, so each name captures its own.
  · intro value hvalue
    have hcaptures := Segment.captures_fill value (segments pattern)
    rw [← parts_fill hvalue] at hcaptures
    refine ⟨_, captures?_eq_some_iff.mpr hcaptures, fun name => ?_⟩
    rw [Fields.get?_ofEntries, Fields.last?_map_names]
    rfl
  -- Without repeated names each captured part is the last of its name.
  · intro hnodup path captured hcaptured
    have hcaptures := captures?_eq_some_iff.mp hcaptured
    apply hcaptures.map_spelled?
    intro entry hentry
    rw [Fields.get?_ofEntries]
    exact Fields.last?_of_mem (hcaptures.names ▸ hnodup) hentry
  · intro pattern' path path' hpattern hpath
    rw [captures?, captures?, segments, segments, parts_congr hpattern, parts_congr hpath]

/-- A captured text may begin with a colon or hold a question mark, and slashes may be missing or doubled. -/
theorem patterns_capture_what_they_spell_of_colon :
    let value := fun name => if name = "id" then ":x" else "a?b"
    params "/items/:id//:part" = ["id", "part"] ∧ fill value "/items/:id//:part" = "/items/:x//a?b" ∧
    (∃ captured, captures? "/items/:id//:part" "/items/:x//a?b" = some captured ∧
      (Fields.ofEntries captured).get? "id" = some ":x" ∧ (Fields.ofEntries captured).get? "part" = some "a?b" ∧
      (segments "/items/:id//:part").map (Segment.spelled? (Fields.ofEntries captured)) =
        (parts "/items/:x//a?b").map some) ∧
    captures? "items/:id//:part" "/items/:x//a?b/" = captures? "/items/:id//:part" "/items/:x//a?b" := by
  intro value
  have hparams : params "/items/:id//:part" = ["id", "part"] := by decide
  have hfill : fill value "/items/:id//:part" = "/items/:x//a?b" := by decide
  obtain ⟨hwritten, hread, hslashes⟩ := patterns_capture_what_they_spell "/items/:id//:part"
  obtain ⟨captured, hcaptured, hvalues⟩ := hwritten value (by rw [hparams]; decide)
  rw [hfill] at hcaptured
  rw [hparams] at hvalues hread
  refine ⟨hparams, hfill, ⟨captured, hcaptured, hvalues "id", hvalues "part", ?_⟩, ?_⟩
  · exact hread (by decide) "/items/:x//a?b" captured hcaptured
  · apply hslashes
    · exact .symm _ _ (.rel _ _ (.front "items/:id//:part".toList))
    · exact .rel _ _ (.behind "/items/:x//a?b".toList)

end Route

end ServiceEngine
