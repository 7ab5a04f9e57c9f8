import Mathlib
import ServiceEngine.Program.Encode
import ServiceEngine.Proofs.Exec.Evaluation
import ServiceEngine.Proofs.Exec.Trace
import ServiceEngine.Proofs.Program.Documents

/-!
# Definitions survive being written and read

Reading what was written gives the definition back. For trees this holds without exception: literals may
hold any value, also one that looks like a node. For the other definitions there is one exception, which no
reader produces: a declared value that is null would be read as no value (`Program.NoNull`).

A reader may be given more room than a document needs, so every round trip is stated for all rooms that are
large enough.
-/

namespace ServiceEngine

open Json (Document Datum)
open Json.Document (ofJson)

/-! ## Expressions -/

namespace Expr

/-- An expression is read back, given enough room. -/
def Survives (e : Expr) : Prop :=
  ∀ room inner, (ofJson e.encode).depth ≤ room → Expr.decode room inner (ofJson e.encode) = some e

/-- **Expressions survive being written and read**, with their lists of operands and of properties. -/
theorem decode_encode :
    (∀ e : Expr, e.Survives) ∧
    (∀ es : List Expr, ∀ room, (∀ j ∈ Expr.encodeAll es, (ofJson j).depth ≤ room) →
      List.Forall₂ (fun j e => Expr.decode room true (ofJson j) = some e) (Expr.encodeAll es) es) ∧
    ∀ properties : List (String × Expr), ∀ room,
      (∀ j ∈ Expr.encodeProperties properties, (ofJson j).depth ≤ room + 1) →
        List.Forall₂ (fun j property =>
          Expr.decodeProperty (Expr.decode room true) (ofJson j) = some property)
          (Expr.encodeProperties properties) properties := by
  -- One case for each kind of node. The kind is found under its tag, and the fields under their
  -- names.
  apply operand_induction
  case literal =>
    intro value room inner hroom
    rw [encode] at hroom ⊢
    obtain ⟨room, rfl⟩ := Document.exists_room hroom
    rw [decode, tagged?_bind (by simp [Fields.names]) rfl (by decide)]
    simp [Fields.erase, Shape.fields?_ofMembers, Fields.names, Fields.get?, Document.ofDocument?_ofJson]
  case identifier =>
    intro name room inner hroom
    rw [encode] at hroom ⊢
    obtain ⟨room, rfl⟩ := Document.exists_room hroom
    rw [decode, tagged?_bind (by simp [Fields.names]) rfl (by decide)]
    simp [Fields.erase, Shape.fields?_ofMembers, Fields.names, Fields.get?]
  case binary =>
    intro operator left right hleft hright room inner hroom
    rw [encode] at hroom ⊢
    obtain ⟨room, rfl⟩ := Document.exists_room hroom
    have hdepth := Document.depth_member hroom
    have hl := hleft room true (hdepth ("left", left.encode) (by simp))
    have hr := hright room true (hdepth ("right", right.encode) (by simp))
    rw [decode, tagged?_bind (by simp [Fields.names]) rfl (by decide)]
    simp [Fields.erase, Shape.fields?_ofMembers, Fields.names, Fields.get?, BinaryOp.ofSymbol?_symbol, hl, hr]
  case unary =>
    intro operator operand hoperand room inner hroom
    rw [encode] at hroom ⊢
    obtain ⟨room, rfl⟩ := Document.exists_room hroom
    have ho := hoperand room true (Document.depth_member hroom ("operand", operand.encode) (by simp))
    rw [decode, tagged?_bind (by simp [Fields.names]) rfl (by decide)]
    simp [Fields.erase, Shape.fields?_ofMembers, Fields.names, Fields.get?, UnaryOp.ofSymbol?_symbol, ho]
  case member =>
    intro target property htarget room inner hroom
    rw [encode] at hroom ⊢
    obtain ⟨room, rfl⟩ := Document.exists_room hroom
    have ht := htarget room true (Document.depth_member hroom ("object", target.encode) (by simp))
    rw [decode, tagged?_bind (by simp [Fields.names]) rfl (by decide)]
    simp [Fields.erase, Shape.fields?_ofMembers, Fields.names, Fields.get?, ht]
  case call =>
    intro callee arguments hcallee harguments room inner hroom
    rw [encode] at hroom ⊢
    obtain ⟨room, rfl⟩ := Document.exists_room hroom
    have hdepth := Document.depth_member hroom
    have hc := hcallee room true (hdepth ("callee", callee.encode) (by simp))
    have ha := hdepth ("arguments", .array (encodeAll arguments)) (by simp)
    -- The array takes one level of the room, so that there is enough left for its items.
    have hread := Document.list?_ofJson
      (harguments room (Document.depth_item (ha.trans (Nat.le_succ room))))
    rw [decode, tagged?_bind (by simp [Fields.names]) rfl (by decide)]
    simp [Fields.erase, Shape.fields?_ofMembers, Fields.names, Fields.get?, hc, hread]
  case object =>
    intro properties hproperties room inner hroom
    rw [encode] at hroom ⊢
    obtain ⟨room, rfl⟩ := Document.exists_room hroom
    have hp := Document.depth_member hroom ("properties", .array (encodeProperties properties)) (by simp)
    have hread := Document.list?_ofJson
      (hproperties room (Document.depth_item (hp.trans (Nat.le_add_right room 2))))
    rw [decode, tagged?_bind (by simp [Fields.names]) rfl (by decide)]
    simp [Fields.erase, Shape.fields?_ofMembers, Fields.names, Fields.get?, hread]
  case array =>
    intro elements helements room inner hroom
    rw [encode] at hroom ⊢
    obtain ⟨room, rfl⟩ := Document.exists_room hroom
    have he := Document.depth_member hroom ("elements", .array (encodeAll elements)) (by simp)
    have hread := Document.list?_ofJson
      (helements room (Document.depth_item (he.trans (Nat.le_succ room))))
    rw [decode, tagged?_bind (by simp [Fields.names]) rfl (by decide)]
    simp [Fields.erase, Shape.fields?_ofMembers, Fields.names, Fields.get?, hread]
  case nil =>
    intro room _
    exact .nil
  case cons =>
    intro e rest he hrest room hroom
    rw [encodeAll] at hroom ⊢
    obtain ⟨hfirst, hmore⟩ := List.forall_mem_cons.mp hroom
    exact .cons (he room true hfirst) (hrest room hmore)
  case noFields =>
    intro room _
    exact .nil
  case field =>
    intro name e rest he hrest room hroom
    rw [encodeProperties, encodeProperty] at hroom ⊢
    obtain ⟨hfirst, hmore⟩ := List.forall_mem_cons.mp hroom
    have hvalue := he room true (Document.depth_member hfirst ("value", e.encode) (by simp))
    refine .cons ?_ (hrest room hmore)
    rw [ofJson, decodeProperty, Shape.ofDocument?]
    simp [Shape.fields?_ofMembers, Fields.names, Fields.get?, hvalue]

theorem encode_ne_null (e : Expr) : e.encode ≠ .null := by
  cases e <;> simp [encode]

end Expr

/-! ## Statements -/

namespace Stmt

/-- A statement is read back, given enough room. -/
def Survives (s : Stmt) : Prop :=
  ∀ room inner, (ofJson s.encode).depth ≤ room → Stmt.decode room inner (ofJson s.encode) = some s

/-- The statements of a block are read back, given enough room. -/
def BlockSurvives (body : List Stmt) : Prop :=
  ∀ room, (∀ j ∈ Stmt.encodeAll body, (ofJson j).depth ≤ room) →
    List.Forall₂ (fun j s => Stmt.decode room true (ofJson j) = some s) (Stmt.encodeAll body) body

/-- A block is read back as a list, which takes one level of the room. -/
theorem BlockSurvives.list?_eq {body : List Stmt} (h : BlockSurvives body) {room : Nat}
    (hroom : (ofJson (.array (Stmt.encodeAll body))).depth ≤ room) :
    Document.list? (Stmt.decode room true) (ofJson (.array (Stmt.encodeAll body))) = some body :=
  Document.list?_ofJson (h room (Document.depth_item (hroom.trans (Nat.le_succ room))))

/-- A block or null. -/
def encodeBlock? : Option (List Stmt) → Json
  | some body => .array (Stmt.encodeAll body)
  | none => .null

theorem encode_branch (condition : Expr) (thenBody : List Stmt) (elseBody : Option (List Stmt)) :
    (Stmt.branch condition thenBody elseBody).encode =
      .object [("condition", condition.encode), ("elseBody", encodeBlock? elseBody),
        ("thenBody", .array (Stmt.encodeAll thenBody)), ("type", .string "if")] := by
  cases elseBody <;> rw [encode, encodeBlock?]

/-- **Statements and blocks survive being written and read.** -/
theorem decode_encode : (∀ s : Stmt, s.Survives) ∧ ∀ body : List Stmt, BlockSurvives body := by
  have hexpr := Expr.decode_encode.1
  refine block_induction ?letBind ?assign ?ret ?branch ?forEach ?expression ?nil ?cons
  case letBind =>
    intro name value room inner hroom
    rw [encode] at hroom ⊢
    obtain ⟨room, rfl⟩ := Document.exists_room hroom
    have hvalue := hexpr value room true (Document.depth_member hroom ("value", value.encode) (by simp))
    rw [decode, tagged?_bind (by simp [Fields.names]) rfl (by decide)]
    simp [Fields.erase, Shape.fields?_ofMembers, Fields.names, Fields.get?, hvalue]
  case assign =>
    intro name value room inner hroom
    rw [encode] at hroom ⊢
    obtain ⟨room, rfl⟩ := Document.exists_room hroom
    have hvalue := hexpr value room true (Document.depth_member hroom ("value", value.encode) (by simp))
    rw [decode, tagged?_bind (by simp [Fields.names]) rfl (by decide)]
    simp [Fields.erase, Shape.fields?_ofMembers, Fields.names, Fields.get?, hvalue]
  case ret =>
    intro value room inner hroom
    rw [encode] at hroom ⊢
    obtain ⟨room, rfl⟩ := Document.exists_room hroom
    have hdepth := Document.depth_member hroom ("value", Expr.encode? value) (by simp)
    -- No value is null, and no expression is.
    have hvalue : Document.option? (Expr.decode room true) (ofJson (Expr.encode? value)) = some value := by
      cases value with
      | none => rfl
      | some e =>
        rw [Expr.encode?] at hdepth ⊢
        rw [Document.option?_ofJson _ e.encode_ne_null, hexpr e room true hdepth, Option.map_some]
    rw [decode, tagged?_bind (by simp [Fields.names]) rfl (by decide)]
    simp [Fields.erase, Shape.fields?_ofMembers, Fields.names, Fields.get?, hvalue]
  case branch =>
    intro condition thenBody elseBody hthen helse room inner hroom
    rw [encode_branch] at hroom ⊢
    obtain ⟨room, rfl⟩ := Document.exists_room hroom
    have hdepth := Document.depth_member hroom
    have hcondition := hexpr condition room true (hdepth ("condition", condition.encode) (by simp))
    have hfirst := hthen.list?_eq (hdepth ("thenBody", .array (encodeAll thenBody)) (by simp))
    have hsecond : Document.option? (Document.list? (Stmt.decode room true))
        (ofJson (encodeBlock? elseBody)) = some elseBody := by
      -- An empty block is an array, and only no block is null.
      have hother := hdepth ("elseBody", encodeBlock? elseBody) (by simp)
      cases elseBody with
      | none => rfl
      | some body =>
        rw [encodeBlock?] at hother ⊢
        rw [Document.option?_ofJson _ (by simp), (helse body rfl).list?_eq hother, Option.map_some]
    rw [decode, tagged?_bind (by simp [Fields.names]) rfl (by decide)]
    simp [Fields.erase, Shape.fields?_ofMembers, Fields.names, Fields.get?, hcondition, hfirst, hsecond]
  case forEach =>
    intro item collection body hbody room inner hroom
    rw [encode] at hroom ⊢
    obtain ⟨room, rfl⟩ := Document.exists_room hroom
    have hdepth := Document.depth_member hroom
    have hcollection := hexpr collection room true (hdepth ("collection", collection.encode) (by simp))
    have hblock := hbody.list?_eq (hdepth ("body", .array (encodeAll body)) (by simp))
    rw [decode, tagged?_bind (by simp [Fields.names]) rfl (by decide)]
    simp [Fields.erase, Shape.fields?_ofMembers, Fields.names, Fields.get?, hcollection, hblock]
  case expression =>
    intro e room inner hroom
    rw [encode] at hroom ⊢
    obtain ⟨room, rfl⟩ := Document.exists_room hroom
    have he := hexpr e room true (Document.depth_member hroom ("expression", e.encode) (by simp))
    rw [decode, tagged?_bind (by simp [Fields.names]) rfl (by decide)]
    simp [Fields.erase, Shape.fields?_ofMembers, Fields.names, Fields.get?, he]
  case nil =>
    intro room _
    exact .nil
  case cons =>
    intro s rest hs hrest room hroom
    rw [encodeAll] at hroom ⊢
    obtain ⟨hfirst, hmore⟩ := List.forall_mem_cons.mp hroom
    exact .cons (hs room true hfirst) (hrest room hmore)

end Stmt

/-- The statement that a document describes, if it is the document of a statement. -/
theorem Stmt.ofDocument?_encode (s : Stmt) {room : Nat} (hroom : (ofJson s.encode).depth ≤ room) :
    Stmt.ofDocument? room (ofJson s.encode) = some s := by
  rw [Stmt.ofDocument?, if_pos (Document.isValue_ofJson hroom)]
  exact Stmt.decode_encode.1 s _ false le_rfl

/-! ## Definitions -/

/-- A trigger is read back. -/
theorem Trigger.decode_encode (t : Trigger) : Trigger.decode (ofJson t.encode) = some t := by
  cases t with
  | cron pattern =>
    rw [encode, decode, tagged?_bind (by simp [Fields.names]) rfl (by decide)]
    simp [Fields.erase, Shape.fields?_ofMembers, Fields.names, Fields.get?]
  | every cadence =>
    rw [encode, decode, tagged?_bind (by simp [Fields.names]) rfl (by decide)]
    simp [Fields.erase, Shape.fields?_ofMembers, Fields.names, Fields.get?]
  | lifecycle entity event =>
    rw [encode, decode, tagged?_bind (by simp [Fields.names]) rfl (by decide)]
    simp [Fields.erase, Shape.fields?_ofMembers, Fields.names, Fields.get?, EventKind.ofName?_name]

theorem Trigger.ofDocument?_encode (t : Trigger) {room : Nat} (hroom : (ofJson t.encode).depth ≤ room) :
    Trigger.ofDocument? room (ofJson t.encode) = some t := by
  rw [Trigger.ofDocument?, if_pos (Document.isValue_ofJson hroom)]
  exact t.decode_encode

theorem option?_encodeText? (text : Option String) :
    Document.option? Document.text? (ofJson (encodeText? text)) = some text := by
  cases text <;> rfl

theorem Stmt.encodeAll_eq_map (body : List Stmt) : Stmt.encodeAll body = body.map Stmt.encode := by
  induction body with
  | nil => rfl
  | cons s rest ih => rw [Stmt.encodeAll, ih, List.map_cons]

theorem items?_encodeAll (body : List Stmt) {room : Nat}
    (hroom : (ofJson (.array (Stmt.encodeAll body))).depth ≤ room) :
    items? Stmt.ofDocument? room (ofJson (.array (Stmt.encodeAll body))) = some body := by
  rw [Stmt.encodeAll_eq_map] at hroom ⊢
  exact Document.items?_ofJson (fun s _ _ => s.ofDocument?_encode) hroom

/-- A declared value, if there is one, is not null. -/
def NotNull (value : Option Datum) : Prop := ∀ d ∈ value, d.json ≠ .null

/-- A value that is not null is read back, and no value is read from null. -/
theorem value?_encodeDatum? {value : Option Datum} (hvalue : NotNull value) {room : Nat}
    (hroom : (ofJson (encodeDatum? value)).depth ≤ room) :
    value? room (ofJson (encodeDatum? value)) = some value := by
  cases value with
  | none => rfl
  | some d =>
    rw [encodeDatum?] at hroom ⊢
    rw [value?, Document.option?_ofJson _ (hvalue d rfl), if_pos (Document.fits_iff.mpr hroom),
      Document.ofDocument?_ofJson, Option.map_some]

/-- A field whose default, if it has one, is not null. -/
def Field.NoNull (f : Field) : Prop := NotNull f.default

/-- A model without a default that is null. -/
def Model.NoNull (m : Model) : Prop := ∀ f ∈ m.fields, f.NoNull

/-- An endpoint whose declared response, if it has one, is not null. -/
def Endpoint.NoNull (e : Endpoint) : Prop := NotNull e.returns

/-- A program that declares no value as null. -/
structure Program.NoNull (p : Program) : Prop where
  models : ∀ m ∈ p.models, m.NoNull
  endpoints : ∀ e ∈ p.endpoints, e.NoNull

/-- A field is read back if its default is not null. -/
theorem Field.ofDocument?_encode {f : Field} (hf : f.NoNull) {room : Nat}
    (hroom : (ofJson f.encode).depth ≤ room) : Field.ofDocument? room (ofJson f.encode) = some f := by
  rw [encode] at hroom ⊢
  obtain ⟨room, rfl⟩ := Document.exists_room hroom
  have hdefault := value?_encodeDatum? hf
    (Document.depth_member hroom ("default", encodeDatum? f.default) (by simp))
  rw [ofDocument?, structure?_ofJson (by simp [Fields.names])]
  simp [Fields.get?, option?_encodeText?, hdefault]

theorem Model.ofDocument?_encode {m : Model} (hm : m.NoNull) {room : Nat}
    (hroom : (ofJson m.encode).depth ≤ room) : Model.ofDocument? room (ofJson m.encode) = some m := by
  rw [encode] at hroom ⊢
  obtain ⟨room, rfl⟩ := Document.exists_room hroom
  have hfields := Document.items?_ofJson (fun f hf _ => Field.ofDocument?_encode (hm f hf))
    (Document.depth_member hroom ("fields", .array (m.fields.map Field.encode)) (by simp))
  rw [ofDocument?, structure?_ofJson (by simp [Fields.names])]
  simp [Fields.get?, hfields]

/-- An endpoint is read back if its response is not null. -/
theorem Endpoint.ofDocument?_encode {e : Endpoint} (he : e.NoNull) {room : Nat}
    (hroom : (ofJson e.encode).depth ≤ room) : Endpoint.ofDocument? room (ofJson e.encode) = some e := by
  rw [encode] at hroom ⊢
  obtain ⟨room, rfl⟩ := Document.exists_room hroom
  have hdepth := Document.depth_member hroom
  have hbody := items?_encodeAll e.body (hdepth ("body", .array (Stmt.encodeAll e.body)) (by simp))
  have hreturns := value?_encodeDatum? he (hdepth ("returns", encodeDatum? e.returns) (by simp))
  rw [ofDocument?, structure?_ofJson (by simp [Fields.names])]
  simp [Fields.get?, Method.ofDocument?, Method.ofName?_name, hbody, hreturns]

theorem Job.ofDocument?_encode (j : Job) {room : Nat} (hroom : (ofJson j.encode).depth ≤ room) :
    Job.ofDocument? room (ofJson j.encode) = some j := by
  rw [encode] at hroom ⊢
  obtain ⟨room, rfl⟩ := Document.exists_room hroom
  have hdepth := Document.depth_member hroom
  have hbody := items?_encodeAll j.body (hdepth ("body", .array (Stmt.encodeAll j.body)) (by simp))
  have htrigger := j.trigger.ofDocument?_encode (hdepth ("trigger", j.trigger.encode) (by simp))
  rw [ofDocument?, structure?_ofJson (by simp [Fields.names])]
  simp [Fields.get?, option?_encodeText?, hbody, htrigger]

/-- A program that declares no value as null is read back. -/
theorem Program.ofDocument?_encode {p : Program} (hp : p.NoNull) {room : Nat}
    (hroom : (ofJson p.encode).depth ≤ room) : Program.ofDocument? room (ofJson p.encode) = some p := by
  rw [encode] at hroom ⊢
  obtain ⟨room, rfl⟩ := Document.exists_room hroom
  have hdepth := Document.depth_member hroom
  have hmodels := Document.items?_ofJson (fun m hm _ => Model.ofDocument?_encode (hp.models m hm))
    (hdepth ("models", .array (p.models.map Model.encode)) (by simp))
  have hendpoints := Document.items?_ofJson (fun e he _ => Endpoint.ofDocument?_encode (hp.endpoints e he))
    (hdepth ("endpoints", .array (p.endpoints.map Endpoint.encode)) (by simp))
  have hjobs := Document.items?_ofJson (fun j _ _ => Job.ofDocument?_encode j)
    (hdepth ("jobs", .array (p.jobs.map Job.encode)) (by simp))
  rw [ofDocument?, structure?_ofJson (by simp [Fields.names])]
  simp [Fields.get?, hmodels, hendpoints, hjobs]

/-! ## What readers produce -/

theorem eq_null_of_toJson? {d : Document} (h : d.toJson? = some .null) : d = .null := by
  cases d with
  | null => rfl
  | bool b => cases h
  | _ =>
    simp only [Document.toJson?, Option.map_eq_some_iff] at h
    obtain ⟨_, _, heq⟩ := h
    cases heq

theorem toJson?_of_ofDocument? {d : Document} {datum : Datum} (h : Datum.ofDocument? d = some datum) :
    d.toJson? = some datum.json := by
  unfold Datum.ofDocument? at h
  split at h
  · rename_i j hj
    cases h
    exact hj
  · cases h

/-- Null is read as no value, so a value that is read is not null. -/
theorem notNull_of_value? {room : Nat} {d : Document} {value : Option Datum}
    (h : value? room d = some value) : NotNull value := by
  by_cases hnull : d = .null
  · subst hnull
    cases h
    rintro datum ⟨⟩
  · have hinner : value? room d =
        (if d.fits room then Datum.ofDocument? d else none).map some := by
      cases d with
      | null => exact absurd rfl hnull
      | _ => rfl
    rw [hinner, Option.map_eq_some_iff] at h
    obtain ⟨datum, hdatum, rfl⟩ := h
    rintro other ⟨⟩ hjson
    split at hdatum
    · have hvalue := toJson?_of_ofDocument? hdatum
      rw [hjson] at hvalue
      exact hnull (eq_null_of_toJson? hvalue)
    · cases hdatum

/-- A value that is left out is no value. -/
theorem notNull_of_optional {room : Nat} {field : Option Document} {value : Option Datum}
    (h : optional none (value? room) field = some value) : NotNull value := by
  cases field with
  | none =>
    cases h
    rintro datum ⟨⟩
  | some d => exact notNull_of_value? h

/-- What each item of a list has that may be left out. -/
theorem forall_of_optional {α : Type} {P : α → Prop} {read : Nat → Document → Option α}
    (hread : ∀ room item a, read room item = some a → P a) {room : Nat} {field : Option Document}
    {values : List α} (h : optional [] (items? read room) field = some values) : ∀ a ∈ values, P a := by
  cases field with
  | none =>
    cases h
    simp
  | some d => exact Document.forall_of_items? hread h

/-- The default of a field that is read is not null. -/
theorem Field.noNull_of_ofDocument? {room : Nat} {d : Document} {f : Field}
    (h : Field.ofDocument? room d = some f) : f.NoNull := by
  refine of_structure? ?_ h
  intro room fields f hread
  split at hread
  · simp only [Option.bind_eq_bind, Option.bind_eq_some_iff, Option.pure_def, Option.some.injEq] at hread
    obtain ⟨name, -, type, -, default, hdefault, rfl⟩ := hread
    exact notNull_of_optional hdefault
  · cases hread

theorem Model.noNull_of_ofDocument? {room : Nat} {d : Document} {m : Model}
    (h : Model.ofDocument? room d = some m) : m.NoNull := by
  refine of_structure? ?_ h
  intro room fields m hread
  split at hread
  · simp only [Option.bind_eq_bind, Option.bind_eq_some_iff, Option.pure_def, Option.some.injEq] at hread
    obtain ⟨name, -, declared, hdeclared, rfl⟩ := hread
    exact forall_of_optional (fun _ _ _ => Field.noNull_of_ofDocument?) hdeclared
  · cases hread

theorem Endpoint.noNull_of_ofDocument? {room : Nat} {d : Document} {e : Endpoint}
    (h : Endpoint.ofDocument? room d = some e) : e.NoNull := by
  refine of_structure? ?_ h
  intro room fields e hread
  split at hread
  · simp only [Option.bind_eq_bind, Option.bind_eq_some_iff, Option.pure_def, Option.some.injEq] at hread
    obtain ⟨method, -, path, -, body, -, returns, hreturns, rfl⟩ := hread
    exact notNull_of_optional hreturns
  · cases hread

/-- A program that is read declares no value as null. -/
theorem Program.noNull_of_ofDocument? {room : Nat} {d : Document} {p : Program}
    (h : Program.ofDocument? room d = some p) : p.NoNull := by
  refine of_structure? ?_ h
  intro room fields p hread
  split at hread
  · simp only [Option.bind_eq_bind, Option.bind_eq_some_iff, Option.pure_def, Option.some.injEq] at hread
    obtain ⟨models, hmodels, endpoints, hendpoints, jobs, -, rfl⟩ := hread
    exact ⟨forall_of_optional (fun _ _ _ => Model.noNull_of_ofDocument?) hmodels,
      forall_of_optional (fun _ _ _ => Endpoint.noNull_of_ofDocument?) hendpoints⟩
  · cases hread

/-! ## All definitions -/

/-- **Definitions survive being written and read.** Every expression and every statement, whatever is
nested in it and whatever values its literals hold, is read back from its JSON. So is every program that
was read from some JSON, be it in another spelling or with fields left out. -/
theorem definitions_survive_writing :
    (∀ e : Expr, ofJson? Expr.ofDocument? e.encode = some e) ∧
      (∀ s : Stmt, ofJson? Stmt.ofDocument? s.encode = some s) ∧
      ∀ (j : Json) (p : Program), ofJson? Program.ofDocument? j = some p →
        ofJson? Program.ofDocument? p.encode = some p := by
  refine ⟨?_, ?_, ?_⟩
  · intro e
    rw [ofJson?, Expr.ofDocument?, if_pos (Document.isValue_ofJson le_rfl)]
    exact Expr.decode_encode.1 e _ false le_rfl
  · intro s
    exact s.ofDocument?_encode le_rfl
  · intro j p hread
    exact Program.ofDocument?_encode (Program.noNull_of_ofDocument? hread) le_rfl

/-- A program in a spelling of its own: arrays for some definitions, a default that is null, a method in
small letters, a literal that looks like a node. It is read, and what is written for it is read as the same
program. -/
theorem definitions_survive_writing_of_arrays :
    let node : Json := .object [("type", .string "literal"), ("value", .null)]
    let looksLikeNode : Datum := ⟨node, List.pairwise_pair.mpr (by decide), trivial, trivial, trivial⟩
    let j : Json := .object [
      ("endpoints", .array [.array [.string "get", .string "/x",
        .array [.array [.string "return", .object [("type", .string "literal"), ("value", node)]]]]]),
      ("jobs", .array [.object [("name", .string "watch"),
        ("trigger", .array [.string "entity", .string "User", .string "created"])]]),
      ("models", .array [.object [("fields", .array [.object [("default", .null), ("name", .string "age")]]),
        ("name", .string "User")]])]
    let p : Program := ⟨[⟨"User", [⟨"age", none, none⟩]⟩],
      [⟨.get, "/x", [.ret (some (.literal looksLikeNode))], none⟩],
      [⟨"watch", .lifecycle "User" .created, none, []⟩]⟩
    ofJson? Program.ofDocument? j = some p ∧ ofJson? Program.ofDocument? p.encode = some p := by
  intro node looksLikeNode j p
  have hread : ofJson? Program.ofDocument? j = some p := by rfl
  exact ⟨hread, definitions_survive_writing.2.2 j p hread⟩

end ServiceEngine
