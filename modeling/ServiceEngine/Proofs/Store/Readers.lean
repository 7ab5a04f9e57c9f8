import Mathlib
import ServiceEngine.Proofs.Lists
import ServiceEngine.Proofs.Store.History
import ServiceEngine.Proofs.Store.Journal
import ServiceEngine.Store.Subscriber

/-!
# What subscribers receive

A session is a store with its readers: subscribers that drain the journal now and then, each from its own
position. Beside it stands a model that knows no journal (`Store.QueueModel`): for each reader it keeps a
queue of the events that wait for it and all events since it subscribed, fed by what the calls ought to cause
(`Call.events`).

1. A drain delivers what waits: everything, or the number lost and the last 256 (`Store.drain_eq`).
2. Sessions simulate the model step by step (`Store.Simulates`), so every reader receives what its queue
   says.
3. The queues balance, and a reader that has lost nothing can rebuild the rows of every table from what it
   has received (`Store.QueueModel.replay_writes`).
-/

namespace ServiceEngine

/-! ## Draining -/

namespace Delivery

/-- What is delivered when these events wait: all of them, or the number lost and the last 256. -/
def ofPending (pending : List Event) : List Delivery :=
  if pending.length ≤ 256 then pending.map .event
  else .lagged (pending.length - 256) :: (pending.drop (pending.length - 256)).map .event

def weight : Delivery → Nat
  | .event _ => 1
  | .lagged count => count

/-- The events among deliveries. -/
def events (deliveries : List Delivery) : List Event :=
  deliveries.filterMap (fun
    | .event e => some e
    | .lagged _ => none)

theorem events_map (written : List Event) : events (written.map .event) = written := by
  simp [events, List.filterMap_map]

theorem sum_weight_map (written : List Event) :
    ((written.map Delivery.event).map weight).sum = written.length := by
  simp [Function.comp_def, weight]

/-- No event is lost without being counted. -/
theorem sum_weight_ofPending (pending : List Event) :
    ((ofPending pending).map weight).sum = pending.length := by
  unfold ofPending
  split
  · exact sum_weight_map pending
  · rw [List.map_cons, List.sum_cons, sum_weight_map, List.length_drop, weight]
    omega

/-- Deliveries without a notice of loss are all that waited. -/
theorem ofPending_of_not_lagged {pending : List Event} (h : ∀ count, .lagged count ∉ ofPending pending) :
    ofPending pending = pending.map .event := by
  unfold ofPending at *
  split
  · rfl
  -- Otherwise the notice of loss stands first.
  · rename_i hmore
    have hlost := h (pending.length - 256)
    simp [hmore] at hlost

end Delivery

namespace Store

/-- What has been kept is delivered event by event. -/
theorem drainUpTo_of_kept {s : Store} {limit position : Nat}
    (hkept : s.journal.size ≤ position + Subscriber.capacity) (hle : position ≤ s.journal.size)
    (hlimit : s.journal.size ≤ position + limit) :
    s.drainUpTo limit ⟨position⟩ = ((s.journal.toList.drop position).map .event, ⟨s.journal.size⟩) := by
  -- Each delivery moves the position on by one, so a limit that covers the rest still covers it after.
  induction limit generalizing position with
  | zero =>
    obtain rfl : position = s.journal.size := by omega
    simp [drainUpTo]
  | succ limit ih =>
    have hnot : ¬ position + Subscriber.capacity < s.journal.size := by omega
    by_cases hlt : position < s.journal.size
    · have hdrop : s.journal.toList.drop position =
          s.journal[position] :: s.journal.toList.drop (position + 1) := by
        rw [List.drop_eq_getElem_cons (by simpa using hlt)]
        simp
      have hnext : s.next? ⟨position⟩ = some (.event s.journal[position], ⟨position + 1⟩) := by
        simp [next?, hnot, hlt]
      rw [drainUpTo, hnext]
      simp only
      rw [ih (by omega) (by omega) (by omega), hdrop, List.map_cons]
    · obtain rfl : position = s.journal.size := by omega
      have hnext : s.next? ⟨s.journal.size⟩ = none := by simp [next?]
      rw [drainUpTo, hnext]
      simp

/-- **A drain delivers what waits**, and nothing waits afterwards. -/
theorem drain_eq (s : Store) {sub : Subscriber} (hle : sub.position ≤ s.journal.size) :
    s.drain sub = (Delivery.ofPending (s.journal.toList.drop sub.position), ⟨s.journal.size⟩) := by
  obtain ⟨position⟩ := sub
  simp only at hle ⊢
  have hcapacity : Subscriber.capacity = 256 := rfl
  have hlength : (s.journal.toList.drop position).length = s.journal.size - position := by simp
  rw [Delivery.ofPending, hlength]
  by_cases hlag : position + Subscriber.capacity < s.journal.size
  -- What lies before the oldest event that is kept is lost, and the rest is delivered.
  · have hnext : s.next? ⟨position⟩ = some (.lagged (s.journal.size - Subscriber.capacity - position),
        ⟨s.journal.size - Subscriber.capacity⟩) := by
      simp [next?, hlag]
    have hrest : s.drainUpTo Subscriber.capacity ⟨s.journal.size - Subscriber.capacity⟩ = _ :=
      drainUpTo_of_kept (by omega) (by omega) (by omega)
    have hlost : s.journal.size - Subscriber.capacity - position = s.journal.size - position - 256 := by
      omega
    have holdest : s.journal.size - Subscriber.capacity = position + (s.journal.size - position - 256) := by
      omega
    rw [if_neg (by omega), List.drop_drop, drain, drainUpTo, hnext]
    simp only
    rw [hrest, hlost, ← holdest]
  -- Everything that waits has been kept.
  · rw [if_pos (by omega), drain, drainUpTo_of_kept (by omega) hle (by omega)]

/-! ## Sessions and their model -/

/-- What a host does in a session: it makes a call, keeps a record of its own beside the tables,
subscribes, or drains the reader at a place. -/
inductive SessionStep where
  | call (made : Call)
  | hold (r : Record)
  | subscribe
  | drain (reader : Nat)

/-- A subscriber and what it has received. -/
structure Reader where
  sub : Subscriber
  received : List Delivery

/-- A store and its readers, in the order in which they subscribed. -/
structure Session where
  store : Store
  readers : List Reader

/-- What is due to a reader: the store when it subscribed, all events since then, those that wait for
it, and what it has received. -/
structure ReaderQueue where
  start : Store
  writes : List Event
  pending : List Event
  received : List Delivery

/-- A store and the queues of its readers. -/
structure QueueModel where
  store : Store
  queues : List ReaderQueue

/-- The store after a step. -/
def SessionStep.onStore (s : Store) : SessionStep → Store
  | .call made => made.perform s
  | .hold r => { s with heap := (s.heap.alloc r).2 }
  | .subscribe => s
  | .drain _ => s

/-- Drain the journal for a reader. -/
def Reader.drain (s : Store) (reader : Reader) : Reader :=
  let (deliveries, sub) := s.drain reader.sub
  ⟨sub, reader.received ++ deliveries⟩

def Session.perform (session : Session) (step : SessionStep) : Session where
  store := step.onStore session.store
  readers := match step with
    | .subscribe => session.readers ++ [⟨session.store.subscribe, []⟩]
    | .drain reader => session.readers.modify reader (Reader.drain session.store)
    | _ => session.readers

/-- Note events that a call has caused. -/
def ReaderQueue.push (events : List Event) (queue : ReaderQueue) : ReaderQueue :=
  { queue with writes := queue.writes ++ events, pending := queue.pending ++ events }

/-- Deliver what waits. -/
def ReaderQueue.flush (queue : ReaderQueue) : ReaderQueue :=
  { queue with pending := [], received := queue.received ++ Delivery.ofPending queue.pending }

def QueueModel.perform (model : QueueModel) (step : SessionStep) : QueueModel where
  store := step.onStore model.store
  queues := match step with
    | .call made => model.queues.map (ReaderQueue.push (made.events model.store))
    | .hold _ => model.queues
    | .subscribe => model.queues ++ [⟨model.store, [], [], []⟩]
    | .drain reader => model.queues.modify reader ReaderQueue.flush

def Session.after (steps : List SessionStep) : Session := steps.foldl Session.perform ⟨empty, []⟩

/-- The model after some steps on an empty store. -/
def QueueModel.after (steps : List SessionStep) : QueueModel := steps.foldl QueueModel.perform ⟨empty, []⟩

theorem QueueModel.after_concat (steps : List SessionStep) (step : SessionStep) :
    QueueModel.after (steps ++ [step]) = (QueueModel.after steps).perform step := by
  simp [QueueModel.after]

/-! ## Readers receive what the queues say -/

/-- A reader and its queue: what waits is the journal from the reader's position on. -/
structure Tracks (s : Store) (reader : Reader) (queue : ReaderQueue) : Prop where
  position_le : reader.sub.position ≤ s.journal.size
  pending_eq : queue.pending = s.journal.toList.drop reader.sub.position
  received_eq : reader.received = queue.received

/-- What a call causes waits for each reader behind what waited before. -/
theorem Tracks.push {s s' : Store} {reader : Reader} {queue : ReaderQueue} {events : List Event}
    (h : Tracks s reader queue) (hjournal : s'.journal.toList = s.journal.toList ++ events) :
    Tracks s' reader (queue.push events) := by
  have hsize : s'.journal.size = s.journal.size + events.length := by
    have hlength := congrArg List.length hjournal
    simpa using hlength
  refine ⟨?_, ?_, h.received_eq⟩
  · have hle := h.position_le
    omega
  · rw [hjournal, List.drop_append_of_le_length (by simpa using h.position_le), ← h.pending_eq]
    rfl

theorem Tracks.flush {s : Store} {reader : Reader} {queue : ReaderQueue} (h : Tracks s reader queue) :
    Tracks s (reader.drain s) queue.flush := by
  unfold Reader.drain
  rw [s.drain_eq h.position_le, ← h.pending_eq]
  refine ⟨le_refl _, ?_, ?_⟩
  · simp [ReaderQueue.flush]
  · simp only [ReaderQueue.flush, h.received_eq]

theorem tracks_subscribe (s : Store) : Tracks s ⟨s.subscribe, []⟩ ⟨s, [], [], []⟩ := by
  refine ⟨le_refl _, ?_, rfl⟩
  simp [subscribe]

/-- A session and its model: the same store, and each reader tracks its queue. -/
structure Simulates (session : Session) (model : QueueModel) : Prop where
  store_eq : session.store = model.store
  distinct : DistinctRows session.store
  tracks : List.Forall₂ (Tracks session.store) session.readers model.queues

/-- **Sessions simulate the model**, step by step. -/
theorem Simulates.perform {session : Session} {model : QueueModel} (h : Simulates session model) (step : SessionStep) :
    Simulates (session.perform step) (model.perform step) := by
  obtain ⟨hstore, hdistinct, htracks⟩ := h
  have hstores : (session.perform step).store = (model.perform step).store := by
    simp only [Session.perform, QueueModel.perform, hstore]
  cases step with
  | call made =>
    refine ⟨hstores, hdistinct.perform made, ?_⟩
    simp only [Session.perform, QueueModel.perform, SessionStep.onStore, ← hstore]
    rw [List.forall₂_map_right_iff]
    -- The journal grows by what the call ought to cause, and each queue by the same.
    exact htracks.imp (fun _ _ h => h.push (journal_perform hdistinct made))
  | hold r =>
    refine ⟨hstores, (thins_alloc session.store r).distinctRows hdistinct, ?_⟩
    -- The journal is the same, and nothing else is tracked.
    exact htracks.imp (fun _ _ h => ⟨h.position_le, h.pending_eq, h.received_eq⟩)
  | subscribe =>
    refine ⟨hstores, hdistinct, ?_⟩
    simp only [Session.perform, QueueModel.perform, SessionStep.onStore, ← hstore]
    exact List.rel_append htracks (.cons (tracks_subscribe session.store) .nil)
  | drain reader =>
    refine ⟨hstores, hdistinct, ?_⟩
    exact forall₂_modify htracks (fun _ _ h => h.flush) reader

theorem simulates_after (steps : List SessionStep) : Simulates (Session.after steps) (QueueModel.after steps) := by
  induction steps using List.reverseRecOn with
  | nil => exact ⟨rfl, distinctRows_empty, .nil⟩
  | append_singleton steps step ih =>
    rw [QueueModel.after_concat]
    simpa [Session.after] using ih.perform step

/-! ## The queues balance -/

/-- What was received and what waits account for all events, and are these events if
none was lost. -/
structure ReaderQueue.Balanced (queue : ReaderQueue) : Prop where
  weight_eq : (queue.received.map Delivery.weight).sum + queue.pending.length =
    queue.writes.length
  complete : (∀ count, .lagged count ∉ queue.received) →
    queue.received ++ queue.pending.map .event = queue.writes.map .event

/-- Events that are pushed wait. -/
theorem ReaderQueue.Balanced.push {queue : ReaderQueue} (h : queue.Balanced) (events : List Event) :
    (queue.push events).Balanced := by
  refine ⟨?_, ?_⟩
  · have hweight := h.weight_eq
    simp only [ReaderQueue.push, List.length_append]
    omega
  · intro hnone
    simp only [ReaderQueue.push, List.map_append]
    rw [← List.append_assoc, h.complete hnone]

/-- What is flushed is received, or it is counted as lost. -/
theorem ReaderQueue.Balanced.flush {queue : ReaderQueue} (h : queue.Balanced) :
    queue.flush.Balanced := by
  refine ⟨?_, ?_⟩
  · have hweight := h.weight_eq
    simp only [ReaderQueue.flush, List.map_append, List.sum_append, Delivery.sum_weight_ofPending,
      List.length_nil]
    omega
  · intro hnone
    simp only [ReaderQueue.flush, List.mem_append, not_or] at hnone ⊢
    rw [Delivery.ofPending_of_not_lagged (fun count => (hnone count).2)]
    simpa using h.complete (fun count => (hnone count).1)

/-! ## What holds of every queue -/

/-- **What holds of every queue.** It holds of a new queue, is kept when the events of a call are pushed, and kept
when the queue is flushed, each at some time during the steps. -/
theorem QueueModel.queue_induction {P : Store → ReaderQueue → Prop} {steps : List SessionStep}
    (call : ∀ before made, before ++ [.call made] <+: steps → ∀ queue,
      P (QueueModel.after before).store queue →
        P (made.perform (QueueModel.after before).store)
          (queue.push (made.events (QueueModel.after before).store)))
    (hold : ∀ s r queue, P s queue → P ((SessionStep.hold r).onStore s) queue)
    (subscribe : ∀ before, before <+: steps →
      P (QueueModel.after before).store ⟨(QueueModel.after before).store, [], [], []⟩)
    (flush : ∀ s queue, P s queue → P s queue.flush) :
    ∀ queue ∈ (QueueModel.after steps).queues, P (QueueModel.after steps).store queue := by
  induction steps using List.reverseRecOn with
  | nil =>
    intro queue hmem
    cases hmem
  | append_singleton steps step ih =>
    -- The premises for all steps are premises for the earlier ones.
    have hall := ih
      (fun before made hbefore => call before made (hbefore.trans (List.prefix_append _ _)))
      (fun before hbefore => subscribe before (hbefore.trans (List.prefix_append _ _)))
    rw [QueueModel.after_concat]
    intro queue hmem
    cases step with
    | call made =>
      obtain ⟨old, hold, rfl⟩ := List.mem_map.mp hmem
      exact call steps made (List.prefix_refl _) old (hall old hold)
    | hold r => exact hold _ r queue (hall queue hmem)
    -- A queue is an old one or the one that was opened last.
    | subscribe =>
      rcases List.mem_append.mp hmem with hmem | hmem
      · exact hall queue hmem
      · rw [List.mem_singleton.mp hmem]
        exact subscribe steps (List.prefix_append _ _)
    -- One queue is flushed at most.
    | drain reader =>
      obtain ⟨old, hold, rfl | rfl⟩ := mem_modify hmem
      · exact hall queue hold
      · exact flush _ old (hall old hold)

/-- Every queue balances at all times. -/
theorem balanced_after (steps : List SessionStep) :
    ∀ queue ∈ (QueueModel.after steps).queues, queue.Balanced := by
  apply QueueModel.queue_induction (P := fun _ queue => queue.Balanced)
  · intro before made _ queue h
    exact h.push _
  · intro s r queue h
    exact h
  · intro before _
    exact ⟨rfl, fun _ => rfl⟩
  · intro s queue h
    exact h.flush

/-! ## Replay -/

/-- **The events since a reader subscribed rebuild the rows**, under any key that tells the rows of the
entity apart at all times. -/
theorem QueueModel.replay_writes {κ : Type} [DecidableEq κ] {key : Handle → κ} {entity : String}
    {steps : List SessionStep}
    (hkey : ∀ before, before <+: steps → (((QueueModel.after before).store.rows entity).map key).Nodup) :
    ∀ queue ∈ (QueueModel.after steps).queues,
      queue.writes.foldl (replay key entity) ((queue.start.rows entity).map key) =
        ((QueueModel.after steps).store.rows entity).map key := by
  apply QueueModel.queue_induction (P := fun s queue =>
    queue.writes.foldl (replay key entity) ((queue.start.rows entity).map key) =
      (s.rows entity).map key)
  -- What is written since the reader subscribed gives the rows before the call, by the hypothesis.
  · intro before made hbefore queue h
    simp only [ReaderQueue.push, List.foldl_append, h]
    exact replay_events (hkey before ((List.prefix_append _ _).trans hbefore)) made
  · intro s r queue h
    exact h
  · intro before _
    rfl
  · intro s queue h
    exact h

/-! ## Ids -/

/-- The actions among the steps. -/
def SessionStep.actions : SessionStep → List HostAction
  | .call made => [.call made]
  | .hold r => [.hold r]
  | .subscribe => []
  | .drain _ => []

/-- The model makes the calls that the host makes. -/
theorem QueueModel.store_after (steps : List SessionStep) :
    (QueueModel.after steps).store = empty.afterActions (steps.flatMap SessionStep.actions) := by
  induction steps using List.reverseRecOn with
  | nil => rfl
  | append_singleton steps step ih =>
    have hstep : empty.afterActions ((steps ++ [step]).flatMap SessionStep.actions) =
        (empty.afterActions (steps.flatMap SessionStep.actions)).afterActions step.actions := by
      simp [afterActions]
    rw [QueueModel.after_concat, hstep, ← ih]
    cases step <;> rfl

/-- The records of one store are records of the other, with the same ids. -/
structure KeepsIds (s s' : Store) : Prop where
  size_le : s.heap.size ≤ s'.heap.size
  idOf_eq : ∀ h : Handle, h.index < s.heap.size → s'.idOf h = s.idOf h

theorem KeepsIds.trans {s₁ s₂ s₃ : Store} (h : KeepsIds s₁ s₂) (h' : KeepsIds s₂ s₃) :
    KeepsIds s₁ s₃ := by
  refine ⟨h.size_le.trans h'.size_le, ?_⟩
  intro k hk
  rw [h'.idOf_eq k (hk.trans_le h.size_le), h.idOf_eq k hk]

theorem Thins.keepsIds {s s' : Store} (h : Thins s s') : KeepsIds s s' := ⟨h.size_le, h.idOf_eq⟩

/-- No step takes an id from a record. -/
theorem SessionStep.keepsIds (step : SessionStep) (s : Store) : KeepsIds s (step.onStore s) := by
  cases step with
  | call made =>
    -- A call that gives out no id changes no records but by an update, and this leaves the id
    -- alone.
    by_cases hnone : made.issues s = []
    · exact (made.thins s hnone).keepsIds
    · cases made with
      | create entity fields =>
        refine ⟨?_, fun h hlt => idOf_create_of_lt s entity fields hlt⟩
        simp [SessionStep.onStore, Call.perform, size_create]
      | _ => exact absurd rfl hnone
  | hold r => exact (thins_alloc s r).keepsIds
  | subscribe => exact (Thins.refl s).keepsIds
  | drain reader => exact (Thins.refl s).keepsIds

theorem QueueModel.keepsIds {before steps : List SessionStep} (h : before <+: steps) :
    KeepsIds (QueueModel.after before).store (QueueModel.after steps).store := by
  obtain ⟨rest, rfl⟩ := h
  induction rest using List.reverseRecOn with
  | nil =>
    rw [List.append_nil]
    exact (Thins.refl _).keepsIds
  | append_singleton rest step ih =>
    rw [← List.append_assoc, QueueModel.after_concat]
    exact ih.trans (step.keepsIds _)

/-- Rows have different ids at all times, and these are the ids that they have in the end. -/
theorem QueueModel.nodup_ids {before steps : List SessionStep} (h : before <+: steps) (entity : String)
    (hbound : ∀ entity,
      (issuesOf (empty.actionIssues (steps.flatMap SessionStep.actions)) entity).length < UInt64.size) :
    (((QueueModel.after before).store.rows entity).map (QueueModel.after steps).store.idOf).Nodup := by
  have hledger : Ledger (QueueModel.after before).store
      (empty.actionIssues (before.flatMap SessionStep.actions)) := by
    -- No more records have been created by then than in the end.
    rw [QueueModel.store_after]
    refine ledger_afterActions ledger_empty _ ?_
    obtain ⟨rest, rfl⟩ := h
    rw [List.flatMap_append, actionIssues_append] at hbound
    exact length_issuesOf_lt_of_append hbound
  have hids : ∀ k ∈ (QueueModel.after before).store.rows entity,
      (QueueModel.after steps).store.idOf k = (QueueModel.after before).store.idOf k :=
    fun k hk => (QueueModel.keepsIds h).idOf_eq k (hledger.exist entity k hk)
  rw [List.map_congr_left hids]
  exact List.pairwise_map.mpr ((hledger.ascending entity).imp Nat.ne_of_lt)

/-- The rows that a reader found when it subscribed have kept their ids. -/
theorem QueueModel.start_ids {steps : List SessionStep} (entity : String) :
    ∀ queue ∈ (QueueModel.after steps).queues,
      (queue.start.rows entity).map queue.start.idOf =
        (queue.start.rows entity).map (QueueModel.after steps).store.idOf := by
  -- Ids of records never change, from the time at which the reader subscribed.
  have hkeeps : ∀ queue ∈ (QueueModel.after steps).queues,
      DistinctRows queue.start ∧ KeepsIds queue.start (QueueModel.after steps).store := by
    apply QueueModel.queue_induction (P := fun s queue =>
      DistinctRows queue.start ∧ KeepsIds queue.start s)
    · intro before made _ queue h
      exact ⟨h.1, h.2.trans ((SessionStep.call made).keepsIds _)⟩
    · intro s r queue h
      exact ⟨h.1, h.2.trans ((SessionStep.hold r).keepsIds s)⟩
    · intro before _
      have hbefore := simulates_after before
      exact ⟨hbefore.store_eq ▸ hbefore.distinct, (Thins.refl _).keepsIds⟩
    · intro s queue h
      exact h
  intro queue hmem
  obtain ⟨hdistinct, hids⟩ := hkeeps queue hmem
  apply List.map_congr_left
  intro k hk
  exact (hids.idOf_eq k (hdistinct.exist entity k hk)).symm

/-! ## All readers -/

/-- **Readers receive the writes.** Whatever calls are made on an empty store, with readers that subscribe
and drain at any time: each reader has received what its queue says, event by event in order, with a
count of what was lost before the last 256 wherever more were waiting. The events that it received, those
that it was told are lost and those that wait are as many as there were since it subscribed. If it was
never told of a loss, they are these events; and once none waits, replaying them over the rows that each
table had when it subscribed gives the rows that the table has now. So it does over the ids of the rows,
as long as no entity has as many records created as there are ids. -/
theorem readers_receive_writes (steps : List SessionStep) :
    let session := Session.after steps
    let model := QueueModel.after steps
    session.store = model.store ∧
      session.readers.map Reader.received = model.queues.map ReaderQueue.received ∧
      ∀ queue ∈ model.queues,
        (queue.received.map Delivery.weight).sum + queue.pending.length = queue.writes.length ∧
        ((∀ count, .lagged count ∉ queue.received) →
          queue.received ++ queue.pending.map .event = queue.writes.map .event ∧
          (queue.pending = [] → ∀ entity,
            (Delivery.events queue.received).foldl (replay id entity) (queue.start.rows entity) =
              session.store.rows entity ∧
            ((∀ entity, (issuesOf (empty.actionIssues (steps.flatMap SessionStep.actions)) entity).length <
                UInt64.size) →
              (Delivery.events queue.received).foldl (replay session.store.idOf entity)
                  ((queue.start.rows entity).map queue.start.idOf) =
                (session.store.rows entity).map session.store.idOf))) := by
  intro session model
  have hsim : Simulates session model := simulates_after steps
  have hreceived : session.readers.map Reader.received = model.queues.map ReaderQueue.received := by
    have hsame := hsim.tracks.imp (fun _ _ h => h.received_eq)
    rwa [← List.forall₂_eq_eq_eq, List.forall₂_map_left_iff, List.forall₂_map_right_iff]
  refine ⟨hsim.store_eq, hreceived, ?_⟩
  intro queue hmem
  obtain ⟨hweight, hcomplete⟩ := balanced_after steps queue hmem
  refine ⟨hweight, fun hnone => ⟨hcomplete hnone, ?_⟩⟩
  intro hnothing entity
  have hall : queue.received = queue.writes.map .event := by
    simpa [hnothing] using hcomplete hnone
  rw [hall, Delivery.events_map, hsim.store_eq]
  refine ⟨?_, fun hbound => ?_⟩
  -- Handles tell rows apart at all times.
  · have hkey : ∀ before, before <+: steps → (((QueueModel.after before).store.rows entity).map id).Nodup := by
      intro before _
      have hbefore := simulates_after before
      simpa [← hbefore.store_eq] using hbefore.distinct.nodup entity
    simpa using QueueModel.replay_writes hkey queue hmem
  -- Ids tell them apart too, and rows keep their ids, so those in the end will do as keys.
  · rw [QueueModel.start_ids entity queue hmem]
    exact QueueModel.replay_writes (fun before h => QueueModel.nodup_ids h entity hbound) queue hmem

/-- One user is there when the reader subscribes; a second one is created, and the first is updated and
deleted. From these three events the reader learns that the user with id 2 is left. -/
theorem readers_receive_writes_of_delete :
    let steps : List SessionStep := [.call (.create "User" []), .subscribe, .call (.create "User" []),
      .call (.update "User" 1 []), .call (.update "User" 7 []), .call (.delete "User" (.id 1)), .drain 0]
    let session := Session.after steps
    let events : List Event := [⟨"User", .created, ⟨1⟩⟩, ⟨"User", .updated, ⟨0⟩⟩, ⟨"User", .deleted, ⟨0⟩⟩]
    session.readers.map Reader.received = [events.map .event] ∧
      (session.store.rows "User").map session.store.idOf = [2] := by
  intro steps session events
  have hqueues : (QueueModel.after steps).queues =
      [⟨empty.performAll [.create "User" []], events, [], events.map .event⟩] := by cbv
  have hbound : ∀ entity,
      (issuesOf (empty.actionIssues (steps.flatMap SessionStep.actions)) entity).length < UInt64.size := by
    intro entity
    have hlength : (empty.actionIssues (steps.flatMap SessionStep.actions)).length = 2 := by rfl
    refine lt_of_le_of_lt (List.length_filter_le _ _) ?_
    rw [hlength]
    decide
  obtain ⟨-, hreceived, hall⟩ := readers_receive_writes steps
  rw [hqueues] at hreceived hall
  obtain ⟨-, hrest⟩ := hall _ (List.mem_singleton_self _)
  obtain ⟨-, hreplay⟩ := hrest (by simp)
  refine ⟨hreceived, ?_⟩
  rw [← (hreplay rfl "User").2 hbound]
  cbv

end Store

end ServiceEngine
