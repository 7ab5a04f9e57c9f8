import Mathlib
import ServiceEngine.Proofs.Service.Moves

/-!
# What listeners run for

A listener reads the journal at its own pace while the store is written to. What it ought to get is said by a
`Channel`, which knows nothing of journals and positions: events wait in a queue, and a receive that finds more
than 256 of them drops all but the last 256. A `Watch` follows one listener from the start of the scheduler on:
it sends the events that the writes ought to cause (`Call.events`, which does not look at the journal) to the
channel, receives whenever the listener asks for an event, and notes the turns that the listener takes.

1. What a listener has run for and holds are the wanted events among those that the channel handed over, and it
   is told of as many losses as the channel dropped (`Follows`), whatever moves the engine makes.
2. A listener that finds nothing more to read has run for all of them, in their order, and once for each.
3. It loses nothing as long as at most 256 events wait for it, and this bound is needed
   (`Engine.listener_loses_write`).
-/

namespace ServiceEngine

/-! ## Reading the journal -/

/-- What a subscriber reads next: the number of events that are no longer kept, or one event. -/
theorem Store.next?_cases {s : Store} {sub sub' : Subscriber} {delivery : Delivery}
    (h : s.next? sub = some (delivery, sub')) :
    (∃ count, delivery = .lagged count ∧ sub'.position = sub.position + count ∧
        sub'.position + 256 = s.journal.size ∧ 0 < count) ∨
      ∃ event, delivery = .event event ∧ sub'.position = sub.position + 1 ∧
        s.journal.toList[sub.position]? = some event ∧ s.journal.size ≤ sub.position + 256 := by
  have hcapacity : Subscriber.capacity = 256 := rfl
  unfold next? at h
  split at h
  · next hlag =>
    cases h
    have holdest : s.journal.size - Subscriber.capacity =
        sub.position + (s.journal.size - Subscriber.capacity - sub.position) := by omega
    have hkept : s.journal.size - Subscriber.capacity + 256 = s.journal.size := by omega
    exact .inl ⟨_, rfl, holdest, hkept, by omega⟩
  · next hfew =>
    split at h <;> cases h
    next event hevent => exact .inr ⟨event, rfl, rfl, by simpa using hevent, by omega⟩

/-- Nothing is left to read at the end of the journal only. -/
theorem Store.size_le_of_next?_eq_none {s : Store} {sub : Subscriber} (h : s.next? sub = none) :
    s.journal.size ≤ sub.position := by
  unfold next? at h
  split at h
  · cases h
  · split at h
    · cases h
    · next hnone => simpa using hnone

/-! ## A bounded channel -/

/-- A channel from the writes to one listener: all events that were sent, those that wait, those that it has
handed over and those that it has dropped. -/
structure Channel where
  sent : List Event
  waiting : List Event
  kept : List Event
  lost : List Event

namespace Channel

def empty : Channel := ⟨[], [], [], []⟩

/-- Events come in at the end. -/
def send (c : Channel) (events : List Event) : Channel :=
  { c with sent := c.sent ++ events, waiting := c.waiting ++ events }

/-- The listener asks for an event. If more than 256 wait, the channel drops those before the last 256, and
that is all; else the first of them is handed over, if there is one. -/
def receive (c : Channel) : Channel :=
  let excess := c.waiting.length - 256
  if 0 < excess then { c with waiting := c.waiting.drop excess, lost := c.lost ++ c.waiting.take excess }
  else { c with waiting := c.waiting.tail, kept := c.kept ++ c.waiting.head?.toList }

@[simp] theorem send_send (c : Channel) (events more : List Event) :
    (c.send events).send more = c.send (events ++ more) := by
  simp [send]

@[simp] theorem send_nil (c : Channel) : c.send [] = c := by simp [send]

@[simp] theorem sent_send (c : Channel) (events : List Event) : (c.send events).sent = c.sent ++ events := rfl

@[simp] theorem sent_receive (c : Channel) : c.receive.sent = c.sent := by
  by_cases h : 0 < c.waiting.length - 256 <;> simp [receive, h]

/-- A channel with too many events drops those before the last 256. -/
theorem receive_of_excess {c : Channel} {count : Nat} (h : c.waiting.length = count + 256) (hcount : 0 < count) :
    c.receive = { c with waiting := c.waiting.drop count, lost := c.lost ++ c.waiting.take count } := by
  have hexcess : c.waiting.length - 256 = count := by omega
  simp only [receive, hexcess, if_pos hcount]

/-- A channel that has kept all events hands over the first one. -/
theorem receive_of_cons {c : Channel} {event : Event} {rest : List Event} (h : c.waiting = event :: rest)
    (hfew : c.waiting.length ≤ 256) : c.receive = { c with waiting := rest, kept := c.kept ++ [event] } := by
  have hexcess : ¬ 0 < c.waiting.length - 256 := by omega
  rw [receive, if_neg hexcess, h]
  rfl

theorem receive_of_nil {c : Channel} (h : c.waiting = []) : c.receive = c := by
  cases c
  simp only at h
  simp [receive, h]

/-- What was sent is what was handed over or dropped, followed by what waits; and each event was either handed
over or dropped, in the order in which the events were sent. -/
structure Whole (c : Channel) : Prop where
  parts : ∃ read, c.sent = read ++ c.waiting ∧ c.kept.Sublist read ∧ c.lost.Sublist read ∧
    (c.kept ++ c.lost).Perm read

theorem whole_empty : Whole empty := ⟨[], rfl, .slnil, .slnil, .refl _⟩

theorem Whole.send {c : Channel} (h : c.Whole) (events : List Event) : (c.send events).Whole := by
  obtain ⟨read, hsent, hparts⟩ := h.parts
  refine ⟨read, ?_, hparts⟩
  simp [Channel.send, hsent]

/-- A receive moves events from those that wait to those that are read, and each of them
to one side. -/
theorem Whole.receive {c : Channel} (h : c.Whole) : c.receive.Whole := by
  obtain ⟨read, hsent, hkept, hlost, hperm⟩ := h.parts
  by_cases hexcess : 0 < c.waiting.length - 256
  -- The first of the waiting events are dropped.
  · obtain ⟨count, hcount⟩ : ∃ count, c.waiting.length = count + 256 := ⟨c.waiting.length - 256, by omega⟩
    rw [receive_of_excess hcount (by omega)]
    refine ⟨read ++ c.waiting.take count, ?_, hkept.trans (List.sublist_append_left _ _), hlost.append (.refl _), ?_⟩
    · rw [hsent, List.append_assoc, List.take_append_drop]
    · rw [← List.append_assoc]
      exact hperm.append_right _
  · cases hwaiting : c.waiting with
    | nil => rwa [receive_of_nil hwaiting]
    | cons event rest =>
      -- The first of them is handed over.
      rw [receive_of_cons hwaiting (by omega)]
      refine ⟨read ++ [event], ?_, hkept.append (.refl _), hlost.trans (List.sublist_append_left _ _), ?_⟩
      · simp [hsent, hwaiting]
      · have hswap : (c.kept ++ [event] ++ c.lost).Perm (c.kept ++ c.lost ++ [event]) := by
          rw [List.append_assoc, List.append_assoc]
          exact List.perm_append_comm.append_left c.kept
        exact hswap.trans (hperm.append_right _)

end Channel

namespace Engine

/-! ## Watching a listener -/

/-- The record that a listener runs for in a turn. -/
def Turn.record? : Turn → Option Handle
  | .run _ record => some record
  | _ => none

/-- The number of lost events that a listener is told of in a turn. -/
def Turn.lost : Turn → Nat
  | .lose count _ => count
  | _ => 0

/-- The turn that the listener at a place takes in a move, if it takes one. -/
def turns (e : Engine) (place : Nat) : Move → List Turn
  | .task other => if other = place then (e.jobs[place]?.bind e.nextTurn?).toList else []
  | _ => []

/-- Whether the listener at a place waits for an event; it does not while it waits out a delay. -/
def isListening (e : Engine) (place : Nat) : Bool :=
  match e.jobs[place]?.bind PlannedJob.task with
  | some (.listening _) => true
  | _ => false

/-- Whether a move lets the listener at a place ask for an event. -/
def receives (e : Engine) (place : Nat) : Move → Bool
  | .task other => decide (other = place) && e.isListening place
  | _ => false

/-- An engine with the channel to one listener and the turns that this listener has taken so far. -/
structure Watch where
  engine : Engine
  channel : Channel
  taken : List Turn

namespace Watch

/-- The channel once the listener has asked for its event, if the move lets it ask. -/
def received (place : Nat) (w : Watch) (move : Move) : Channel :=
  if w.engine.receives place move then w.channel.receive else w.channel

/-- The watch after a move. The listener asks for its event first; what it writes then comes in behind. -/
def perform (place : Nat) (w : Watch) (move : Move) : Watch where
  engine := w.engine.perform move
  channel := (w.received place move).send (w.engine.store.eventsAll (w.engine.calls move))
  taken := w.taken ++ w.engine.turns place move

def after (e : Engine) (place : Nat) (moves : List Move) : Watch := moves.foldl (perform place) ⟨e, .empty, []⟩

/-- The records that the listener has run for. -/
def ran (w : Watch) : List Handle := w.taken.filterMap Turn.record?

/-- The number of lost events that the listener was told of. -/
def told (w : Watch) : Nat := (w.taken.map Turn.lost).sum

theorem ran_concat (w : Watch) (e : Engine) (channel : Channel) (turn : Turn) :
    (Watch.mk e channel (w.taken ++ [turn])).ran = w.ran ++ turn.record?.toList := by
  cases h : turn.record? <;> simp [ran, h]

theorem told_concat (w : Watch) (e : Engine) (channel : Channel) (turn : Turn) :
    (Watch.mk e channel (w.taken ++ [turn])).told = w.told + turn.lost := by
  simp [told]

theorem after_concat (e : Engine) (place : Nat) (moves : List Move) (move : Move) :
    after e place (moves ++ [move]) = (after e place moves).perform place move := by
  simp [after]

theorem engine_after (e : Engine) (place : Nat) (moves : List Move) :
    (after e place moves).engine = e.after moves := by
  induction moves using List.reverseRecOn with
  | nil => rfl
  | append_singleton moves move ih => rw [after_concat, Engine.after_concat, ← ih, perform]

/-- A step of the listener that is watched is a turn, if it can take one. -/
theorem perform_task {w : Watch} {place : Nat} {p : PlannedJob} {entity : String} {event : EventKind}
    (hp : w.engine.jobs[place]? = some p) (hplan : p.plan = .lifecycle entity event) :
    w.perform place (.task place) = (w.engine.nextTurn? p).elim { w with channel := w.received place (.task place) }
      (fun turn => ⟨w.engine.takeTurn place p turn, (w.received place (.task place)).send
        (w.engine.store.eventsAll (w.engine.turnCalls p turn)), w.taken ++ [turn]⟩) := by
  simp only [perform, Engine.perform, runTaskAt, hp, runTask?_of_lifecycle _ place hplan, calls, taskCalls, hplan,
    turns, if_true, Option.bind_some]
  cases w.engine.nextTurn? p <;> simp [Store.eventsAll]

end Watch

/-! ## A listener follows the writes -/

/-- How much of the journal a listener has read, and the record that it holds while it waits out its delay. -/
inductive Reads : Option Task → Subscriber → Option Handle → Prop where
  | listening (sub : Subscriber) : Reads (some (.listening sub)) sub none
  | pending (sub : Subscriber) (record : Handle) (due : Nat) : Reads (some (.pending sub record due)) sub (some record)

/-- A listener asks its channel when it holds no record. -/
theorem Watch.received_of_reads {w : Watch} {place : Nat} {p : PlannedJob} {sub : Subscriber} {held : Option Handle}
    (hp : w.engine.jobs[place]? = some p) (hreads : Reads p.task sub held) :
    w.received place (.task place) = held.elim w.channel.receive (fun _ => w.channel) := by
  simp only [received, receives, isListening, hp, Option.bind_some, decide_true, Bool.true_and]
  generalize p.task = task at hreads
  cases hreads with
  | listening => rw [if_pos rfl, Option.elim_none]
  | pending => rw [if_neg Bool.false_ne_true, Option.elim_some]

/-- The listener at a place has read what its channel has handed over and dropped; the journal had the events
`before` when the scheduler started. -/
structure Follows (place : Nat) (plan : Plan) (before : List Event) (w : Watch) : Prop where
  phase_eq : w.engine.phase = .started
  distinct : Store.DistinctRows w.engine.store
  journal_eq : w.engine.store.journal.toList = before ++ w.channel.sent
  whole : w.channel.Whole
  told_eq : w.told = w.channel.lost.length
  listener : ∃ p sub held, w.engine.jobs[place]? = some p ∧ p.plan = plan ∧ Reads p.task sub held ∧
    sub.position + w.channel.waiting.length = w.engine.store.journal.size ∧
    w.ran ++ held.toList = (w.channel.kept.filter plan.wants).map Event.record

section Follows

variable {place : Nat} {plan : Plan} {before : List Event} {w : Watch}

/-- Writes are added at the end, where the listener has not read yet. -/
theorem Follows.grow (h : Follows place plan before w) {spared : Nat → Prop} (hspared : spared place)
    {calls : List Store.Call} {e : Engine} (hleads : Leads spared w.engine calls e) :
    Follows place plan before ⟨e, w.channel.send (w.engine.store.eventsAll calls), w.taken⟩ := by
  have hjournal : e.store.journal.toList = w.engine.store.journal.toList ++ w.engine.store.eventsAll calls := by
    rw [hleads.store_eq, Store.journal_performAll h.distinct]
  refine ⟨hleads.phase_eq.trans h.phase_eq, ?_, ?_, h.whole.send _, h.told_eq, ?_⟩
  · rw [hleads.store_eq]
    exact h.distinct.performAll calls
  -- The channel is sent the very events by which the journal grows.
  · rw [hjournal, h.journal_eq, List.append_assoc, Channel.sent_send]
  · obtain ⟨p, sub, held, hp, hplan, hreads, hposition, hran⟩ := h.listener
    -- Only the state of the job may be another.
    have hjob := hleads.job_eq place hspared
    rw [hp, Option.map_some] at hjob
    obtain ⟨p', hp', hsame⟩ := Option.map_eq_some_iff.mp hjob
    have hplan' : p'.stateless.plan = p.stateless.plan := by rw [hsame]
    have htask' : p'.stateless.task = p.stateless.task := by rw [hsame]
    refine ⟨p', sub, held, hp', hplan'.trans hplan, ?_, ?_, hran⟩
    · have htask : p'.task = p.task := htask'
      rwa [htask]
    · have hsize := congrArg List.length hjournal
      simp only [List.length_append, Array.length_toList] at hsize
      simp only [Channel.send, List.length_append]
      omega

/-- A listener that has read so far takes its turn: it loses the events that are no longer kept, or takes the
next event, or runs for the record that it holds. -/
theorem nextTurn?_cases {e : Engine} {p : PlannedJob} {sub : Subscriber} {held : Option Handle} {turn : Turn}
    (hreads : Reads p.task sub held) (h : e.nextTurn? p = some turn) :
    (∃ count, held = none ∧ turn = .lose count ⟨sub.position + count⟩ ∧
        sub.position + count + 256 = e.store.journal.size ∧ 0 < count) ∨
      (∃ event, held = none ∧ e.store.journal.toList[sub.position]? = some event ∧
        e.store.journal.size ≤ sub.position + 256 ∧
        (p.plan.wants event = false ∧ turn = .skip ⟨sub.position + 1⟩ ∨
          p.plan.wants event = true ∧ ((∃ due, turn = .hold ⟨sub.position + 1⟩ event.record due) ∨
            turn = .run ⟨sub.position + 1⟩ event.record))) ∨
      ∃ record, held = some record ∧ turn = .run sub record := by
  unfold nextTurn? at h
  generalize p.task = task at hreads h
  cases hreads with
  | listening =>
    simp only at h
    cases hnext : e.store.next? sub with
    -- Nothing is left to read, so there is no turn.
    | none =>
      rw [hnext] at h
      cases h
    | some found =>
      obtain ⟨delivery, ⟨position⟩⟩ := found
      rw [hnext] at h
      rcases Store.next?_cases hnext with
        ⟨count, rfl, hposition, hsize, hcount⟩ | ⟨event, rfl, hposition, hevent, hfew⟩
      -- The reader has fallen behind.
      -- An event is read; whether the listener wants it, and its delay, choose the turn.
      · simp only at hposition hsize h
        subst hposition
        cases h
        exact .inl ⟨count, rfl, rfl, hsize, hcount⟩
      · simp only at hposition h
        subst hposition
        refine .inr (.inl ⟨event, rfl, hevent, hfew, ?_⟩)
        cases hwants : p.plan.wants event with
        | false =>
          rw [hwants] at h
          cases h
          exact .inl ⟨rfl, rfl⟩
        | true =>
          rw [hwants, if_pos rfl] at h
          cases hdelay : p.delay with
          | none =>
            rw [hdelay] at h
            cases h
            exact .inr ⟨rfl, .inr rfl⟩
          | some delay =>
            rw [hdelay] at h
            cases h
            exact .inr ⟨rfl, .inl ⟨_, rfl⟩⟩
  -- A delayed run waits for its due point.
  | pending sub record due =>
    simp only at h
    split at h <;> cases h
    exact .inr (.inr ⟨record, rfl, rfl⟩)

/-- A listener that waits for an event, and can take no turn, has read the whole journal. -/
theorem size_le_of_nextTurn?_eq_none {e : Engine} {p : PlannedJob} {sub : Subscriber}
    (hreads : Reads p.task sub none) (h : e.nextTurn? p = none) : e.store.journal.size ≤ sub.position := by
  unfold nextTurn? at h
  generalize p.task = task at hreads h
  cases hreads
  simp only at h
  cases hnext : e.store.next? sub with
  | none => exact Store.size_le_of_next?_eq_none hnext
  | some found =>
    -- Every delivery is a turn.
    rw [hnext] at h
    obtain ⟨delivery | count, sub'⟩ := found
    · simp only at h
      split at h
      · split at h <;> cases h
      · cases h
    · cases h

/-- The first event that waits is the next one of the journal. -/
theorem Follows.waiting_eq_cons (h : Follows place plan before w) {sub : Subscriber} {event : Event}
    (hposition : sub.position + w.channel.waiting.length = w.engine.store.journal.size)
    (hevent : w.engine.store.journal.toList[sub.position]? = some event) :
    ∃ rest, w.channel.waiting = event :: rest := by
  obtain ⟨read, hsent, -⟩ := h.whole.parts
  have hjournal : w.engine.store.journal.toList = (before ++ read) ++ w.channel.waiting := by
    rw [h.journal_eq, hsent, List.append_assoc]
  have hlength := congrArg List.length hjournal
  rw [Array.length_toList, List.length_append] at hlength
  have hread : sub.position = (before ++ read).length := by omega
  rw [hjournal, List.getElem?_append_right (by omega), hread, Nat.sub_self] at hevent
  cases hwaiting : w.channel.waiting with
  | nil => simp [hwaiting] at hevent
  | cons first rest =>
    rw [hwaiting, List.getElem?_cons_zero, Option.some.injEq] at hevent
    exact ⟨rest, by rw [hevent]⟩

/-- A turn that leaves the listener with another task and the channel with other contents. -/
theorem Follows.of_turn (h : Follows place plan before w) {p : PlannedJob} (hp : w.engine.jobs[place]? = some p)
    (hplan : p.plan = plan) {turn : Turn} {sub : Subscriber} {held : Option Handle} {c : Channel} (hwhole : c.Whole)
    (hsent : c.sent = w.channel.sent) (htold : w.told + turn.lost = c.lost.length)
    (hreads : Reads (some turn.task) sub held)
    (hposition : sub.position + c.waiting.length = w.engine.store.journal.size)
    (hran : w.ran ++ turn.record?.toList ++ held.toList = (c.kept.filter plan.wants).map Event.record) :
    Follows place plan before ⟨w.engine.setTask place turn.task, c, w.taken ++ [turn]⟩ where
  phase_eq := h.phase_eq
  distinct := h.distinct
  journal_eq := by rw [hsent]; exact h.journal_eq
  whole := hwhole
  told_eq := by rw [Watch.told_concat, htold]
  listener := by
    have hjob : (w.engine.setTask place turn.task).jobs[place]? = some { p with task := some turn.task } := by
      simp [setTask, modifyJob, hp]
    exact ⟨_, sub, held, hjob, hplan, hreads, hposition, by rw [Watch.ran_concat, hran]⟩

/-- A turn takes from the channel what the channel gives. -/
theorem Follows.turn (h : Follows place plan before w) {p : PlannedJob} (hp : w.engine.jobs[place]? = some p)
    {turn : Turn} (hturn : w.engine.nextTurn? p = some turn) :
    Follows place plan before ⟨w.engine.setTask place turn.task, w.received place (.task place),
      w.taken ++ [turn]⟩ := by
  obtain ⟨p', sub, held, hp', hplan, hreads, hposition, hran⟩ := h.listener
  obtain rfl : p = p' := by
    rw [hp] at hp'
    exact Option.some.inj hp'
  rw [Watch.received_of_reads hp hreads]
  rcases nextTurn?_cases hreads hturn with
    ⟨count, rfl, rfl, hsize, hcount⟩ | ⟨event, rfl, hevent, hfew, hchoice⟩ | ⟨record, rfl, rfl⟩
  -- More than 256 events wait, and those before the last 256 are gone.
  · have hlength : w.channel.waiting.length = count + 256 := by omega
    have hreceive := Channel.receive_of_excess hlength hcount
    rw [Option.elim_none]
    refine h.of_turn hp hplan h.whole.receive (Channel.sent_receive _) ?_ (.listening _) ?_ ?_
    · simp [hreceive, h.told_eq, Turn.lost, hlength]
    · simp only [hreceive, List.length_drop]
      omega
    · simpa [hreceive, Turn.record?] using hran
  -- The next event is the first one that waits.
  · obtain ⟨rest, hwaiting⟩ := h.waiting_eq_cons hposition hevent
    have hreceive := Channel.receive_of_cons hwaiting (by omega)
    rw [Option.elim_none]
    -- The position moves on by one, and one event less waits.
    have hposition' : sub.position + 1 + w.channel.receive.waiting.length = w.engine.store.journal.size := by
      rw [hwaiting, List.length_cons] at hposition
      simp only [hreceive]
      omega
    have htold : w.told = w.channel.receive.lost.length := by rw [hreceive, h.told_eq]
    have hkept : w.channel.receive.kept = w.channel.kept ++ [event] := by rw [hreceive]
    rw [hplan] at hchoice
    simp only [Option.toList_none, List.append_nil] at hran
    rcases hchoice with ⟨hwants, rfl⟩ | ⟨hwants, ⟨due, rfl⟩ | rfl⟩
    -- It is skipped, held for later, or run for at once.
    · refine h.of_turn hp hplan h.whole.receive (Channel.sent_receive _) htold (.listening _) hposition' ?_
      simp [hkept, hran, hwants, Turn.record?]
    · refine h.of_turn hp hplan h.whole.receive (Channel.sent_receive _) htold (.pending _ _ due) hposition' ?_
      simp [hkept, hran, hwants, Turn.record?]
    · refine h.of_turn hp hplan h.whole.receive (Channel.sent_receive _) htold (.listening _) hposition' ?_
      simp [hkept, hran, hwants, Turn.record?]
  -- A delayed run reads nothing; the record that was held is run for now.
  · exact h.of_turn hp hplan h.whole rfl h.told_eq (.listening _) hposition (by simpa [Turn.record?] using hran)

/-- **A listener follows the writes through every move of the engine.** -/
theorem Follows.perform (h : Follows place plan before w) {entity : String} {event : EventKind}
    (hplan : plan = .lifecycle entity event) (move : Move) :
    Follows place plan before (w.perform place move) := by
  by_cases hstart : move = .start
  -- A scheduler that runs is not started again.
  · obtain ⟨notice, hnotice⟩ := start_of_started h.phase_eq
    have hgrow := h.grow trivial (leads_notify (fun _ => True) w.engine notice)
    rw [hstart, Watch.perform, hnotice]
    simpa [calls, turns, Watch.received, receives] using hgrow
  · by_cases htask : move = .task place
    · obtain ⟨p, sub, held, hp, hp', hreads, hposition, -⟩ := h.listener
      rw [htask, Watch.perform_task hp (hp'.trans hplan)]
      cases hturn : w.engine.nextTurn? p with
      | none =>
        -- A receive from an empty channel changes nothing.
        have hsame : w.received place (.task place) = w.channel := by
          rw [Watch.received_of_reads hp hreads]
          cases held with
          | some record => rfl
          | none =>
            have hsize := size_le_of_nextTurn?_eq_none hreads hturn
            rw [Option.elim_none, Channel.receive_of_nil (List.length_eq_zero_iff.mp (by omega))]
        rw [hsame]
        exact h
      | some turn =>
        -- The listener has its next task first, and then runs its body on the store.
        exact (h.turn hp hturn).grow trivial (leads_takeTurn (fun _ => True) w.engine place p turn)
    · have hspared : move.spares place := by
        cases move with
        | task other => exact fun heq => htask (by rw [heq])
        | _ => trivial
      have hturns : w.engine.turns place move = [] := by
        cases move with
        | task other => exact if_neg (fun heq => htask (by rw [heq]))
        | _ => rfl
      have hreceives : w.engine.receives place move = false := by
        cases move with
        | task other =>
          have hother : other ≠ place := fun heq => htask (by rw [heq])
          simp [receives, hother]
        | _ => rfl
      have hgrow := h.grow hspared (w.engine.leads_perform hstart)
      rw [Watch.perform, Watch.received, hturns, hreceives, List.append_nil]
      exact hgrow

theorem Follows.after {e : Engine} (h : Follows place plan before ⟨e, .empty, []⟩) {entity : String}
    {event : EventKind} (hplan : plan = .lifecycle entity event) (moves : List Move) :
    Follows place plan before (Watch.after e place moves) := by
  induction moves using List.reverseRecOn with
  | nil => exact h
  | append_singleton moves move ih =>
    rw [Watch.after_concat]
    exact ih.perform hplan move

/-- The start of the scheduler makes a listener read from the end of the journal on. -/
theorem follows_start {e e' : Engine} {p : PlannedJob} {entity : String} {event : EventKind}
    (hdistinct : Store.DistinctRows e.store) (hp : e.jobs[place]? = some p) (hplan : p.plan = .lifecycle entity event)
    (hstart : e.start = (true, e')) :
    Follows place (.lifecycle entity event) e.store.journal.toList ⟨e', .empty, []⟩ := by
  unfold start at hstart
  split at hstart
  · unfold startScheduler at hstart
    split at hstart
    · cases hstart
      refine ⟨rfl, hdistinct, (List.append_nil _).symm, Channel.whole_empty, rfl, ?_⟩
      refine ⟨p.start e.store, e.store.subscribe, none, ?_, hplan, ?_, rfl, rfl⟩
      · simp [notify, hp]
      · simp only [PlannedJob.start, hplan]
        exact .listening _
    · cases hstart
  · cases hstart

end Follows

/-! ## Drained listeners -/

/-- Whether the listener at a place waits for events and there is none. -/
def isDrained (e : Engine) (place : Nat) : Bool :=
  match e.jobs[place]?.bind PlannedJob.task with
  | some (.listening sub) => (e.store.next? sub).isNone
  | _ => false

/-- The number of events that wait for the listener at a place, when it is ready to take the next one. -/
def backlog (e : Engine) (place : Nat) : Nat :=
  match e.jobs[place]?.bind PlannedJob.task with
  | some (.listening sub) => e.store.journal.size - sub.position
  | _ => 0

/-- The channel of a drained listener is empty, and the listener has run for all that it wants of what the
channel handed over. -/
theorem Follows.ran_of_drained {place : Nat} {plan : Plan} {before : List Event} {w : Watch}
    (h : Follows place plan before w) (hdrained : w.engine.isDrained place = true) :
    w.channel.waiting = [] ∧ w.ran = (w.channel.kept.filter plan.wants).map Event.record := by
  obtain ⟨p, sub, held, hp, -, hreads, hposition, hran⟩ := h.listener
  unfold isDrained at hdrained
  rw [hp, Option.bind_some] at hdrained
  generalize p.task = task at hreads hdrained
  cases hreads with
  | pending sub record due => cases hdrained
  | listening =>
    -- The position is at the end of the journal.
    have hsize := Store.size_le_of_next?_eq_none (Option.isNone_iff_eq_none.mp hdrained)
    exact ⟨List.length_eq_zero_iff.mp (by omega), by simpa using hran⟩

/-- A turn tells of a loss only if more than 256 events wait. -/
theorem lost_of_nextTurn? {e : Engine} {place : Nat} {p : PlannedJob} {turn : Turn}
    (hp : e.jobs[place]? = some p) (hbacklog : e.backlog place ≤ 256) (h : e.nextTurn? p = some turn) :
    turn.lost = 0 := by
  unfold backlog at hbacklog
  rw [hp, Option.bind_some] at hbacklog
  -- By what the task is; only a listener that waits for an event can be told of a loss.
  rcases htask : p.task with - | (- | due | due | - | sub | ⟨sub, record, due⟩)
  case some.listening =>
    have hreads : Reads p.task sub none := htask ▸ .listening sub
    rw [htask] at hbacklog
    simp only at hbacklog
    rcases nextTurn?_cases hreads h with
      ⟨count, -, rfl, hsize, hcount⟩ | ⟨event, -, -, -, hchoice⟩ | ⟨record, -, rfl⟩
    · omega
    · rcases hchoice with ⟨-, rfl⟩ | ⟨-, ⟨due, rfl⟩ | rfl⟩ <;> rfl
    · rfl
  case some.pending =>
    unfold nextTurn? at h
    rw [htask] at h
    simp only at h
    split at h <;> cases h
    rfl
  all_goals
    unfold nextTurn? at h
    rw [htask] at h
    cases h

/-- A listener loses nothing in a move if at most 256 events wait for it. -/
theorem lost_of_backlog {e : Engine} {place : Nat} (hbacklog : e.backlog place ≤ 256) (move : Move) :
    ((e.turns place move).map Turn.lost).sum = 0 := by
  cases move with
  | task other =>
    by_cases heq : other = place
    · simp only [turns, heq, if_true]
      cases hturn : e.jobs[place]?.bind e.nextTurn? with
      | none => rfl
      | some turn =>
        obtain ⟨p, hp, hnext⟩ := Option.bind_eq_some_iff.mp hturn
        simp [lost_of_nextTurn? hp hbacklog hnext]
    · simp [turns, heq]
  | _ => rfl

/-- Over all moves a listener is told of no loss, as long as at most 256 events wait before
each of them. -/
theorem Watch.told_eq_zero {e : Engine} {place : Nat} {moves : List Move}
    (hbacklog : ∀ earlier, earlier <+: moves → (e.after earlier).backlog place ≤ 256) :
    (Watch.after e place moves).told = 0 := by
  induction moves using List.reverseRecOn with
  | nil => rfl
  | append_singleton moves move ih =>
    have hearlier := ih (fun earlier h => hbacklog earlier (h.trans (List.prefix_append _ _)))
    have hlast := hbacklog moves (List.prefix_append _ _)
    rw [← Watch.engine_after e place moves] at hlast
    unfold Watch.told at hearlier ⊢
    rw [Watch.after_concat, Watch.perform, List.map_append, List.sum_append, hearlier, lost_of_backlog hlast]

/-- **A listener runs for the writes that it wants.** Take an engine of any program, any moves before the
scheduler is started, and any moves afterwards: requests, runs, seeding and store calls, and the steps of all
tasks, in any order. Whenever the listener of a job for an entity and an event is drained, its channel is empty,
each write since the start was either handed over by the channel or dropped, and the listener has run for the
records of the wanted writes among those handed over, in their order and once for each, whatever came of the
runs; it was told how many were dropped. A write is dropped only when the listener asks for an event while more
than 256 wait, and then it is one of those before the last 256 (`Channel.receive`). As long as at most 256 events
wait when it asks, nothing is dropped. -/
theorem listeners_run_for_writes {program : Program} {enabled : Bool} {clock : Clock} {e₀ e : Engine}
    {place : Nat} {job : Job} {entity : String} {event : EventKind} (earlier moves : List Move)
    (hengine : ofProgram program enabled clock = .ok e₀) (hjob : program.jobs[place]? = some job)
    (htrigger : job.trigger = .lifecycle entity event) (hstart : (e₀.after earlier).start = (true, e))
    (hdrained : (e.after moves).isDrained place = true) :
    let w := Watch.after e place moves
    let wanted := fun written : Event => decide (written.entity = entity ∧ written.kind = event)
    (w.channel.waiting = [] ∧ w.channel.kept.Sublist w.channel.sent ∧ w.channel.lost.Sublist w.channel.sent ∧
      (w.channel.kept ++ w.channel.lost).Perm w.channel.sent ∧ w.told = w.channel.lost.length ∧
      w.ran = (w.channel.kept.filter wanted).map Event.record) ∧
    ((∀ begun, begun <+: moves → (e.after begun).backlog place ≤ 256) →
      w.told = 0 ∧ w.ran = (w.channel.sent.filter wanted).map Event.record) := by
  intro w wanted
  obtain ⟨hdistinct, p, hp, hplan⟩ := after_spec hengine earlier hjob htrigger
  have hfollows : Follows place (.lifecycle entity event) _ w :=
    (follows_start hdistinct hp hplan hstart).after rfl moves
  have hwants : (Plan.lifecycle entity event).wants = wanted := by
    funext written
    simp [Plan.wants, wanted]
  obtain ⟨hwaiting, hran⟩ := hfollows.ran_of_drained (by rwa [Watch.engine_after])
  rw [hwants] at hran
  -- Nothing waits, so what was handed over or dropped is all that was sent.
  obtain ⟨read, hsent, hkept, hlost, hperm⟩ := hfollows.whole.parts
  rw [hwaiting, List.append_nil] at hsent
  rw [← hsent] at hkept hlost hperm
  refine ⟨⟨hwaiting, hkept, hlost, hperm, hfollows.told_eq, hran⟩, ?_⟩
  intro hbacklog
  have htold : w.told = 0 := Watch.told_eq_zero hbacklog
  have hnone : w.channel.lost = [] := List.length_eq_zero_iff.mp (hfollows.told_eq.symm.trans htold)
  rw [hnone, List.append_nil] at hperm
  rw [hran, hkept.eq_of_length hperm.length_eq]
  exact ⟨htold, rfl⟩

/-- A run of another job writes two records that the listener wants and one that it does not; the host writes
a third one. The body of the listener fails each time, and its turns come at different times. -/
theorem listeners_run_for_writes_of_failure :
    let create (entity : String) : Stmt :=
      .expression (.call (.member (.member (.identifier "db") entity) "create") [])
    let watch : Job := ⟨"watch", .lifecycle "A" .created, none, [.expression (.identifier "missing")]⟩
    let write : Job := ⟨"write", .lifecycle "C" .created, none, [create "A", create "B", create "A"]⟩
    let e₀ : Engine := ⟨true, [], [⟨watch, .lifecycle "A" .created, none, .idle, none⟩,
      ⟨write, .lifecycle "C" .created, none, .idle, none⟩], .idle, .empty, .fixed 0, 0, #[]⟩
    let earlier : List Move := [.call (.create "A" [])]
    let e : Engine := (e₀.after earlier).start.2
    let moves : List Move :=
      [.runJob "write", .task 0, .call (.create "A" []), .task 0, .task 0, .task 1, .task 0]
    ofProgram ⟨[], [], [watch, write]⟩ true (.fixed 0) = .ok e₀ ∧ (e₀.after earlier).start = (true, e) ∧
      (e.after moves).isDrained 0 = true ∧ (∀ begun, begun <+: moves → (e.after begun).backlog 0 ≤ 256) ∧
      (Watch.after e 0 moves).ran = [⟨1⟩, ⟨3⟩, ⟨4⟩] := by
  intro create watch write e₀ earlier e moves
  have hengine : ofProgram ⟨[], [], [watch, write]⟩ true (.fixed 0) = .ok e₀ := rfl
  have hstart : (e₀.after earlier).start = (true, e) := Prod.ext (by cbv) rfl
  have hdrained : (e.after moves).isDrained 0 = true := by cbv
  -- The backlog is counted before each of the moves.
  have hbacklog : ∀ begun, begun <+: moves → (e.after begun).backlog 0 ≤ 256 := by
    have hall : moves.inits.all (fun begun => decide ((e.after begun).backlog 0 ≤ 256)) = true := by cbv
    intro begun hbegun
    exact of_decide_eq_true (List.all_eq_true.mp hall begun ((List.mem_inits begun moves).mpr hbegun))
  refine ⟨hengine, hstart, hdrained, hbacklog, ?_⟩
  obtain ⟨-, hran⟩ := listeners_run_for_writes earlier moves hengine rfl rfl hstart hdrained
  rw [(hran hbacklog).2]
  cbv

/-! ## More than 256 events -/

section Lagging

variable {place : Nat} {p : PlannedJob} {sub : Subscriber} {entity : String} {event : EventKind}

/-- A listener that does not want the next event only reads on. -/
theorem Watch.perform_skip {w : Watch} {written : Event} (hp : w.engine.jobs[place]? = some p)
    (hplan : p.plan = .lifecycle entity event) (htask : p.task = some (.listening sub))
    (hkept : w.engine.store.journal.size ≤ sub.position + 256)
    (hevent : w.engine.store.journal[sub.position]? = some written) (hskip : p.plan.wants written = false) :
    w.perform place (.task place) = ⟨w.engine.setTask place (.listening ⟨sub.position + 1⟩), w.channel.receive,
      w.taken ++ [.skip ⟨sub.position + 1⟩]⟩ := by
  have hnext : w.engine.store.next? sub = some (.event written, ⟨sub.position + 1⟩) := by
    have hnot : ¬ sub.position + Subscriber.capacity < w.engine.store.journal.size := Nat.not_lt.mpr hkept
    simp only [Store.next?, hnot, if_false, hevent]
  have hturn : w.engine.nextTurn? p = some (.skip ⟨sub.position + 1⟩) := by
    simp [nextTurn?, htask, hnext, hskip]
  have hreads : Reads p.task sub none := htask ▸ .listening sub
  rw [Watch.perform_task hp hplan, hturn, Watch.received_of_reads hp hreads]
  simp [takeTurn, turnCalls, Store.eventsAll]

/-- Events that a listener does not want are read one after the other. -/
theorem Watch.skips {w : Watch} {count : Nat} (hp : w.engine.jobs[place]? = some p)
    (hplan : p.plan = .lifecycle entity event) (htask : p.task = some (.listening sub))
    (hsize : w.engine.store.journal.size = sub.position + count) (hcount : count ≤ 256)
    (hskip : ∀ written ∈ w.engine.store.journal.toList.drop sub.position, p.plan.wants written = false) :
    let w' := (List.replicate count (Move.task place)).foldl (Watch.perform place) w
    w'.engine.isDrained place = true ∧ w'.ran = w.ran ∧ w'.channel.sent = w.channel.sent := by
  induction count generalizing w p sub with
  -- Nothing is left to read.
  | zero => exact ⟨by simp [isDrained, hp, htask, Store.next?, hsize], rfl, rfl⟩
  | succ count ih =>
    have hlt : sub.position < w.engine.store.journal.toList.length := by
      rw [Array.length_toList]
      omega
    have hdrop := List.drop_eq_getElem_cons hlt
    rw [hdrop] at hskip
    obtain ⟨hfirst, hrest⟩ := List.forall_mem_cons.mp hskip
    -- The first event is skipped, and the hypothesis reads the others.
    have hstep := Watch.perform_skip hp hplan htask (by omega) (by simp) hfirst
    rw [List.replicate_succ, List.foldl_cons, hstep]
    have hjob : (w.engine.setTask place (.listening ⟨sub.position + 1⟩)).jobs[place]? =
        some { p with task := some (.listening ⟨sub.position + 1⟩) } := by
      simp [setTask, modifyJob, hp]
    have hleft : w.engine.store.journal.size = sub.position + 1 + count := by omega
    obtain ⟨hdrained, hran, hwritten⟩ := ih
      (w := ⟨w.engine.setTask place (.listening ⟨sub.position + 1⟩), w.channel.receive,
        w.taken ++ [.skip ⟨sub.position + 1⟩]⟩) hjob hplan rfl hleft (by omega) hrest
    rw [Channel.sent_receive] at hwritten
    refine ⟨hdrained, ?_, hwritten⟩
    rw [hran, Watch.ran_concat]
    simp [Turn.record?]

/-- A listener that is told of a loss, and wants none of the 256 events that are left, runs for nothing. -/
theorem Watch.lags {w : Watch} {count : Nat} (hp : w.engine.jobs[place]? = some p)
    (hplan : p.plan = .lifecycle entity event) (htask : p.task = some (.listening sub))
    (hsize : w.engine.store.journal.size = sub.position + count + 256) (hcount : 0 < count)
    (hskip : ∀ written ∈ w.engine.store.journal.toList.drop (sub.position + count), p.plan.wants written = false) :
    let w' := (List.replicate 257 (Move.task place)).foldl (Watch.perform place) w
    w'.engine.isDrained place = true ∧ w'.ran = w.ran ∧ w'.channel.sent = w.channel.sent := by
  have hnext : w.engine.store.next? sub = some (.lagged count, ⟨sub.position + count⟩) := by
    have hcapacity : Subscriber.capacity = 256 := rfl
    have hlag : sub.position + Subscriber.capacity < w.engine.store.journal.size := by omega
    have holdest : w.engine.store.journal.size - Subscriber.capacity = sub.position + count := by omega
    simp only [Store.next?, hlag, if_true, holdest, Nat.add_sub_cancel_left]
  have hturn : w.engine.nextTurn? p = some (.lose count ⟨sub.position + count⟩) := by
    simp [nextTurn?, htask, hnext]
  -- The first turn tells of the loss, and the other 256 read the events that are left.
  have hstep := Watch.perform_task hp hplan
  have hreads : Reads p.task sub none := htask ▸ .listening sub
  rw [hturn, Option.elim_some, Watch.received_of_reads hp hreads, Option.elim_none] at hstep
  have hjob : (w.engine.takeTurn place p (.lose count ⟨sub.position + count⟩)).jobs[place]? =
      some { p with task := some (.listening ⟨sub.position + count⟩) } := by
    simp [takeTurn, notify, setTask, modifyJob, hp]
  rw [List.replicate_succ, List.foldl_cons, hstep]
  obtain ⟨hdrained, hran, hwritten⟩ := Watch.skips
    (w := ⟨w.engine.takeTurn place p (.lose count ⟨sub.position + count⟩),
      w.channel.receive.send (w.engine.store.eventsAll []), w.taken ++ [.lose count ⟨sub.position + count⟩]⟩)
    hjob hplan rfl hsize (le_refl 256) hskip
  refine ⟨hdrained, hran.trans ?_, hwritten.trans ?_⟩
  · rw [Watch.ran_concat]
    simp [Turn.record?]
  · simp [Store.eventsAll]

/-- Calls of the host are sent to the channel, and the listener takes no turn. -/
theorem Watch.foldl_calls (w : Watch) (place : Nat) (calls : List Store.Call) :
    (calls.map Move.call).foldl (Watch.perform place) w =
      ⟨{ w.engine with store := w.engine.store.performAll calls },
        w.channel.send (w.engine.store.eventsAll calls), w.taken⟩ := by
  induction calls generalizing w with
  | nil => simp [Store.performAll, Store.eventsAll]
  | cons call rest ih =>
    rw [List.map_cons, List.foldl_cons, ih]
    simp [Watch.perform, Watch.received, Engine.perform, Engine.calls, turns, receives, Store.performAll,
      Store.eventsAll]

/-- Writes that come before the turns of a listener, too many of them to be kept. -/
theorem Watch.lags_after_calls {e : Engine} {calls : List Store.Call} {count : Nat} (hp : e.jobs[place]? = some p)
    (hplan : p.plan = .lifecycle entity event) (htask : p.task = some (.listening sub))
    (hsize : (e.store.performAll calls).journal.size = sub.position + count + 256) (hcount : 0 < count)
    (hskip : ∀ written ∈ (e.store.performAll calls).journal.toList.drop (sub.position + count),
      p.plan.wants written = false) :
    let moves := calls.map Move.call ++ List.replicate 257 (.task place)
    (e.after moves).isDrained place = true ∧ (Watch.after e place moves).ran = [] ∧
      (Watch.after e place moves).channel.sent = e.store.eventsAll calls := by
  intro moves
  have hmoves : Watch.after e place moves = (List.replicate 257 (Move.task place)).foldl (Watch.perform place)
      ⟨{ e with store := e.store.performAll calls }, Channel.empty.send (e.store.eventsAll calls), []⟩ := by
    rw [Watch.after, List.foldl_append, Watch.foldl_calls]
  rw [← Watch.engine_after e place, hmoves]
  exact Watch.lags
    (w := ⟨{ e with store := e.store.performAll calls }, Channel.empty.send (e.store.eventsAll calls), []⟩)
    hp hplan htask hsize hcount hskip

theorem eventsAll_create_cons (s : Store) (entity : String) (fields : Fields Value) (rest : List Store.Call) :
    s.eventsAll (.create entity fields :: rest) =
      ⟨entity, .created, (s.create entity fields).1⟩ :: (s.create entity fields).2.eventsAll rest := rfl

/-- Each `create` causes one event of its entity. -/
theorem eventsAll_creates (s : Store) (entity : String) (fields : Fields Value) (count : Nat) :
    (s.eventsAll (List.replicate count (.create entity fields))).length = count ∧
      ∀ written ∈ s.eventsAll (List.replicate count (.create entity fields)), written.entity = entity := by
  induction count generalizing s with
  | zero => exact ⟨rfl, nofun⟩
  | succ count ih =>
    obtain ⟨hlength, hentity⟩ := ih (s.create entity fields).2
    rw [List.replicate_succ, eventsAll_create_cons, List.length_cons, hlength]
    exact ⟨rfl, List.forall_mem_cons.mpr ⟨rfl, hentity⟩⟩

end Lagging

/-- **A write can be lost.** The listener wants the first of 257 writes, and its turn comes after the last one.
Then it is told of one loss and reads the other writes, none of which it wants; it has run for nothing. -/
theorem listener_loses_write :
    let watch : Job := ⟨"watch", .lifecycle "A" .created, none, []⟩
    let calls : List Store.Call := .create "A" [] :: List.replicate 256 (.create "B" [])
    let moves : List Move := calls.map .call ++ List.replicate 257 (.task 0)
    ∃ e₀ e : Engine, ofProgram ⟨[], [], [watch]⟩ true (.fixed 0) = .ok e₀ ∧ e₀.start = (true, e) ∧
      (e.after moves).isDrained 0 = true ∧
      let w := Watch.after e 0 moves
      w.ran = [] ∧ (w.channel.sent.filter (fun written => decide (written.entity = "A" ∧ written.kind = .created))).map
        Event.record = [⟨0⟩] := by
  intro watch calls moves
  let p : PlannedJob := ⟨watch, .lifecycle "A" .created, none, .scheduled, some (.listening ⟨0⟩)⟩
  obtain ⟨e, hstart, hstore, hp⟩ : ∃ e : Engine, (⟨true, [], [⟨watch, .lifecycle "A" .created, none, .idle, none⟩],
      .idle, .empty, .fixed 0, 0, #[]⟩ : Engine).start = (true, e) ∧ e.store = .empty ∧ e.jobs[0]? = some p :=
    ⟨_, rfl, rfl, rfl⟩
  -- All writes come before the first turn, and their events are one for `A` and 256 for `B`.
  obtain ⟨others, hcalls, hlength, hentity⟩ : ∃ others, Store.eventsAll .empty calls = ⟨"A", .created, ⟨0⟩⟩ :: others ∧
      others.length = 256 ∧ ∀ written ∈ others, written.entity = "B" :=
    ⟨_, eventsAll_create_cons .empty "A" [] _, eventsAll_creates _ "B" [] 256⟩
  clear_value calls
  have hjournal : (e.store.performAll calls).journal.toList = ⟨"A", .created, ⟨0⟩⟩ :: others := by
    rw [hstore, Store.journal_performAll Store.distinctRows_empty, hcalls]
    rfl
  have hsize : (e.store.performAll calls).journal.size = 0 + 1 + 256 := by
    rw [← Array.length_toList, hjournal, List.length_cons, hlength]
  have hskip : ∀ written ∈ (e.store.performAll calls).journal.toList.drop (0 + 1), p.plan.wants written = false := by
    rw [hjournal]
    intro written hwritten
    simp [p, Plan.wants, hentity written hwritten]
  obtain ⟨hdrained, hran, hwritten⟩ := Watch.lags_after_calls hp rfl rfl hsize Nat.zero_lt_one hskip
  refine ⟨_, e, rfl, hstart, hdrained, hran, ?_⟩
  have hnone : others.filter (fun written => decide (written.entity = "A" ∧ written.kind = .created)) = [] := by
    refine List.filter_eq_nil_iff.mpr ?_
    intro written hmem
    simp [hentity written hmem]
  rw [hwritten, hstore, hcalls, List.filter_cons_of_pos (by decide), hnone]
  rfl

end Engine

end ServiceEngine
