import ServiceEngine.Store.Basic

/-!
# Subscribers

A subscriber reads the journal from the moment it subscribed. At most the last 256 events wait for
it: when more have happened since it last read, it first learns how many it has lost.
-/

namespace ServiceEngine

/-- How much of the journal a subscriber has read. Mirrors the receiver that `Database::subscribe`
gives. -/
structure Subscriber where
  position : Nat
  deriving DecidableEq, Repr

/-- The number of events that wait for a subscriber. Mirrors `EVENT_CAPACITY`. -/
def Subscriber.capacity : Nat := 256

/-- What a subscriber reads next. -/
inductive Delivery where
  | event (event : Event)
  | lagged (count : Nat)
  deriving DecidableEq, Repr

namespace Store

/-- A subscriber for the writes after now. -/
def subscribe (s : Store) : Subscriber := ⟨s.journal.size⟩

/-- The next delivery, and the subscriber after it. Mirrors the `recv` of a broadcast receiver,
which reports a lag before it goes on with the oldest event kept. -/
def next? (s : Store) (sub : Subscriber) : Option (Delivery × Subscriber) :=
  if sub.position + Subscriber.capacity < s.journal.size then
    let oldest := s.journal.size - Subscriber.capacity
    some (.lagged (oldest - sub.position), ⟨oldest⟩)
  else match s.journal[sub.position]? with
    | some event => some (.event event, ⟨sub.position + 1⟩)
    | none => none

/-- Read deliveries, at most `limit` of them. -/
def drainUpTo (s : Store) : Nat → Subscriber → List Delivery × Subscriber
  | 0, sub => ([], sub)
  | limit + 1, sub =>
    match s.next? sub with
    | none => ([], sub)
    | some (delivery, sub) =>
      let (rest, sub) := s.drainUpTo limit sub
      (delivery :: rest, sub)

/-- Read everything that waits: one notice of loss at most, and the events kept. -/
def drain (s : Store) (sub : Subscriber) : List Delivery × Subscriber :=
  s.drainUpTo (Subscriber.capacity + 1) sub

end Store

end ServiceEngine
