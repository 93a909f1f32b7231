import ThunderForge.Basic
import ThunderForge.Delivery.Relay
import ThunderForge.Lib.Json

/-! The event table and the loop that delivers it, in any order of their steps. An id is taken when a row is
inserted and the row is seen when its transaction commits; the two orders need not agree. A poll reads the table at
one time and what it read is absorbed at a later one, or never. -/

namespace ThunderForge.Delivery

/-- A row of `world_events`, as far as it is delivered. -/
structure WorldEvent where
  id : Int
  worldId : Uuid
  eventCode : Int
  tokenEvent : Option Json
  createdAt : NaiveDateTime

instance : Stamped WorldEvent where
  stamp event := { id := event.id, createdAt := event.createdAt }

@[simp] theorem rowId_event (event : WorldEvent) : rowId event = event.id := rfl

/-- Events drained per poll. -/
def pollBatchSize : Nat := 256

/-- `poll_new_events_with_conn`: the rows with an id above the cursor, in ascending order, up to the batch size. -/
def pollNewEvents (table : List WorldEvent) (afterId : Int) : List WorldEvent :=
  Tailing.window rowId pollBatchSize afterId table

/-- How reading the highest id goes: there is no connection, the query fails, or it answers. -/
inductive MaxRead
  | noConnection
  | queryFailed
  | answered
deriving DecidableEq

/-- `current_max_event_id`: the highest id recorded, or `none` without a connection. A query that fails is `0`, as an
empty table is. -/
def currentMaxEventId (read : MaxRead) (table : List WorldEvent) : Option Int :=
  match read with
  | .noConnection => none
  | .queryFailed => some 0
  | .answered => (table.map WorldEvent.id).max?.or (some 0)

/-- Counters that make a stall visible from outside the process. -/
structure DeliveryMetrics where
  polls : Nat := 0
  sent : Nat := 0
  errors : Nat := 0
  panics : Nat := 0
  timeouts : Nat := 0
  cursor : Int := 0

/-- How a poll fails: it returns an error, it panics, or it is abandoned. -/
inductive PollFailure
  | error
  | panicked
  | timedOut
deriving DecidableEq

def DeliveryMetrics.failed (metrics : DeliveryMetrics) : PollFailure → DeliveryMetrics
  | .error => { metrics with polls := metrics.polls + 1, errors := metrics.errors + 1 }
  | .panicked => { metrics with polls := metrics.polls + 1, panics := metrics.panics + 1 }
  | .timedOut => { metrics with polls := metrics.polls + 1, timeouts := metrics.timeouts + 1 }

/-- What a poll read from the table, and when. -/
structure Fetched where
  readAt : NaiveDateTime
  rows : List WorldEvent

/-- The delivery loop, once it has its starting cursor; `fetched` while a poll is under way. -/
structure Listening where
  relay : Relay
  fetched : Option Fetched

/-- A row of a transaction that is still open: it has its id, and no other connection sees it. -/
structure Held where
  tx : Nat
  row : WorldEvent
  takenAt : NaiveDateTime

/-- The table with the transactions writing to it, and the listener. -/
structure Backplane where
  clock : NaiveDateTime
  nextId : Int
  held : List Held
  table : List WorldEvent
  listening : Option Listening
  metrics : DeliveryMetrics
  broadcast : List WorldEvent

/-- What happens, one thing at a time. -/
inductive Action
  | tick (elapsed : Nat)
  | insert (tx : Nat) (worldId : Uuid) (eventCode : Int) (tokenEvent : Option Json) (createdAt : NaiveDateTime)
  | commit (tx : Nat)
  | rollback (tx : Nat)
  | purge (ids : List Int)
  | highWater (read : MaxRead)
  | fetch
  | absorb
  | fail (failure : PollFailure)

/-- The rows of a transaction that is still open. -/
def Backplane.rowsOf (s : Backplane) (tx : Nat) : List WorldEvent := (s.held.filter (·.tx = tx)).map Held.row

/-- A poll is taken in: its new rows are broadcast and the cursor moves. -/
def Backplane.absorb (s : Backplane) (listening : Listening) (fetched : Fetched) : Backplane :=
  let (relay, publish) := listening.relay.absorb fetched.rows s.clock
  { s with
    listening := some { relay, fetched := none },
    metrics := { s.metrics with
      polls := s.metrics.polls + 1, cursor := relay.cursor, sent := s.metrics.sent + publish.length },
    broadcast := s.broadcast ++ publish }

/-- One step of `run_delivery`, of a transaction, or of time. What is not possible changes nothing. -/
def Backplane.step (s : Backplane) : Action → Backplane
  | .tick elapsed => { s with clock := s.clock + elapsed }
  | .insert tx worldId eventCode tokenEvent createdAt =>
      { s with
        nextId := s.nextId + 1,
        held := s.held ++
          [{ tx, row := { id := s.nextId, worldId, eventCode, tokenEvent, createdAt }, takenAt := s.clock }] }
  | .commit tx => { s with held := s.held.filter (·.tx ≠ tx), table := s.table ++ s.rowsOf tx }
  | .rollback tx => { s with held := s.held.filter (·.tx ≠ tx) }
  | .purge ids => { s with table := s.table.filter (·.id ∉ ids) }
  | .highWater read =>
      match s.listening, currentMaxEventId read s.table with
      | none, some startAfter =>
          { s with
            listening := some { relay := Relay.start startAfter, fetched := none },
            metrics := { s.metrics with cursor := startAfter } }
      | _, _ => s
  | .fetch =>
      match s.listening with
      | some { relay, fetched := none } =>
          { s with listening := some { relay, fetched := some ⟨s.clock, pollNewEvents s.table relay.cursor⟩ } }
      | _ => s
  | .absorb =>
      match s.listening with
      | some { relay, fetched := some fetched } => s.absorb { relay, fetched := some fetched } fetched
      | _ => s
  | .fail failure =>
      match s.listening with
      | some { relay, fetched := some _ } =>
          { s with listening := some { relay, fetched := none }, metrics := s.metrics.failed failure }
      | _ => s

/-- A server that has just started on a table. -/
def Backplane.boot (clock : NaiveDateTime) (nextId : Int) (table : List WorldEvent) : Backplane :=
  { clock, nextId, held := [], table, listening := none, metrics := {}, broadcast := [] }

/-- The rows that are there, seen by all or as yet by their own transaction only. -/
def Backplane.live (s : Backplane) : List WorldEvent := s.table ++ s.held.map Held.row

theorem Backplane.mem_live {s : Backplane} {row : WorldEvent} :
    row ∈ s.live ↔ row ∈ s.table ∨ ∃ held ∈ s.held, held.row = row := by
  simp [Backplane.live]

/-- A state of a run. -/
abbrev Backplane.run (s : Backplane) (acts : List Action) : Backplane := Run.run Backplane.step s acts

end ThunderForge.Delivery
