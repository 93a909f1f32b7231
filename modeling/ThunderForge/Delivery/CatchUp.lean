import Mathlib
import ThunderForge.Delivery.Backplane
import ThunderForge.Lib.Rising

/-! Catching up on the events a client missed (`world_events_since.rs`, `subscriptionClient.ts`). A tab holds one
cursor for a world and several consumers with a mark each; a query answers what is above the cursor, and its rows are
handed to every consumer as though they had arrived live. In between, the subscriptions go on. -/

namespace ThunderForge.Delivery

open Rising

def eventCodeRollMade : Int := 36

def eventCodeRollRevealed : Int := 37

/-- What decides which events someone catches up on. -/
structure Viewer where
  runsTheWorld : Bool
  rollsClearedAt : Option NaiveDateTime

/-- `token_event->>'visibility'`. -/
def visibilityText (event : WorldEvent) : Option String :=
  (event.tokenEvent.bind (·.get? "visibility")).bind fun value => match value with
    | .null => none
    | .string text => some text
    | _ => some ""

/-- A roll recorded at or before the last clear is caught up by no one, and a GM only roll by no player; one that
carries no visibility is withheld as well, since the comparison is then unknown. -/
def Viewer.sees (viewer : Viewer) (event : WorldEvent) : Bool :=
  (viewer.rollsClearedAt.all fun clearedAt =>
    (event.eventCode ≠ eventCodeRollMade && event.eventCode ≠ eventCodeRollRevealed) || clearedAt < event.createdAt) &&
  (viewer.runsTheWorld || event.eventCode ≠ eventCodeRollMade ||
    (visibilityText event).any fun visibility => visibility ≠ "gm_only")

/-- The most events one catch-up will return. -/
def catchUpLimit : Nat := 200

/-- What one client missed. -/
structure WorldEventCatchUp where
  events : List WorldEvent
  truncated : Bool
  latestId : Int

/-- What a member is owed after an id. The newest id is read after the rows. -/
def catchUp (viewer : Viewer) (afterId : Int) (table later : List WorldEvent) : WorldEventCatchUp :=
  let rows := Tailing.window rowId (catchUpLimit + 1) afterId (table.filter viewer.sees)
  { events := rows.take catchUpLimit
    truncated := rows.length > catchUpLimit
    latestId := ((later.filter viewer.sees).map WorldEvent.id).max?.getD 0 }

/-- One consumer of a world's events; `offered` is all that came to it. -/
structure Consumer where
  handle : Nat
  highWater : Int
  handed : List WorldEvent
  offered : List WorldEvent

/-- Hand one event to this consumer, unless it is not newer than what it has already taken. -/
def Consumer.deliver (consumer : Consumer) (event : WorldEvent) : Consumer :=
  if event.id ≤ consumer.highWater then { consumer with offered := consumer.offered ++ [event] }
  else { consumer with
         highWater := event.id
         handed := consumer.handed ++ [event]
         offered := consumer.offered ++ [event] }

/-- A catch-up under way: asked with the cursor of that time, with its rows read, or answered. -/
inductive Query
  | asked (afterId : Int)
  | read (afterId : Int) (table : List WorldEvent)
  | answered (afterId : Int) (table later : List WorldEvent)
  | settled

/-- The rows a query has read. -/
def Query.rows : Query → List WorldEvent
  | .read _ table | .answered _ table _ => table
  | .asked _ | .settled => []

/-- A world's rows, and a tab that follows them. -/
structure Tab where
  table : List WorldEvent
  lastSeen : Int
  consumers : List Consumer
  queries : List Query

def Tab.start (table : List WorldEvent) : Tab := ⟨table, 0, [], []⟩

/-- A row commits, under an id that no other has, with no regard to the order of ids; a row arrives on the
subscription of one consumer; consumers come and go; catch-ups are asked, served in two reads, and arrive or fail. -/
inductive Tab.Act
  | commit (event : WorldEvent)
  | live (handle position : Nat)
  | mount (handle : Nat)
  | unmount (handle : Nat)
  | ask
  | readRows (index : Nat)
  | readLatest (index : Nat)
  | arrive (index : Nat)
  | fail (index : Nat)

namespace Tab

variable (tab : Tab)

/-- Hand an event to some of the consumers; the cursor follows what one of them takes. -/
def deliver (handles : Consumer → Bool) (event : WorldEvent) : Tab :=
  { tab with
    consumers := tab.consumers.map fun consumer => if handles consumer then consumer.deliver event else consumer
    lastSeen := if tab.consumers.any fun consumer => handles consumer && consumer.highWater < event.id
      then max tab.lastSeen event.id else tab.lastSeen }

/-- Hand a missed event to every consumer, or note it when there is none. -/
def replay (event : WorldEvent) : Tab :=
  if tab.consumers.isEmpty then { tab with lastSeen := max tab.lastSeen event.id }
  else tab.deliver (fun _ => true) event

/-- What becomes of an answer: a gap too large is left to a refetch of the world. -/
def receive (payload : WorldEventCatchUp) : Tab :=
  if payload.truncated then { tab with lastSeen := payload.latestId }
  else payload.events.foldl replay tab

def setQuery (index : Nat) (query : Query) : Tab := { tab with queries := tab.queries.set index query }

def step (viewer : Viewer) (tab : Tab) : Act → Tab
  | .commit event => if event.id ∈ tab.table.map WorldEvent.id then tab else { tab with table := event :: tab.table }
  | .live handle position =>
    match tab.table[position]? with
    | some event => tab.deliver (fun consumer => consumer.handle = handle) event
    | none => tab
  | .mount handle => { tab with consumers := tab.consumers ++ [⟨handle, 0, [], []⟩] }
  | .unmount handle => { tab with consumers := tab.consumers.filter fun consumer => consumer.handle ≠ handle }
  | .ask => { tab with queries := tab.queries ++ [.asked tab.lastSeen] }
  | .readRows index =>
    match tab.queries[index]? with
    | some (.asked afterId) => tab.setQuery index (.read afterId tab.table)
    | _ => tab
  | .readLatest index =>
    match tab.queries[index]? with
    | some (.read afterId table) => tab.setQuery index (.answered afterId table tab.table)
    | _ => tab
  | .arrive index =>
    match tab.queries[index]? with
    | some (.answered afterId table later) =>
      (tab.setQuery index .settled).receive (catchUp viewer afterId table later)
    | _ => tab
  | .fail index => tab.setQuery index .settled

end Tab

/-! What a consumer is handed of what comes to it. -/

namespace Consumer

/-- A consumer has been handed what rises of all that came to it. -/
structure Sound (consumer : Consumer) : Prop where
  handed : consumer.handed = rising rowId 0 consumer.offered
  highWater : consumer.highWater = Tailing.passed rowId 0 consumer.offered

variable {consumer : Consumer}

theorem deliver_handle (event : WorldEvent) : (consumer.deliver event).handle = consumer.handle := by
  unfold deliver
  split_ifs <;> rfl

theorem deliver_offered (event : WorldEvent) : (consumer.deliver event).offered = consumer.offered ++ [event] := by
  unfold deliver
  split_ifs <;> rfl

theorem Sound.deliver (h : consumer.Sound) (event : WorldEvent) : (consumer.deliver event).Sound := by
  have hhanded : rising rowId 0 (consumer.offered ++ [event]) = rising rowId 0 consumer.offered ++
      rising rowId (Tailing.passed rowId 0 consumer.offered) [event] := rising_append _ _
  have hpassed : Tailing.passed rowId 0 (consumer.offered ++ [event]) =
      Tailing.passed rowId (Tailing.passed rowId 0 consumer.offered) [event] := passed_append _ _
  rw [← h.handed, ← h.highWater] at hhanded
  rw [← h.highWater, passed_cons, passed_nil] at hpassed
  unfold Consumer.deliver
  split_ifs with hle
  · rw [rising_cons_of_le (rowId_event event ▸ hle), rising_nil, List.append_nil] at hhanded
    exact ⟨hhanded.symm, by rw [hpassed, rowId_event, max_eq_left hle]⟩
  · rw [rising_cons_of_lt (rowId_event event ▸ not_le.mp hle), rising_nil] at hhanded
    exact ⟨hhanded.symm, by rw [hpassed, rowId_event, max_eq_right (not_le.mp hle).le]⟩

/-- A consumer after a batch. -/
def deliverAll (consumer : Consumer) (events : List WorldEvent) : Consumer := events.foldl Consumer.deliver consumer

theorem deliverAll_handle (events : List WorldEvent) : (consumer.deliverAll events).handle = consumer.handle := by
  unfold deliverAll
  induction events generalizing consumer with
  | nil => rfl
  | cons event events ih => rw [List.foldl_cons, ih, deliver_handle]

theorem deliverAll_offered (events : List WorldEvent) :
    (consumer.deliverAll events).offered = consumer.offered ++ events := by
  unfold deliverAll
  induction events generalizing consumer with
  | nil => simp
  | cons event events ih => rw [List.foldl_cons, ih, deliver_offered, List.append_assoc, List.singleton_append]

theorem Sound.deliverAll (h : consumer.Sound) (events : List WorldEvent) : (consumer.deliverAll events).Sound := by
  unfold Consumer.deliverAll
  induction events generalizing consumer with
  | nil => exact h
  | cons event events ih => exact ih (h.deliver event)

/-- Of a batch in ascending order a consumer is handed what is newer than all that came before the batch. -/
theorem Sound.mem_deliverAll (h : consumer.Sound) {events : List WorldEvent}
    (hascending : events.Pairwise fun a b => rowId a < rowId b) {event : WorldEvent} :
    event ∈ (consumer.deliverAll events).handed ↔
      event ∈ consumer.handed ∨ event ∈ events ∧ consumer.highWater < event.id := by
  rw [(h.deliverAll events).handed, deliverAll_offered, rising_append, List.mem_append, ← h.handed, ← h.highWater,
    mem_rising_of_pairwise hascending, rowId_event]

end Consumer

namespace Tab

variable {viewer : Viewer} {tab : Tab}

theorem replay_consumers (event : WorldEvent) :
    (tab.replay event).consumers = tab.consumers.map fun consumer => consumer.deliver event := by
  unfold replay
  split_ifs with hempty
  · rw [List.isEmpty_iff.mp hempty]
    rfl
  · simp [deliver]

theorem foldl_replay_consumers (events : List WorldEvent) :
    (events.foldl replay tab).consumers = tab.consumers.map fun consumer => consumer.deliverAll events := by
  induction events generalizing tab with
  | nil => exact (List.map_id' _).symm
  | cons event events ih =>
      rw [List.foldl_cons, ih, replay_consumers, List.map_map]
      rfl

theorem foldl_replay_frame (events : List WorldEvent) :
    (events.foldl replay tab).table = tab.table ∧ (events.foldl replay tab).queries = tab.queries := by
  induction events generalizing tab with
  | nil => exact ⟨rfl, rfl⟩
  | cons event events ih =>
      rw [List.foldl_cons, ih.1, ih.2]
      unfold replay
      split_ifs <;> exact ⟨rfl, rfl⟩

/-- Ids are given once, in the table and in every table that was read, and every consumer is sound. -/
structure Sound (tab : Tab) : Prop where
  table : (tab.table.map rowId).Nodup
  queries : ∀ query ∈ tab.queries, (query.rows.map rowId).Nodup
  consumers : ∀ consumer ∈ tab.consumers, consumer.Sound

theorem Sound.start {table : List WorldEvent} (htable : (table.map rowId).Nodup) : (Tab.start table).Sound where
  table := htable
  queries := by rintro query ⟨⟩
  consumers := by rintro consumer ⟨⟩

theorem Sound.setQuery (h : tab.Sound) (index : Nat) {query : Query} (hquery : (query.rows.map rowId).Nodup) :
    (tab.setQuery index query).Sound where
  table := h.table
  queries query' hmem := by
    rcases List.mem_or_eq_of_mem_set hmem with hmem | rfl
    · exact h.queries query' hmem
    · exact hquery
  consumers := h.consumers

theorem Sound.settle (h : tab.Sound) (index : Nat) : (tab.setQuery index .settled).Sound :=
  h.setQuery index (List.nodup_nil (α := Int))

theorem Sound.deliver (h : tab.Sound) (handles : Consumer → Bool) (event : WorldEvent) :
    (tab.deliver handles event).Sound where
  table := h.table
  queries := h.queries
  consumers := by
    intro consumer hmem
    obtain ⟨before, hbefore, rfl⟩ := List.mem_map.mp hmem
    split_ifs
    · exact (h.consumers before hbefore).deliver event
    · exact h.consumers before hbefore

theorem Sound.receive (h : tab.Sound) (payload : WorldEventCatchUp) : (tab.receive payload).Sound := by
  unfold Tab.receive
  split_ifs
  · exact ⟨h.table, h.queries, h.consumers⟩
  · obtain ⟨htable, hqueries⟩ : (payload.events.foldl replay tab).table = tab.table ∧
        (payload.events.foldl replay tab).queries = tab.queries := foldl_replay_frame payload.events
    refine ⟨htable ▸ h.table, hqueries ▸ h.queries, ?_⟩
    rw [foldl_replay_consumers]
    intro consumer hmem
    obtain ⟨before, hbefore, rfl⟩ := List.mem_map.mp hmem
    exact (h.consumers before hbefore).deliverAll _

theorem Sound.step (h : tab.Sound) (act : Act) : (tab.step viewer act).Sound := by
  cases act with
  | commit event =>
      simp only [Tab.step]
      split_ifs with hused
      · exact h
      · exact ⟨List.nodup_cons.mpr ⟨hused, h.table⟩, h.queries, h.consumers⟩
  | live handle position =>
      simp only [Tab.step]
      split
      · exact h.deliver _ _
      · exact h
  | mount handle =>
      refine ⟨h.table, h.queries, fun consumer hmem => ?_⟩
      rcases List.mem_append.mp hmem with hmem | hmem
      · exact h.consumers consumer hmem
      · rw [List.mem_singleton.mp hmem]
        exact ⟨rfl, rfl⟩
  | unmount handle => exact ⟨h.table, h.queries, fun consumer hmem => h.consumers consumer (List.mem_filter.mp hmem).1⟩
  | ask =>
      refine ⟨h.table, fun query hmem => ?_, h.consumers⟩
      rcases List.mem_append.mp hmem with hmem | hmem
      · exact h.queries query hmem
      · rw [List.mem_singleton.mp hmem]
        exact List.nodup_nil
  | readRows index =>
      simp only [Tab.step]
      split
      · exact h.setQuery index h.table
      · exact h
  | readLatest index =>
      simp only [Tab.step]
      split
      next afterId table hquery =>
        have hread : (table.map rowId).Nodup := h.queries _ (List.mem_of_getElem? hquery)
        exact h.setQuery index hread
      next => exact h
  | arrive index =>
      simp only [Tab.step]
      split
      · exact (h.settle index).receive _
      · exact h
  | fail index => exact h.settle index

theorem Sound.run (h : tab.Sound) (acts : List Act) : (Run.run (Tab.step viewer) tab acts).Sound :=
  Run.invariant (fun _ act h => h.step act) h acts

end Tab

variable {viewer : Viewer} {table : List WorldEvent}

/-- In every run a consumer is handed events in ascending order, each once; and of what comes to it, live or replayed,
exactly those that come before everything with their id or a higher one. -/
theorem handed_iff (htable : (table.map rowId).Nodup) (acts : List Tab.Act) {consumer : Consumer}
    (hmem : consumer ∈ (Run.run (Tab.step viewer) (Tab.start table) acts).consumers) :
    (consumer.handed.Pairwise fun a b => a.id < b.id) ∧
      ∀ event, event ∈ consumer.handed ↔ 0 < event.id ∧ ∃ before after,
        consumer.offered = before ++ event :: after ∧ ∀ earlier ∈ before, earlier.id < event.id := by
  have hsound := ((Tab.Sound.start htable).run acts).consumers consumer hmem
  rw [hsound.handed]
  exact ⟨pairwise_lt_rising _, fun event => mem_rising⟩

def chatEvent (id : Int) : WorldEvent := ⟨id, 7, 1, none, 0⟩

/-- A consumer is handed the first event and then misses two; the fourth arrives while the catch-up is under way. -/
def overtakenReplay : List Tab.Act :=
  [.mount 0, .commit (chatEvent 1), .live 0 0, .commit (chatEvent 2), .commit (chatEvent 3), .ask, .readRows 0,
    .readLatest 0, .commit (chatEvent 4), .live 0 0]

/-- The consumer by then. -/
def overtaken : Consumer := ⟨0, 4, [chatEvent 1, chatEvent 4], [chatEvent 1, chatEvent 4]⟩

theorem consumers_overtakenReplay :
    (Run.run (Tab.step viewer) (Tab.start []) overtakenReplay).consumers = [overtaken] := by
  simp [overtakenReplay, overtaken, chatEvent, Tab.start, Tab.step, Tab.deliver, Tab.setQuery, Consumer.deliver]

theorem overtaken_mem : overtaken ∈ (Run.run (Tab.step ⟨true, none⟩) (Tab.start []) overtakenReplay).consumers := by
  rw [consumers_overtakenReplay]
  exact List.mem_singleton_self overtaken

theorem handed_overtaken : chatEvent 4 ∈ overtaken.handed :=
  ((handed_iff (by simp) overtakenReplay overtaken_mem).2 (chatEvent 4)).mpr
    ⟨by decide, [chatEvent 1], [], rfl, by simp [chatEvent]⟩

/-- The rows of an answer that is whole. -/
theorem mem_catchUp {afterId : Int} {later : List WorldEvent}
    (hwhole : (catchUp viewer afterId table later).truncated = false) {event : WorldEvent} :
    event ∈ (catchUp viewer afterId table later).events ↔
      event ∈ table ∧ viewer.sees event = true ∧ afterId < event.id := by
  have hshort : (Tailing.window rowId (catchUpLimit + 1) afterId (table.filter viewer.sees)).length ≤ catchUpLimit := by
    simpa [catchUp] using hwhole
  have hall : Tailing.window rowId (catchUpLimit + 1) afterId (table.filter viewer.sees) =
      Tailing.above rowId afterId (table.filter viewer.sees) := by
    refine List.take_of_length_le ?_
    rw [Tailing.window, List.length_take] at hshort
    omega
  rw [catchUp, List.take_of_length_le hshort, hall, Tailing.mem_above, List.mem_filter, rowId_event, and_assoc]

theorem pairwise_catchUp (htable : (table.map rowId).Nodup) (afterId : Int) (later : List WorldEvent) :
    (catchUp viewer afterId table later).events.Pairwise fun a b => rowId a < rowId b :=
  (Tailing.pairwise_lt_window (htable.sublist (List.filter_sublist.map rowId))).sublist (List.take_sublist _ _)

/-- When an answer that is whole arrives, a consumer has been handed, of the rows that it was read from, those that it
had been handed before, and those above both the cursor with which was asked and the consumer's own mark at the arrival.
A row that lies under an event that came while the query was under way is not handed. -/
theorem caught_up_iff (htable : (table.map rowId).Nodup) (acts : List Tab.Act) {index : Nat} {afterId : Int}
    {rows later : List WorldEvent}
    (hanswered : (Run.run (Tab.step viewer) (Tab.start table) acts).queries[index]? =
      some (.answered afterId rows later))
    (hwhole : (catchUp viewer afterId rows later).truncated = false) {consumer : Consumer}
    (hmem : consumer ∈ (Run.run (Tab.step viewer) (Tab.start table) acts).consumers) :
    ∃ after ∈ (Run.run (Tab.step viewer) (Tab.start table) (acts ++ [.arrive index])).consumers,
      after.handle = consumer.handle ∧ ∀ event ∈ rows, viewer.sees event = true →
        (event ∈ after.handed ↔
          event ∈ consumer.handed ∨ afterId < event.id ∧ consumer.highWater < event.id) := by
  have hsound : (Run.run (Tab.step viewer) (Tab.start table) acts).Sound := (Tab.Sound.start htable).run acts
  have hrows : (rows.map rowId).Nodup := hsound.queries _ (List.mem_of_getElem? hanswered)
  refine ⟨consumer.deliverAll (catchUp viewer afterId rows later).events, ?_, Consumer.deliverAll_handle _,
    fun event hevent hsees => ?_⟩
  · rw [Run.run_concat, Tab.step]
    simp only [hanswered, Tab.receive, hwhole, Bool.false_eq_true, if_false, Tab.foldl_replay_consumers]
    exact List.mem_map_of_mem hmem
  · rw [(hsound.consumers consumer hmem).mem_deliverAll (pairwise_catchUp hrows afterId later), mem_catchUp hwhole]
    exact or_congr_right ⟨fun h => ⟨h.1.2.2, h.2⟩, fun h => ⟨⟨hevent, hsees, h.1⟩, h.2⟩⟩

theorem caught_up_overtaken :
    ∃ after ∈ (Run.run (Tab.step ⟨true, none⟩) (Tab.start []) (overtakenReplay ++ [.arrive 0])).consumers,
      after.handle = 0 ∧ chatEvent 2 ∉ after.handed := by
  have hanswered : (Run.run (Tab.step ⟨true, none⟩) (Tab.start []) overtakenReplay).queries[0]? =
      some (.answered 1 [chatEvent 3, chatEvent 2, chatEvent 1] [chatEvent 3, chatEvent 2, chatEvent 1]) := by
    simp [overtakenReplay, chatEvent, Tab.start, Tab.step, Tab.deliver, Tab.setQuery, Consumer.deliver]
  obtain ⟨after, hmem, hhandle, hhanded⟩ := caught_up_iff (by simp) overtakenReplay hanswered (by decide) overtaken_mem
  refine ⟨after, hmem, hhandle, fun hlate => ?_⟩
  have hcause := (hhanded (chatEvent 2) (by simp) (by decide)).mp hlate
  simp [overtaken, chatEvent] at hcause

end ThunderForge.Delivery
