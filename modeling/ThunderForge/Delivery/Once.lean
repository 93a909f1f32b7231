import ThunderForge.Delivery.Backplane

/-! No event is delivered twice, and none whose transaction did not commit, in whatever order ids are taken,
transactions end, polls read, are absorbed and fail. -/

namespace ThunderForge.Delivery

/-- Every row has its own id, below the next. -/
structure Backplane.Numbered (s : Backplane) : Prop where
  nodup : (s.live.map rowId).Nodup
  below : ∀ row ∈ s.live, rowId row < s.nextId

/-- A batch as the poll reads it: ascending, above the cursor. -/
structure Fetched.Ordered (fetched : Fetched) (cursor : Int) : Prop where
  ascending : fetched.rows.Pairwise fun a b => rowId a < rowId b
  above : ∀ row ∈ fetched.rows, cursor < rowId row

/-- A row that is seen: its id has been taken, and by no transaction that is still open. -/
def Backplane.Seen (s : Backplane) (row : WorldEvent) : Prop :=
  rowId row < s.nextId ∧ ∀ held ∈ s.held, rowId held.row ≠ rowId row

/-- The listener broadcast what was seen, each row once, and it remembers what its cursor has not passed. -/
structure Backplane.Told (s : Backplane) : Prop where
  once : (s.broadcast.map rowId).Nodup
  seen : ∀ row ∈ s.broadcast, s.Seen row
  silent : s.listening = none → s.broadcast = []
  remembers : ∀ listening ∈ s.listening, listening.relay.reader.Remembers (Tailing.keys rowId s.broadcast)
  ordered : ∀ listening ∈ s.listening, ∀ fetched ∈ listening.fetched, fetched.Ordered listening.relay.cursor
  read : ∀ listening ∈ s.listening, ∀ fetched ∈ listening.fetched, ∀ row ∈ fetched.rows, s.Seen row

section

variable {s s' : Backplane}

/-- The listener moves; the table and its transactions stay. -/
structure Backplane.Still (s s' : Backplane) : Prop where
  clock : s'.clock = s.clock
  nextId : s'.nextId = s.nextId
  held : s'.held = s.held
  table : s'.table = s.table

theorem Backplane.Still.refl (s : Backplane) : s.Still s := ⟨rfl, rfl, rfl, rfl⟩

/-- What the listener does leaves the table as it is. -/
theorem still_highWater (s : Backplane) (read : MaxRead) : s.Still (s.step (.highWater read)) := by
  unfold Backplane.step
  dsimp only
  split
  · exact ⟨rfl, rfl, rfl, rfl⟩
  · exact .refl s

theorem still_fetch (s : Backplane) : s.Still (s.step .fetch) := by
  unfold Backplane.step
  dsimp only
  split
  · exact ⟨rfl, rfl, rfl, rfl⟩
  · exact .refl s

theorem still_absorb (s : Backplane) : s.Still (s.step .absorb) := by
  unfold Backplane.step
  dsimp only
  split
  · exact ⟨rfl, rfl, rfl, rfl⟩
  · exact .refl s

theorem still_fail (s : Backplane) (failure : PollFailure) : s.Still (s.step (.fail failure)) := by
  unfold Backplane.step
  dsimp only
  split
  · exact ⟨rfl, rfl, rfl, rfl⟩
  · exact .refl s

theorem Backplane.Still.live (h : s.Still s') : s'.live = s.live := by
  rw [Backplane.live, Backplane.live, h.table, h.held]

theorem Backplane.Still.seen (h : s.Still s') {row : WorldEvent} : s'.Seen row ↔ s.Seen row := by
  rw [Backplane.Seen, Backplane.Seen, h.nextId, h.held]

/-- Committing moves rows from where only their transaction sees them to where all do. -/
theorem live_commit (s : Backplane) (tx : Nat) : (s.step (.commit tx)).live.Perm s.live := by
  show ((s.table ++ s.rowsOf tx) ++ ((s.held.filter (·.tx ≠ tx)).map Held.row)).Perm s.live
  rw [Backplane.live, Backplane.rowsOf, List.append_assoc, ← List.map_append]
  refine List.Perm.append_left _ (List.Perm.map _ ?_)
  have hperm := List.filter_append_perm (fun held : Held => decide (held.tx = tx)) s.held
  simpa only [decide_not] using hperm

theorem live_rollback (s : Backplane) (tx : Nat) : (s.step (.rollback tx)).live.Sublist s.live :=
  (List.Sublist.refl _).append (List.filter_sublist.map _)

theorem live_purge (s : Backplane) (ids : List Int) : (s.step (.purge ids)).live.Sublist s.live :=
  List.filter_sublist.append (List.Sublist.refl _)

theorem live_insert (s : Backplane) (tx : Nat) (worldId : Uuid) (eventCode : Int) (tokenEvent : Option Json)
    (createdAt : NaiveDateTime) : (s.step (.insert tx worldId eventCode tokenEvent createdAt)).live =
      s.live ++ [{ id := s.nextId, worldId, eventCode, tokenEvent, createdAt }] := by
  simp [Backplane.live, Backplane.step]

/-- What a step does to the listener. -/
inductive Backplane.Heard (s : Backplane) (a : Action) : Prop
  | quiet (listening : (s.step a).listening = s.listening) (broadcast : (s.step a).broadcast = s.broadcast)
  | starts (read : MaxRead) (startAfter : Int) (act : a = .highWater read) (silent : s.listening = none)
      (answer : currentMaxEventId read s.table = some startAfter)
      (listening : (s.step a).listening = some { relay := Relay.start startAfter, fetched := none })
      (broadcast : (s.step a).broadcast = s.broadcast)
  | fetches (relay : Relay) (act : a = .fetch) (before : s.listening = some { relay, fetched := none })
      (listening : (s.step a).listening =
        some { relay, fetched := some ⟨s.clock, pollNewEvents s.table relay.cursor⟩ })
      (broadcast : (s.step a).broadcast = s.broadcast)
  | absorbs (relay : Relay) (fetched : Fetched) (act : a = .absorb)
      (before : s.listening = some { relay, fetched := some fetched })
      (listening : (s.step a).listening = some { relay := (relay.absorb fetched.rows s.clock).1, fetched := none })
      (broadcast : (s.step a).broadcast = s.broadcast ++ Tailing.fresh rowId relay.delivered fetched.rows)
  | drops (relay : Relay) (fetched : Fetched) (failure : PollFailure) (act : a = .fail failure)
      (before : s.listening = some { relay, fetched := some fetched })
      (listening : (s.step a).listening = some { relay, fetched := none })
      (broadcast : (s.step a).broadcast = s.broadcast)

theorem heard_step (s : Backplane) (a : Action) : s.Heard a := by
  cases a with
  | tick => exact .quiet rfl rfl
  | insert => exact .quiet rfl rfl
  | commit => exact .quiet rfl rfl
  | rollback => exact .quiet rfl rfl
  | purge => exact .quiet rfl rfl
  | highWater read =>
      cases hlistening : s.listening with
      | none =>
          cases hanswer : currentMaxEventId read s.table with
          | none =>
              exact .quiet (by simp [Backplane.step, hlistening, hanswer])
                (by simp [Backplane.step, hlistening, hanswer])
          | some startAfter =>
              exact .starts read startAfter rfl hlistening hanswer (by simp [Backplane.step, hlistening, hanswer])
                (by simp [Backplane.step, hlistening, hanswer])
      | some listening => exact .quiet (by simp [Backplane.step, hlistening]) (by simp [Backplane.step, hlistening])
  | fetch =>
      rcases hlistening : s.listening with - | ⟨relay, - | fetched⟩
      · exact .quiet (by simp [Backplane.step, hlistening]) (by simp [Backplane.step, hlistening])
      · exact .fetches relay rfl hlistening (by simp [Backplane.step, hlistening])
          (by simp [Backplane.step, hlistening])
      · exact .quiet (by simp [Backplane.step, hlistening]) (by simp [Backplane.step, hlistening])
  | absorb =>
      rcases hlistening : s.listening with - | ⟨relay, - | fetched⟩
      · exact .quiet (by simp [Backplane.step, hlistening]) (by simp [Backplane.step, hlistening])
      · exact .quiet (by simp [Backplane.step, hlistening]) (by simp [Backplane.step, hlistening])
      · exact .absorbs relay fetched rfl hlistening (by simp [Backplane.step, Backplane.absorb, hlistening])
          (by simp [Backplane.step, Backplane.absorb, hlistening])
  | fail failure =>
      rcases hlistening : s.listening with - | ⟨relay, - | fetched⟩
      · exact .quiet (by simp [Backplane.step, hlistening]) (by simp [Backplane.step, hlistening])
      · exact .quiet (by simp [Backplane.step, hlistening]) (by simp [Backplane.step, hlistening])
      · exact .drops relay fetched failure rfl hlistening (by simp [Backplane.step, hlistening])
          (by simp [Backplane.step, hlistening])

end

section Numbered

variable {s : Backplane}

theorem Backplane.Numbered.table_nodup (h : s.Numbered) : (s.table.map rowId).Nodup := by
  have hnodup := h.nodup
  rw [Backplane.live, List.map_append] at hnodup
  exact (List.nodup_append.mp hnodup).1

/-- A row of the table is seen. -/
theorem Backplane.Numbered.seen (h : s.Numbered) {row : WorldEvent} (hrow : row ∈ s.table) : s.Seen row := by
  have hnodup := h.nodup
  rw [Backplane.live, List.map_append, List.nodup_append] at hnodup
  refine ⟨h.below row (Backplane.mem_live.mpr (Or.inl hrow)), fun held hheld heq => ?_⟩
  refine hnodup.2.2 (rowId row) (List.mem_map_of_mem hrow) (rowId held.row) ?_ heq.symm
  exact List.mem_map_of_mem (List.mem_map_of_mem hheld)

/-- With no other rows the numbers stay in order. -/
theorem Backplane.Numbered.of_subperm {s' : Backplane} (h : s.Numbered) (hid : s'.nextId = s.nextId)
    (hlive : s'.live.Subperm s.live) : s'.Numbered where
  nodup := by
    obtain ⟨rows, hperm, hsub⟩ := hlive
    exact ((hperm.map rowId).nodup_iff.mp) (h.nodup.sublist (hsub.map rowId))
  below row hrow := by
    rw [hid]
    exact h.below row (hlive.subset hrow)

theorem Backplane.Numbered.of_still {s' : Backplane} (h : s.Numbered) (hstill : s.Still s') : s'.Numbered :=
  h.of_subperm hstill.nextId (hstill.live ▸ List.Subperm.refl _)

theorem Backplane.Numbered.step (h : s.Numbered) (a : Action) : (s.step a).Numbered := by
  cases a with
  | tick => exact ⟨h.nodup, h.below⟩
  | insert tx worldId eventCode tokenEvent createdAt =>
      refine ⟨?_, fun row hrow => ?_⟩
      · rw [live_insert, List.map_append, List.nodup_append]
        refine ⟨h.nodup, List.nodup_singleton _, fun id hid id' hid' heq => ?_⟩
        obtain ⟨row, hrow, rfl⟩ := List.mem_map.mp hid
        obtain rfl : id' = s.nextId := List.mem_singleton.mp hid'
        exact (h.below row hrow).ne heq
      · rw [live_insert] at hrow
        show rowId row < s.nextId + 1
        rcases List.mem_append.mp hrow with hrow | hrow
        · exact (h.below row hrow).trans (Int.lt_succ _)
        · obtain rfl := List.mem_singleton.mp hrow
          exact Int.lt_succ _
  | commit tx => exact h.of_subperm rfl (live_commit s tx).subperm
  | rollback tx => exact h.of_subperm rfl (live_rollback s tx).subperm
  | purge ids => exact h.of_subperm rfl (live_purge s ids).subperm
  | highWater read => exact h.of_still (still_highWater s read)
  | fetch => exact h.of_still (still_fetch s)
  | absorb => exact h.of_still (still_absorb s)
  | fail failure => exact h.of_still (still_fail s failure)

/-- What is seen stays seen. -/
theorem Backplane.Seen.step {row : WorldEvent} (h : s.Seen row) (a : Action) : (s.step a).Seen row := by
  cases a with
  | tick => exact h
  | insert tx worldId eventCode tokenEvent createdAt =>
      refine ⟨h.1.trans (Int.lt_succ _), fun held hheld => ?_⟩
      rcases List.mem_append.mp hheld with hheld | hheld
      · exact h.2 held hheld
      · obtain rfl := List.mem_singleton.mp hheld
        exact h.1.ne'
  | commit tx => exact ⟨h.1, fun held hheld => h.2 held (List.mem_filter.mp hheld).1⟩
  | rollback tx => exact ⟨h.1, fun held hheld => h.2 held (List.mem_filter.mp hheld).1⟩
  | purge ids => exact h
  | highWater read => exact (still_highWater s read).seen.mpr h
  | fetch => exact (still_fetch s).seen.mpr h
  | absorb => exact (still_absorb s).seen.mpr h
  | fail failure => exact (still_fail s failure).seen.mpr h

end Numbered

section Told

variable {s : Backplane}

/-- While no poll is taken in, the listener told what it told. -/
theorem Backplane.Told.of_broadcast {a : Action} (h : s.Told) (hbroadcast : (s.step a).broadcast = s.broadcast)
    {listening : Listening} (hlistening : (s.step a).listening = some listening)
    (hremembers : listening.relay.reader.Remembers (Tailing.keys rowId s.broadcast))
    (hfetched : ∀ fetched ∈ listening.fetched, fetched.Ordered listening.relay.cursor ∧
      ∀ row ∈ fetched.rows, s.Seen row) : (s.step a).Told where
  once := hbroadcast ▸ h.once
  seen row hrow := (h.seen row (hbroadcast ▸ hrow)).step a
  silent hnone := by cases hlistening.symm.trans hnone
  remembers listening' hmem := by
    obtain rfl := Option.some.inj (hlistening.symm.trans hmem)
    exact hbroadcast ▸ hremembers
  ordered listening' hmem fetched hf := by
    obtain rfl := Option.some.inj (hlistening.symm.trans hmem)
    exact (hfetched fetched hf).1
  read listening' hmem fetched hf row hrow := by
    obtain rfl := Option.some.inj (hlistening.symm.trans hmem)
    exact ((hfetched fetched hf).2 row hrow).step a

/-- A poll is taken in: what it adds was not broadcast, and is remembered. -/
theorem Backplane.Told.absorb {a : Action} (h : s.Told) {relay : Relay} {fetched : Fetched}
    (hbefore : s.listening = some { relay, fetched := some fetched })
    (hlistening : (s.step a).listening = some { relay := (relay.absorb fetched.rows s.clock).1, fetched := none })
    (hbroadcast : (s.step a).broadcast = s.broadcast ++ Tailing.fresh rowId relay.delivered fetched.rows) :
    (s.step a).Told := by
  have habove : ∀ row ∈ fetched.rows, relay.cursor < rowId row := (h.ordered _ hbefore _ rfl).above
  have hremembers : relay.reader.Remembers (Tailing.keys rowId s.broadcast) := h.remembers _ hbefore
  have hnew : ∀ row ∈ Tailing.fresh rowId relay.delivered fetched.rows, rowId row ∉ s.broadcast.map rowId := by
    intro row hrow hold
    refine Tailing.notMem_of_mem_fresh hrow ((hremembers _).mpr ⟨?_, ?_⟩)
    · exact habove row ((Tailing.fresh_sublist _).subset hrow)
    · simpa [Tailing.keys] using hold
  refine ⟨?_, fun row hrow => ?_, fun hnone => ?_, fun listening hmem => ?_, fun listening hmem fetched' hf => ?_,
    fun listening hmem fetched' hf => ?_⟩
  · rw [hbroadcast, List.map_append, List.nodup_append]
    refine ⟨h.once, Tailing.nodup_fresh _, fun id hid id' hid' heq => ?_⟩
    obtain ⟨row, hrow, rfl⟩ := List.mem_map.mp hid'
    exact hnew row hrow (heq ▸ hid)
  · rw [hbroadcast] at hrow
    rcases List.mem_append.mp hrow with hrow | hrow
    · exact (h.seen row hrow).step a
    · exact (h.read _ hbefore _ rfl row ((Tailing.fresh_sublist _).subset hrow)).step a
  · cases hlistening.symm.trans hnone
  · obtain rfl := Option.some.inj (hlistening.symm.trans hmem)
    have hhistory : Tailing.keys rowId (s.broadcast ++ Tailing.fresh rowId relay.delivered fetched.rows) =
        Tailing.keys rowId s.broadcast ∪ Tailing.keys rowId fetched.rows := by
      rw [Tailing.keys_append, Tailing.keys_fresh]
      ext i
      have hsent : i ∈ relay.delivered → i ∈ Tailing.keys rowId s.broadcast := fun hi => ((hremembers i).mp hi).2
      simp only [Finset.mem_union, Finset.mem_sdiff]
      tauto
    rw [hbroadcast, hhistory]
    exact Relay.absorb_remembers hremembers habove
  · obtain rfl := Option.some.inj (hlistening.symm.trans hmem)
    cases hf
  · obtain rfl := Option.some.inj (hlistening.symm.trans hmem)
    cases hf

theorem Backplane.Told.step (h : s.Told) (hnumbered : s.Numbered) (a : Action) : (s.step a).Told := by
  cases heard_step s a with
  | quiet hlistening hbroadcast =>
      cases hnow : s.listening with
      | none =>
          have hnone : (s.step a).listening = none := hlistening.trans hnow
          refine ⟨hbroadcast ▸ h.once, fun row hrow => (h.seen row (hbroadcast ▸ hrow)).step a,
            fun _ => hbroadcast.trans (h.silent hnow), fun listening hmem => ?_, fun listening hmem => ?_,
            fun listening hmem => ?_⟩
          · cases hnone.symm.trans hmem
          · cases hnone.symm.trans hmem
          · cases hnone.symm.trans hmem
      | some listening =>
          exact h.of_broadcast hbroadcast (hlistening.trans hnow) (h.remembers listening hnow)
            fun fetched hf => ⟨h.ordered listening hnow fetched hf, h.read listening hnow fetched hf⟩
  | starts read startAfter _ hsilent _ hlistening hbroadcast =>
      refine h.of_broadcast hbroadcast hlistening (fun i => ?_) (by rintro fetched ⟨⟩)
      simp [Relay.start, Relay.reader, h.silent hsilent]
  | fetches relay _ hbefore hlistening hbroadcast =>
      refine h.of_broadcast hbroadcast hlistening (h.remembers { relay, fetched := none } hbefore) fun fetched hf => ?_
      obtain rfl := Option.some.inj hf
      refine ⟨⟨Tailing.pairwise_lt_window hnumbered.table_nodup, fun row hrow => ?_⟩, fun row hrow => ?_⟩
      · exact (Tailing.mem_of_mem_window hrow).2
      · exact hnumbered.seen (Tailing.mem_of_mem_window hrow).1
  | absorbs relay fetched _ hbefore hlistening hbroadcast => exact h.absorb hbefore hlistening hbroadcast
  | drops relay fetched failure _ hbefore hlistening hbroadcast =>
      exact h.of_broadcast hbroadcast hlistening (h.remembers { relay, fetched := some fetched } hbefore)
        (by rintro fetched ⟨⟩)

end Told

/-- A table with no transaction open: every row has its own id, below the next. -/
structure Bootable (nextId : Int) (table : List WorldEvent) : Prop where
  nodup : (table.map rowId).Nodup
  below : ∀ row ∈ table, rowId row < nextId

theorem bootable_nil (nextId : Int) : Bootable nextId [] := ⟨.nil, by rintro row ⟨⟩⟩

section Run

variable {clock : NaiveDateTime} {nextId : Int} {table : List WorldEvent}

theorem Bootable.numbered (h : Bootable nextId table) : (Backplane.boot clock nextId table).Numbered := by
  have hlive : (Backplane.boot clock nextId table).live = table := List.append_nil table
  refine ⟨?_, fun row hrow => ?_⟩
  · rw [hlive]
    exact h.nodup
  · rw [hlive] at hrow
    exact h.below row hrow

theorem told_boot : (Backplane.boot clock nextId table).Told where
  once := .nil
  seen := by rintro row ⟨⟩
  silent _ := rfl
  remembers := by rintro listening ⟨⟩
  ordered := by rintro listening ⟨⟩
  read := by rintro listening ⟨⟩

theorem numbered_told_run {s : Backplane} (hnumbered : s.Numbered) (htold : s.Told) (acts : List Action) :
    (s.run acts).Numbered ∧ (s.run acts).Told :=
  Run.invariant (I := fun s : Backplane => s.Numbered ∧ s.Told) (fun _ a h => ⟨h.1.step a, h.2.step h.1 a⟩)
    ⟨hnumbered, htold⟩ acts

theorem Bootable.run (h : Bootable nextId table) (acts : List Action) :
    ((Backplane.boot clock nextId table).run acts).Numbered ∧ ((Backplane.boot clock nextId table).run acts).Told :=
  numbered_told_run h.numbered told_boot acts

/-- The listener has read a row. -/
def Backplane.Read (s : Backplane) (row : WorldEvent) : Prop :=
  row ∈ s.broadcast ∨ ∃ listening ∈ s.listening, ∃ fetched ∈ listening.fetched, row ∈ fetched.rows

/-- A row is read from the table. -/
theorem read_step (s : Backplane) (a : Action) {row : WorldEvent} (h : (s.step a).Read row) :
    s.Read row ∨ row ∈ s.table := by
  have hold {listening : Listening} (hlistening : (s.step a).listening = some listening)
      (hbroadcast : (s.step a).broadcast = s.broadcast)
      (hread : ∀ fetched ∈ listening.fetched, row ∈ fetched.rows → s.Read row ∨ row ∈ s.table) :
      s.Read row ∨ row ∈ s.table := by
    rcases h with hrow | ⟨listening', hmem, fetched, hfetched, hrow⟩
    · exact Or.inl (Or.inl (hbroadcast ▸ hrow))
    · obtain rfl := Option.some.inj (hlistening.symm.trans hmem)
      exact hread fetched hfetched hrow
  cases heard_step s a with
  | quiet hlistening hbroadcast =>
      rcases h with hrow | ⟨listening, hmem, hrow⟩
      · exact Or.inl (Or.inl (hbroadcast ▸ hrow))
      · exact Or.inl (Or.inr ⟨listening, hlistening ▸ hmem, hrow⟩)
  | starts read startAfter _ _ _ hlistening hbroadcast => exact hold hlistening hbroadcast (by rintro fetched ⟨⟩)
  | fetches relay _ _ hlistening hbroadcast =>
      refine hold hlistening hbroadcast fun fetched hf hrow => ?_
      obtain rfl := Option.some.inj hf
      exact Or.inr (Tailing.mem_of_mem_window hrow).1
  | absorbs relay fetched _ hbefore hlistening hbroadcast =>
      rcases h with hrow | ⟨listening, hmem, fetched', hf, -⟩
      · rw [hbroadcast] at hrow
        rcases List.mem_append.mp hrow with hrow | hrow
        · exact Or.inl (Or.inl hrow)
        · exact Or.inl (Or.inr ⟨_, hbefore, _, rfl, (Tailing.fresh_sublist _).subset hrow⟩)
      · obtain rfl := Option.some.inj (hlistening.symm.trans hmem)
        cases hf
  | drops relay fetched failure _ _ hlistening hbroadcast => exact hold hlistening hbroadcast (by rintro fetched ⟨⟩)

/-- The transaction that takes its id first ends last, after the first poll. -/
def overtaking (elapsed : Nat) : List Action :=
  [.highWater .answered, .insert 1 0 0 none 0, .insert 2 0 0 none 0, .commit 2, .tick elapsed, .fetch, .absorb,
    .commit 1, .fetch, .absorb]

/-- In every run each event is broadcast at most once, and only one that a committed transaction wrote; the listener
remembers exactly those it broadcast that its cursor has not passed. -/
theorem delivered_once (h : Bootable nextId table) (acts : List Action) :
    (((Backplane.boot clock nextId table).run acts).broadcast.map rowId).Nodup ∧
    (∀ row ∈ ((Backplane.boot clock nextId table).run acts).broadcast,
      ∃ before, before <+: acts ∧ row ∈ ((Backplane.boot clock nextId table).run before).table) ∧
    ∀ listening ∈ ((Backplane.boot clock nextId table).run acts).listening, ∀ id,
      id ∈ listening.relay.delivered ↔
        listening.relay.cursor < id ∧ id ∈ ((Backplane.boot clock nextId table).run acts).broadcast.map rowId := by
  have htold : ((Backplane.boot clock nextId table).run acts).Told := (h.run acts).2
  refine ⟨htold.once, fun row hrow => ?_, fun listening hmem id => ?_⟩
  · rcases Run.or_exists_of_steps (P := (·.Read row)) (fun s a => read_step s a) (Or.inl hrow) with hboot | hcause
    · rcases hboot with hboot | ⟨listening, hmem, -⟩
      · cases hboot
      · cases hmem
    · exact hcause
  · have hremembers := htold.remembers listening hmem id
    simpa [Tailing.keys, Relay.reader] using hremembers

theorem delivered_once_overtaking : ((Backplane.boot 0 1 []).run (overtaking 0)).broadcast.map rowId = [2, 1] ∧
    (((Backplane.boot 0 1 []).run (overtaking 0)).broadcast.map rowId).Nodup :=
  ⟨rfl, (delivered_once (bootable_nil 1) (overtaking 0)).1⟩

end Run

end ThunderForge.Delivery
