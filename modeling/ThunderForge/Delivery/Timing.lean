import ThunderForge.Delivery.Lost

/-! How long a transaction may hold an id, and a poll its rows, before the commit grace no longer covers them. -/

namespace ThunderForge.Delivery

/-- A row is stamped at most `stamping` before its id is taken, its transaction ends at most `open` after, and what a
poll has read is taken in or given up at most `polling` after it was read. -/
structure Delays where
  stamping : Nat
  holding : Nat
  polling : Nat

/-- The step keeps to the delays. -/
def Delays.Keeps (delays : Delays) (s : Backplane) : Action → Prop
  | .insert _ _ _ _ createdAt => s.clock ≤ createdAt + delays.stamping
  | .tick elapsed =>
      (∀ held ∈ s.held, s.clock + elapsed ≤ held.takenAt + delays.holding) ∧
        ∀ listening ∈ s.listening, ∀ fetched ∈ listening.fetched, s.clock + elapsed ≤ fetched.readAt + delays.polling
  | _ => True

/-- Every run that keeps to the delays broadcasts each row which stays in the table and which the listener did not
start past, or has it still ahead of the cursor. -/
def Delays.Safe (delays : Delays) : Prop :=
  ∀ clock nextId table, Bootable nextId table → ∀ acts,
    Run.Meets Backplane.step delays.Keeps (Backplane.boot clock nextId table) acts →
      ∀ row ∈ ((Backplane.boot clock nextId table).run acts).table,
        Run.Meets Backplane.step (fun s a => ¬s.StartsPast a (rowId row)) (Backplane.boot clock nextId table) acts →
          ((Backplane.boot clock nextId table).run acts).Reaches (rowId row)

/-- No transaction and no poll is late, and the ids were taken in the order of their times. -/
structure Delays.Punctual (delays : Delays) (s : Backplane) : Prop where
  taken : ∀ held ∈ s.held, held.takenAt ≤ s.clock ∧ s.clock ≤ held.takenAt + delays.holding
  stamped : ∀ held ∈ s.held, held.takenAt ≤ held.row.createdAt + delays.stamping
  inOrder : ∀ held ∈ s.held, ∀ held' ∈ s.held, rowId held.row < rowId held'.row → held.takenAt ≤ held'.takenAt
  passedBy : ∀ held ∈ s.held, ∀ row ∈ s.table, rowId held.row < rowId row →
    held.takenAt ≤ row.createdAt + delays.stamping
  read : ∀ listening ∈ s.listening, ∀ fetched ∈ listening.fetched,
    fetched.readAt ≤ s.clock ∧ s.clock ≤ fetched.readAt + delays.polling
  unread : ∀ listening ∈ s.listening, ∀ fetched ∈ listening.fetched, ∀ last ∈ fetched.rows, ∀ row ∈ s.live,
    listening.relay.cursor < rowId row → rowId row < rowId last → row ∉ fetched.rows →
      fetched.readAt ≤ last.createdAt + delays.stamping + delays.holding

section Punctual

variable {delays : Delays} {s : Backplane}

/-- What only ends transactions, or removes rows, keeps everyone punctual. -/
theorem Delays.Punctual.of_fewer {s' : Backplane} (h : delays.Punctual s) (hclock : s'.clock = s.clock)
    (hlistening : s'.listening = s.listening) (hheld : ∀ held ∈ s'.held, held ∈ s.held)
    (hlive : ∀ row ∈ s'.live, row ∈ s.live)
    (htable : ∀ row ∈ s'.table, row ∈ s.table ∨ ∃ held ∈ s.held, held.row = row) : delays.Punctual s' where
  taken held hmem := hclock ▸ h.taken held (hheld held hmem)
  stamped held hmem := h.stamped held (hheld held hmem)
  inOrder held hmem held' hmem' := h.inOrder held (hheld held hmem) held' (hheld held' hmem')
  passedBy held hmem row hrow hlt := by
    rcases htable row hrow with hrow | ⟨held', hmem', rfl⟩
    · exact h.passedBy held (hheld held hmem) row hrow hlt
    · exact (h.inOrder held (hheld held hmem) held' hmem' hlt).trans (h.stamped held' hmem')
  read listening hmem := hclock ▸ h.read listening (hlistening ▸ hmem)
  unread listening hmem fetched hf last hlast row hrow :=
    h.unread listening (hlistening ▸ hmem) fetched hf last hlast row (hlive row hrow)

/-- What leaves no poll under way keeps everyone punctual. -/
theorem Delays.Punctual.of_still {s' : Backplane} (h : delays.Punctual s) (hstill : s.Still s')
    (hlistening : ∀ listening ∈ s'.listening, listening.fetched = none) : delays.Punctual s' where
  taken := by
    rw [hstill.clock, hstill.held]
    exact h.taken
  stamped := by
    rw [hstill.held]
    exact h.stamped
  inOrder := by
    rw [hstill.held]
    exact h.inOrder
  passedBy := by
    rw [hstill.held, hstill.table]
    exact h.passedBy
  read listening hmem fetched hf := by cases (hlistening listening hmem).symm.trans hf
  unread listening hmem fetched hf := by cases (hlistening listening hmem).symm.trans hf

theorem Delays.Punctual.tick (h : delays.Punctual s) {elapsed : Nat} (hkeeps : delays.Keeps s (.tick elapsed)) :
    delays.Punctual (s.step (.tick elapsed)) where
  taken held hmem :=
    ⟨(h.taken held hmem).1.trans (Int.le_add_of_nonneg_right (Int.natCast_nonneg _)), hkeeps.1 held hmem⟩
  stamped := h.stamped
  inOrder := h.inOrder
  passedBy := h.passedBy
  read listening hmem fetched hf :=
    ⟨(h.read listening hmem fetched hf).1.trans (Int.le_add_of_nonneg_right (Int.natCast_nonneg _)),
      hkeeps.2 listening hmem fetched hf⟩
  unread := h.unread

theorem Delays.Punctual.insert (h : delays.Punctual s) (hnumbered : s.Numbered) (htold : s.Told) {tx : Nat}
    {worldId : Uuid} {eventCode : Int} {tokenEvent : Option Json} {createdAt : NaiveDateTime}
    (hkeeps : s.clock ≤ createdAt + delays.stamping) :
    delays.Punctual (s.step (.insert tx worldId eventCode tokenEvent createdAt)) := by
  have hbelow {held : Held} (hmem : held ∈ s.held) : rowId held.row < s.nextId :=
    hnumbered.below _ (Backplane.mem_live.mpr (Or.inr ⟨held, hmem, rfl⟩))
  refine ⟨fun held hmem => ?_, fun held hmem => ?_, fun held hmem held' hmem' hlt => ?_,
    fun held hmem row hrow hlt => ?_, h.read,
    fun listening hmem fetched hf last hlast row hrow hcursor hlt hunread => ?_⟩
  · rcases List.mem_append.mp hmem with hmem | hmem
    · exact h.taken held hmem
    · obtain rfl := List.mem_singleton.mp hmem
      exact ⟨le_refl _, Int.le_add_of_nonneg_right (Int.natCast_nonneg _)⟩
  · rcases List.mem_append.mp hmem with hmem | hmem
    · exact h.stamped held hmem
    · obtain rfl := List.mem_singleton.mp hmem
      exact hkeeps
  · rcases List.mem_append.mp hmem with hmem | hmem
    · rcases List.mem_append.mp hmem' with hmem' | hmem'
      · exact h.inOrder held hmem held' hmem' hlt
      · obtain rfl := List.mem_singleton.mp hmem'
        exact (h.taken held hmem).1
    · obtain rfl := List.mem_singleton.mp hmem
      rcases List.mem_append.mp hmem' with hmem' | hmem'
      · exact absurd hlt (hbelow hmem').not_gt
      · obtain rfl := List.mem_singleton.mp hmem'
        exact absurd hlt (lt_irrefl _)
  · rcases List.mem_append.mp hmem with hmem | hmem
    · exact h.passedBy held hmem row hrow hlt
    · obtain rfl := List.mem_singleton.mp hmem
      exact absurd hlt (hnumbered.below row (Backplane.mem_live.mpr (Or.inl hrow))).not_gt
  · rw [live_insert] at hrow
    rcases List.mem_append.mp hrow with hrow | hrow
    · exact h.unread listening hmem fetched hf last hlast row hrow hcursor hlt hunread
    · obtain rfl := List.mem_singleton.mp hrow
      exact absurd hlt (htold.read listening hmem fetched hf last hlast).1.not_gt

/-- What a poll leaves unread below what it reads is held by a transaction that is open. -/
theorem Delays.Punctual.fetch (h : delays.Punctual s) (hnumbered : s.Numbered) {relay : Relay}
    (hbefore : s.listening = some { relay, fetched := none }) : delays.Punctual (s.step .fetch) := by
  have hstill := still_fetch s
  have hlistening : (s.step .fetch).listening =
      some { relay, fetched := some ⟨s.clock, pollNewEvents s.table relay.cursor⟩ } := by
    simp [Backplane.step, hbefore]
  refine ⟨?_, ?_, ?_, ?_, fun listening hmem fetched hf => ?_,
    fun listening hmem fetched hf last hlast row hrow hcursor hlt hunread => ?_⟩
  · rw [hstill.clock, hstill.held]
    exact h.taken
  · rw [hstill.held]
    exact h.stamped
  · rw [hstill.held]
    exact h.inOrder
  · rw [hstill.held, hstill.table]
    exact h.passedBy
  · obtain rfl := Option.some.inj (hlistening.symm.trans hmem)
    obtain rfl := Option.some.inj hf
    rw [hstill.clock]
    exact ⟨le_refl _, Int.le_add_of_nonneg_right (Int.natCast_nonneg _)⟩
  · obtain rfl := Option.some.inj (hlistening.symm.trans hmem)
    obtain rfl := Option.some.inj hf
    rw [hstill.live] at hrow
    have hlast' : last ∈ s.table := (Tailing.mem_of_mem_window hlast).1
    rcases Backplane.mem_live.mp hrow with hrow | ⟨held, hheld, rfl⟩
    · exact absurd (Tailing.mem_window_of_le hnumbered.table_nodup hrow hcursor hlast hlt.le) hunread
    · calc s.clock ≤ held.takenAt + delays.holding := (h.taken held hheld).2
        _ ≤ last.createdAt + delays.stamping + delays.holding :=
          Int.add_le_add_right (h.passedBy held hheld last hlast' hlt) _

theorem Delays.Punctual.listen (h : delays.Punctual s) (hnumbered : s.Numbered) {a : Action}
    (hstill : s.Still (s.step a)) : delays.Punctual (s.step a) := by
  have hidle {relay : Relay} (hlistening : (s.step a).listening = some { relay, fetched := none }) :
      delays.Punctual (s.step a) := by
    refine h.of_still hstill fun listening hmem => ?_
    obtain rfl := Option.some.inj (hlistening.symm.trans hmem)
    rfl
  cases heard_step s a with
  | quiet hlistening _ =>
      refine h.of_fewer hstill.clock hlistening (fun held hmem => ?_) (fun row hrow => ?_) fun row hrow => Or.inl ?_
      · exact hstill.held ▸ hmem
      · exact hstill.live ▸ hrow
      · exact hstill.table ▸ hrow
  | starts read startAfter _ _ _ hlistening _ => exact hidle hlistening
  | fetches relay hact hbefore _ _ =>
      subst hact
      exact h.fetch hnumbered hbefore
  | absorbs relay fetched _ _ hlistening _ => exact hidle hlistening
  | drops relay fetched failure _ _ hlistening _ => exact hidle hlistening

theorem Delays.Punctual.step (h : delays.Punctual s) (hsound : s.Sound) {a : Action} (hkeeps : delays.Keeps s a) :
    delays.Punctual (s.step a) := by
  cases a with
  | tick elapsed => exact h.tick hkeeps
  | insert tx worldId eventCode tokenEvent createdAt => exact h.insert hsound.numbered hsound.told hkeeps
  | commit tx =>
      refine h.of_fewer rfl rfl (fun held hmem => (List.mem_filter.mp hmem).1)
        (fun row hrow => (live_commit s tx).subset hrow) fun row hrow => ?_
      have hlive : row ∈ s.live := (live_commit s tx).subset (Backplane.mem_live.mpr (Or.inl hrow))
      exact Backplane.mem_live.mp hlive
  | rollback tx =>
      exact h.of_fewer rfl rfl (fun held hmem => (List.mem_filter.mp hmem).1)
        (fun row hrow => (live_rollback s tx).subset hrow) fun row hrow => Or.inl hrow
  | purge ids =>
      exact h.of_fewer rfl rfl (fun held hmem => hmem) (fun row hrow => (live_purge s ids).subset hrow)
        fun row hrow => Or.inl (List.mem_filter.mp hrow).1
  | highWater read => exact h.listen hsound.numbered (still_highWater s read)
  | fetch => exact h.listen hsound.numbered (still_fetch s)
  | absorb => exact h.listen hsound.numbered (still_absorb s)
  | fail failure => exact h.listen hsound.numbered (still_fail s failure)

end Punctual

theorem Delays.punctual_boot (delays : Delays) (clock : NaiveDateTime) (nextId : Int) (table : List WorldEvent) :
    delays.Punctual (Backplane.boot clock nextId table) where
  taken := by rintro held ⟨⟩
  stamped := by rintro held ⟨⟩
  inOrder := by rintro held ⟨⟩
  passedBy := by rintro held ⟨⟩
  read := by rintro listening ⟨⟩
  unread := by rintro listening ⟨⟩

/-- With the delays inside the grace, no poll taken in passes a row that is there. -/
theorem Delays.not_overtakes {delays : Delays} {s : Backplane} (h : delays.Punctual s) (hsound : s.Sound)
    (hgrace : (delays.stamping + delays.holding + delays.polling : Int) ≤ commitGrace) {a : Action} {row : WorldEvent}
    (hlive : rowId row < s.nextId → row ∈ s.live) : ¬s.Overtakes a (rowId row) := by
  rintro ⟨-, relay, fetched, hbefore, hcursor, hunread, hpassed⟩
  rcases settledCursor_cases (fetched.rows.map stamp) relay.cursor s.clock with hsame | ⟨_, hstamp, hsettled, heq⟩
  · exact absurd hcursor (not_lt.mpr (hsame ▸ hpassed))
  · obtain ⟨last, hlast, rfl⟩ := List.mem_map.mp hstamp
    have hle : rowId row ≤ rowId last := hpassed.trans_eq heq
    have hlt : rowId row < rowId last := by
      refine hle.lt_of_ne fun hid => hunread ?_
      rw [hid]
      exact List.mem_map_of_mem hlast
    have hread : fetched.readAt ≤ last.createdAt + delays.stamping + delays.holding :=
      h.unread _ hbefore _ rfl last hlast row
        (hlive (hlt.trans (hsound.told.read _ hbefore _ rfl last hlast).1)) hcursor hlt
        fun hmem => hunread (List.mem_map_of_mem hmem)
    have hnow : s.clock ≤ fetched.readAt + delays.polling := (h.read _ hbefore _ rfl).2
    have hold : last.createdAt < s.clock - commitGrace := hsettled
    linarith

theorem Delays.safe_of_le {delays : Delays}
    (hgrace : (delays.stamping + delays.holding + delays.polling : Int) ≤ commitGrace) : delays.Safe := by
  intro clock nextId table hboot acts hkeeps row hrow hstarts
  rw [lost_iff hboot acts hrow, Run.meets_iff]
  intro before a hbefore
  refine ⟨Run.meets_iff.mp hstarts before a hbefore, ?_⟩
  obtain ⟨after, rfl⟩ := hbefore
  have hkept : Run.Meets Backplane.step delays.Keeps (Backplane.boot clock nextId table) before :=
    (Run.Meets.append.mp (Run.Meets.append.mp hkeeps).1).1
  have hpunctual : delays.Punctual ((Backplane.boot clock nextId table).run before) ∧
      ((Backplane.boot clock nextId table).run before).Sound :=
    hkept.invariant (I := fun s : Backplane => delays.Punctual s ∧ s.Sound)
      (fun _ a h hok => ⟨h.1.step h.2 hok, h.2.step a⟩) ⟨delays.punctual_boot clock nextId table, hboot.sound⟩
  refine Delays.not_overtakes hpunctual.1 hpunctual.2 hgrace fun hid => ?_
  have hrun : (Backplane.boot clock nextId table).run (before ++ [a] ++ after) =
      ((Backplane.boot clock nextId table).run before).run ([a] ++ after) := by
    rw [Backplane.run, List.append_assoc, Run.run_append]
  rw [hrun] at hrow
  exact live_run _ _ (Backplane.mem_live.mpr (Or.inl hrow)) hid

/-! Past the grace. -/

/-- The row that the first transaction inserts. -/
def heldLong : WorldEvent := { id := 1, worldId := 0, eventCode := 0, tokenEvent := none, createdAt := 0 }

/-- The row that the second inserts, stamped as early as it may be. -/
def Delays.stampedEarly (delays : Delays) : WorldEvent :=
  { id := 2, worldId := 0, eventCode := 0, tokenEvent := none, createdAt := -delays.stamping }

/-- One transaction takes the first id and keeps it as long as it may; another, with the second, is done at once. The
poll reads the second row alone, and is taken in as late as it may be. -/
def Delays.late (delays : Delays) : List Action :=
  [.highWater .answered, .insert 1 0 0 none 0, .insert 2 0 0 none (-delays.stamping), .commit 2, .tick delays.holding,
    .fetch, .commit 1, .tick delays.polling]

/-- Where that leaves the listener. -/
def Delays.tooLate (delays : Delays) : Backplane where
  clock := delays.holding + delays.polling
  nextId := 3
  held := []
  table := [delays.stampedEarly, heldLong]
  listening := some { relay := Relay.start 0, fetched := some ⟨delays.holding, [delays.stampedEarly]⟩ }
  metrics := {}
  broadcast := []

theorem Delays.run_late (delays : Delays) : (Backplane.boot 0 1 []).run delays.late = delays.tooLate := by
  simp [Delays.late, Delays.tooLate, Backplane.run, Backplane.boot, Backplane.step, Backplane.rowsOf,
    currentMaxEventId, pollNewEvents, Tailing.window, Tailing.above, SortBy.sortBy, SortBy.insert, Relay.start,
    Delays.stampedEarly, heldLong, pollBatchSize]

theorem Delays.keeps_late (delays : Delays) :
    Run.Meets Backplane.step delays.Keeps (Backplane.boot 0 1 []) (delays.late ++ [.absorb]) := by
  simp [Delays.late, Run.Meets, Delays.Keeps, Backplane.boot, Backplane.step, Backplane.rowsOf,
    currentMaxEventId, pollNewEvents, Tailing.window, Tailing.above, SortBy.sortBy, SortBy.insert, Relay.start]

/-- With the delays past the grace the cursor then passes both rows. -/
theorem Delays.passes_late {delays : Delays}
    (hlate : commitGrace < (delays.stamping + delays.holding + delays.polling : Int)) :
    settledCursor [stamp delays.stampedEarly] 0 (delays.holding + delays.polling) = 2 := by
  have hold : ¬(delays.holding + delays.polling - commitGrace : Int) ≤ -delays.stamping := by linarith
  show settleRows _ [RowStamp.mk 2 (-delays.stamping)] 0 = 2
  unfold settleRows
  rw [if_neg hold]
  rfl

theorem Delays.not_starts_late (delays : Delays) :
    Run.Meets Backplane.step (fun s a => ¬s.StartsPast a (rowId heldLong)) (Backplane.boot 0 1 [])
      (delays.late ++ [.absorb]) := by
  simp [Delays.late, Run.Meets, Backplane.StartsPast, Backplane.boot, Backplane.step, Backplane.rowsOf,
    currentMaxEventId, heldLong]

end ThunderForge.Delivery
