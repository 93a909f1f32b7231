import ThunderForge.Delivery.Lost

/-! A backlog drains, whatever polls fail on the way; and from where the listener starts. -/

namespace ThunderForge.Delivery

/-- What the loop does on each pass: it polls, and takes in what it read unless the poll failed. -/
def passes (outcomes : List (Option PollFailure)) : List Action :=
  outcomes.flatMap fun outcome => [.fetch, outcome.elim .absorb .fail]

/-- How many polls succeeded. -/
def succeeded (outcomes : List (Option PollFailure)) : Nat := outcomes.countP Option.isNone

/-- Past rows that are all older than the grace the cursor goes to the last. -/
theorem settledCursor_of_settled {ρ : Type*} [Stamped ρ] {rows : List ρ} {current : Int} {now : NaiveDateTime}
    (hold : ∀ row ∈ rows, (stamp row).Settled now) :
    settledCursor (rows.map stamp) current now = Tailing.passed rowId current rows := by
  unfold settledCursor
  induction rows generalizing current with
  | nil => rfl
  | cons row rows ih =>
      obtain ⟨hrow, hrest⟩ := List.forall_mem_cons.mp hold
      rw [List.map_cons, settleRows, if_neg (not_le.mpr hrow)]
      exact ih hrest

/-- The rows that the cursor has not passed are all older than the grace. -/
def Backplane.Quiet (s : Backplane) (relay : Relay) : Prop :=
  ∀ row ∈ s.table, relay.cursor < rowId row → (stamp row).Settled s.clock

section

variable {s : Backplane} {relay : Relay}

theorem run_failed (hidle : s.listening = some { relay, fetched := none }) (failure : PollFailure) :
    (s.run [.fetch, .fail failure]).listening = some { relay, fetched := none } ∧
      (s.run [.fetch, .fail failure]).broadcast = s.broadcast ∧ s.Still (s.run [.fetch, .fail failure]) := by
  refine ⟨?_, ?_, ?_, ?_, ?_, ?_⟩ <;> simp [Backplane.run, Backplane.step, hidle]

/-- A poll that succeeds reads one window of the table and passes it. -/
theorem run_absorbed (hidle : s.listening = some { relay, fetched := none }) (hquiet : s.Quiet relay) :
    ∃ relay', (s.run [.fetch, .absorb]).listening = some { relay := relay', fetched := none } ∧
      relay'.reader = (relay.reader.pass rowId pollBatchSize s.table).1 ∧
      (s.run [.fetch, .absorb]).broadcast = s.broadcast ++ (relay.reader.pass rowId pollBatchSize s.table).2 ∧
      s.Still (s.run [.fetch, .absorb]) := by
  have hsettled : ∀ row ∈ pollNewEvents s.table relay.cursor, (stamp row).Settled s.clock := fun row hrow =>
    hquiet row (Tailing.mem_of_mem_window hrow).1 (Tailing.mem_of_mem_window hrow).2
  have hread := relay.absorb_reader (pollNewEvents s.table relay.cursor) s.clock
  rw [settledCursor_of_settled hsettled] at hread
  have hpass : relay.reader.pass rowId pollBatchSize s.table =
      ((relay.absorb (pollNewEvents s.table relay.cursor) s.clock).1.reader,
        (relay.absorb (pollNewEvents s.table relay.cursor) s.clock).2) := hread.symm
  rw [hpass]
  refine ⟨(relay.absorb (pollNewEvents s.table relay.cursor) s.clock).1, ?_, rfl, ?_, ?_, ?_, ?_, ?_⟩ <;>
    simp [Backplane.run, Backplane.step, Backplane.absorb, hidle]

theorem Backplane.Quiet.of_still {s' : Backplane} (h : s.Quiet relay) (hstill : s.Still s') {relay' : Relay}
    (hle : relay.cursor ≤ relay'.cursor) : s'.Quiet relay' := by
  intro row hrow hcursor
  rw [hstill.clock]
  exact h row (hstill.table ▸ hrow) (hle.trans_lt hcursor)

/-- The polls that succeed are so many windows, one after another, of a table that stays as it is. -/
theorem run_passes (hidle : s.listening = some { relay, fetched := none }) (hquiet : s.Quiet relay)
    (outcomes : List (Option PollFailure)) :
    ∃ relay', (s.run (passes outcomes)).listening = some { relay := relay', fetched := none } ∧
      relay'.reader = Run.run (Run.next fun reader (_ : Unit) => reader.pass rowId pollBatchSize s.table) relay.reader
        (List.replicate (succeeded outcomes) ()) ∧
      (s.run (passes outcomes)).broadcast = s.broadcast ++
        (Run.answers (fun reader (_ : Unit) => reader.pass rowId pollBatchSize s.table) relay.reader
          (List.replicate (succeeded outcomes) ())).flatten := by
  induction outcomes generalizing s relay with
  | nil => exact ⟨relay, hidle, rfl, (List.append_nil _).symm⟩
  | cons outcome outcomes ih =>
      cases outcome with
      | some failure =>
          obtain ⟨hidle', hbroadcast, hstill⟩ := run_failed hidle failure
          obtain ⟨relay', hafter, hreader, hanswers⟩ := ih hidle' (hquiet.of_still hstill (le_refl _))
          rw [hstill.table] at hreader hanswers
          rw [hbroadcast] at hanswers
          have hcount : succeeded (some failure :: outcomes) = succeeded outcomes := by simp [succeeded]
          rw [hcount]
          exact ⟨relay', hafter, hreader, hanswers⟩
      | none =>
          obtain ⟨relay₁, hidle', hreader₁, hbroadcast, hstill⟩ := run_absorbed hidle hquiet
          have hle : relay.cursor ≤ relay₁.cursor := by
            rw [show relay₁.cursor = relay₁.reader.floor from rfl, hreader₁]
            exact Tailing.le_passed _
          obtain ⟨relay', hafter, hreader, hanswers⟩ := ih hidle' (hquiet.of_still hstill hle)
          rw [hstill.table] at hreader hanswers
          rw [hbroadcast] at hanswers
          have hcount : succeeded (none :: outcomes) = succeeded outcomes + 1 := by simp [succeeded]
          rw [hcount, List.replicate_succ]
          refine ⟨relay', hafter, ?_, ?_⟩
          · rw [hreader, hreader₁]
            rfl
          · rw [hreader₁] at hanswers
            refine hanswers.trans ?_
            rw [List.append_assoc]
            rfl

end

/-- A backlog of rows older than the grace drains by a batch a poll, whatever polls fail in between: what is broadcast
is, in ascending order, whatever of so many batches was not broadcast before, and only the rest is still ahead of the
cursor. -/
theorem drains {s : Backplane} (hsound : s.Sound) {relay : Relay}
    (hidle : s.listening = some { relay, fetched := none }) (hquiet : s.Quiet relay)
    (outcomes : List (Option PollFailure)) :
    (s.run (passes outcomes)).broadcast = s.broadcast ++ Tailing.fresh rowId (Tailing.keys rowId s.broadcast)
        (Tailing.window rowId (succeeded outcomes * pollBatchSize) relay.cursor s.table) ∧
      ∃ relay', (s.run (passes outcomes)).listening = some { relay := relay', fetched := none } ∧
        Tailing.above rowId relay'.cursor s.table =
          (Tailing.above rowId relay.cursor s.table).drop (succeeded outcomes * pollBatchSize) := by
  have hremembers : relay.reader.Remembers (Tailing.keys rowId s.broadcast) := hsound.told.remembers _ hidle
  obtain ⟨relay', hafter, hreader, hanswers⟩ := run_passes hidle hquiet outcomes
  obtain ⟨hwindow, hfloor⟩ := Tailing.Reader.drained pollBatchSize hsound.numbered.table_nodup
    (List.replicate (succeeded outcomes) ()) relay.reader hremembers
  rw [List.length_replicate] at hwindow hfloor
  refine ⟨hanswers.trans (congrArg _ hwindow), relay', hafter, ?_⟩
  rw [← hreader] at hfloor
  exact hfloor

/-- Two rows three seconds old, which a listener that starts below them has to drain. -/
def backlog : Backplane :=
  (Backplane.boot (3 * 10 ^ 9) 3 [⟨2, 0, 0, none, 0⟩, ⟨1, 0, 0, none, 0⟩]).run [.highWater .queryFailed]

theorem sound_backlog : backlog.Sound :=
  (Bootable.sound ⟨by decide, by decide⟩).run _

theorem drains_backlog : (backlog.run (passes [some .panicked, none])).broadcast.map rowId = [1, 2] ∧
    ∃ relay', (backlog.run (passes [some .panicked, none])).listening = some { relay := relay', fetched := none } ∧
      Tailing.above rowId relay'.cursor backlog.table = [] := by
  have hidle : backlog.listening = some { relay := Relay.start 0, fetched := none } := rfl
  have hquiet : backlog.Quiet (Relay.start 0) := by
    unfold Backplane.Quiet
    decide
  exact ⟨by decide, (drains sound_backlog hidle hquiet [some .panicked, none]).2⟩

/-! From where the listener starts. -/

/-- Neither the cursor nor anything broadcast is at or below where the listener started. -/
def Backplane.Since (start : Int) (s : Backplane) : Prop :=
  (∃ listening, s.listening = some listening ∧ start ≤ listening.relay.cursor) ∧ ∀ row ∈ s.broadcast, start < rowId row

theorem Backplane.Since.step {start : Int} {s : Backplane} (h : s.Since start) (hsound : s.Sound) (a : Action) :
    (s.step a).Since start := by
  obtain ⟨⟨listening, hlistening, hstart⟩, hbroadcast⟩ := h
  cases heard_step s a with
  | quiet hsame hsame' => exact ⟨⟨listening, hsame.trans hlistening, hstart⟩, hsame' ▸ hbroadcast⟩
  | starts read startAfter _ hsilent _ _ _ => cases hlistening.symm.trans hsilent
  | fetches relay _ hbefore hafter hsame =>
      obtain rfl := Option.some.inj (hlistening.symm.trans hbefore)
      exact ⟨⟨_, hafter, hstart⟩, hsame ▸ hbroadcast⟩
  | absorbs relay fetched _ hbefore hafter hadded =>
      obtain rfl := Option.some.inj (hlistening.symm.trans hbefore)
      refine ⟨⟨_, hafter, hstart.trans le_settledCursor⟩, fun row hrow => ?_⟩
      rw [hadded] at hrow
      rcases List.mem_append.mp hrow with hrow | hrow
      · exact hbroadcast row hrow
      · have habove := (hsound.told.ordered _ hbefore _ rfl).above row ((Tailing.fresh_sublist _).subset hrow)
        exact hstart.trans_lt habove
  | drops relay fetched failure _ hbefore hafter hsame =>
      obtain rfl := Option.some.inj (hlistening.symm.trans hbefore)
      exact ⟨⟨_, hafter, hstart⟩, hsame ▸ hbroadcast⟩

theorem le_currentMaxEventId {table : List WorldEvent} {row : WorldEvent} (hrow : row ∈ table) :
    ∃ highest, currentMaxEventId .answered table = some highest ∧ rowId row ≤ highest := by
  have hid : rowId row ∈ table.map WorldEvent.id := List.mem_map_of_mem hrow
  cases hmax : (table.map WorldEvent.id).max? with
  | none =>
      rw [List.max?_eq_none_iff.mp hmax] at hid
      cases hid
  | some highest =>
      refine ⟨highest, by simp [currentMaxEventId, hmax], ?_⟩
      exact (List.max?_eq_some_iff.mp hmax).2 _ hid

theorem starts_highWater {s : Backplane} (hsilent : s.listening = none) (read : MaxRead) {startAfter : Int}
    (hanswer : currentMaxEventId read s.table = some startAfter) :
    (s.step (.highWater read)).listening = some { relay := Relay.start startAfter, fetched := none } ∧
      (s.step (.highWater read)).broadcast = s.broadcast := by
  simp [Backplane.step, hsilent, hanswer]

/-- A listener that read the highest id never broadcasts a row that was there; one whose query for it failed has
started below every row, and may broadcast them. -/
theorem replays_iff {s : Backplane} (hsound : s.Sound) (hsilent : s.listening = none)
    (hids : ∀ row ∈ s.table, 0 < rowId row) (hrows : s.table ≠ []) {read : MaxRead} (hread : read ≠ .noConnection) :
    (∃ acts, ∃ row ∈ s.table, row ∈ ((s.step (.highWater read)).run acts).broadcast) ↔ read = .queryFailed := by
  have hnothing : s.broadcast = [] := hsound.told.silent hsilent
  constructor
  · rintro ⟨acts, row, hrow, hbroadcast⟩
    cases read with
    | noConnection => exact absurd rfl hread
    | queryFailed => rfl
    | answered =>
        obtain ⟨highest, hanswer, hle⟩ := le_currentMaxEventId hrow
        obtain ⟨hlistening, hsame⟩ := starts_highWater hsilent .answered hanswer
        have hsince : (s.step (.highWater .answered)).Since highest := by
          refine ⟨⟨_, hlistening, le_refl _⟩, ?_⟩
          rw [hsame, hnothing]
          rintro row ⟨⟩
        have hrun := Run.invariant (I := fun s : Backplane => s.Sound ∧ s.Since highest)
          (fun _ a h => ⟨h.1.step a, h.2.step h.1 a⟩) ⟨hsound.step (.highWater .answered), hsince⟩ acts
        exact absurd (hrun.2.2 row hbroadcast) hle.not_gt
  · rintro rfl
    obtain ⟨hlistening, hsame⟩ := starts_highWater hsilent .queryFailed rfl
    have htable : (s.step (.highWater .queryFailed)).table = s.table := (still_highWater s _).table
    have hbroadcast : ((s.step (.highWater .queryFailed)).run [.fetch, .absorb]).broadcast =
        Tailing.fresh rowId ∅ (pollNewEvents s.table 0) := by
      simp [Backplane.run, Backplane.step, Backplane.absorb, hsilent, currentMaxEventId, hnothing, Relay.start]
    obtain ⟨row, hrow⟩ := List.exists_mem_of_ne_nil _ hrows
    have habove : row ∈ Tailing.above rowId 0 s.table := Tailing.mem_above.mpr ⟨hrow, hids row hrow⟩
    cases hfirst : Tailing.above rowId 0 s.table with
    | nil =>
        rw [hfirst] at habove
        cases habove
    | cons first rest =>
        have hpolled : first ∈ pollNewEvents s.table 0 := by
          rw [pollNewEvents, Tailing.window, hfirst]
          exact List.mem_cons_self
        refine ⟨[.fetch, .absorb], first, (Tailing.mem_of_mem_window hpolled).1, ?_⟩
        rw [hbroadcast, Tailing.fresh_eq_self _ fun row hrow => Finset.notMem_empty _]
        · exact hpolled
        · exact List.pairwise_map.mpr ((Tailing.pairwise_lt_window hsound.numbered.table_nodup).imp fun hlt => hlt.ne)

theorem replays_backlog : (∃ acts, ∃ row ∈ [WorldEvent.mk 1 0 0 none 0],
    row ∈ (((Backplane.boot 0 2 [⟨1, 0, 0, none, 0⟩]).step (.highWater .queryFailed)).run acts).broadcast) :=
  (replays_iff (s := Backplane.boot 0 2 [⟨1, 0, 0, none, 0⟩]) (Bootable.sound ⟨by decide, by decide⟩) rfl (by decide)
    (by decide) (by decide)).mpr rfl

end ThunderForge.Delivery
