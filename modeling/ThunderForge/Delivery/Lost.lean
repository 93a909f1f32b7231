import ThunderForge.Delivery.Once

/-! Which committed events are never delivered: those whose id the cursor passes while no poll has read them. -/

namespace ThunderForge.Delivery

/-- The listener starts at or above the id. -/
def Backplane.StartsPast (s : Backplane) (a : Action) (id : Int) : Prop :=
  s.listening = none ∧ ∃ read startAfter, a = .highWater read ∧ currentMaxEventId read s.table = some startAfter ∧
    id ≤ startAfter

/-- A poll that has not read the id is taken in, and the cursor passes it. -/
def Backplane.Overtakes (s : Backplane) (a : Action) (id : Int) : Prop :=
  a = .absorb ∧ ∃ relay fetched, s.listening = some { relay, fetched := some fetched } ∧ relay.cursor < id ∧
    id ∉ fetched.rows.map rowId ∧ id ≤ settledCursor (fetched.rows.map stamp) relay.cursor s.clock

/-- The id was broadcast, or the cursor is still below it. -/
def Backplane.Reaches (s : Backplane) (id : Int) : Prop :=
  id ∈ s.broadcast.map rowId ∨ ∀ listening ∈ s.listening, listening.relay.cursor < id

/-- A poll under way has read every row of the table that was broadcast before and that lies among what it read. -/
def Backplane.Reread (s : Backplane) : Prop :=
  ∀ relay fetched, s.listening = some { relay, fetched := some fetched } →
    ∀ row ∈ s.table, rowId row ∈ s.broadcast.map rowId → relay.cursor < rowId row →
      ∀ last ∈ fetched.rows, rowId row ≤ rowId last → row ∈ fetched.rows

section Live

variable {s : Backplane}

/-- A row is there for good or for a while from the time its id is taken. -/
theorem live_step (s : Backplane) (a : Action) {row : WorldEvent} (h : row ∈ (s.step a).live) :
    row ∈ s.live ∨ rowId row = s.nextId := by
  cases a with
  | tick => exact Or.inl h
  | insert =>
      rw [live_insert] at h
      rcases List.mem_append.mp h with h | h
      · exact Or.inl h
      · obtain rfl := List.mem_singleton.mp h
        exact Or.inr rfl
  | commit tx => exact Or.inl ((live_commit s tx).subset h)
  | rollback tx => exact Or.inl ((live_rollback s tx).subset h)
  | purge ids => exact Or.inl ((live_purge s ids).subset h)
  | highWater read => exact Or.inl ((still_highWater s read).live ▸ h)
  | fetch => exact Or.inl ((still_fetch s).live ▸ h)
  | absorb => exact Or.inl ((still_absorb s).live ▸ h)
  | fail failure => exact Or.inl ((still_fail s failure).live ▸ h)

theorem nextId_le_step (s : Backplane) (a : Action) : s.nextId ≤ (s.step a).nextId := by
  cases a with
  | insert => exact (Int.lt_succ _).le
  | highWater read => exact (still_highWater s read).nextId.ge
  | fetch => exact (still_fetch s).nextId.ge
  | absorb => exact (still_absorb s).nextId.ge
  | fail failure => exact (still_fail s failure).nextId.ge
  | _ => exact le_refl _

/-- An id that was taken is nobody else's later. -/
theorem live_run (s : Backplane) (acts : List Action) {row : WorldEvent} (h : row ∈ (s.run acts).live)
    (hid : rowId row < s.nextId) : row ∈ s.live := by
  have hboth : row ∈ s.live ∨ s.nextId ≤ rowId row := by
    induction acts generalizing s with
    | nil => exact Or.inl h
    | cons a acts ih =>
        rcases ih (s.step a) h (hid.trans_le (nextId_le_step s a)) with hlive | hle
        · exact (live_step s a hlive).imp_right fun heq => heq.ge
        · exact Or.inr ((nextId_le_step s a).trans hle)
  exact hboth.resolve_right (not_le.mpr hid)

/-- What is in the table and was seen before was in the table before. -/
theorem table_step_of_seen {row : WorldEvent} (hseen : s.Seen row) {a : Action} (h : row ∈ (s.step a).table) :
    row ∈ s.table := by
  have hlive : row ∈ (s.step a).live := Backplane.mem_live.mpr (Or.inl h)
  rcases live_step s a hlive with hlive | hid
  · rcases Backplane.mem_live.mp hlive with htable | ⟨held, hheld, rfl⟩
    · exact htable
    · exact absurd rfl (hseen.2 held hheld)
  · exact absurd hid hseen.1.ne

end Live

section Reread

variable {s : Backplane}

theorem Backplane.Reread.step (h : s.Reread) (hnumbered : s.Numbered) (htold : s.Told) (a : Action) :
    (s.step a).Reread := by
  intro relay fetched hafter row hrow hbroadcast hcursor last hlast hle
  cases heard_step s a with
  | quiet hlistening hsame =>
      rw [hsame] at hbroadcast
      obtain ⟨row', hrow', hid⟩ := List.mem_map.mp hbroadcast
      have hseen : s.Seen row := by
        have hseen' := htold.seen row' hrow'
        rw [Backplane.Seen, hid] at hseen'
        exact hseen'
      exact h relay fetched (hlistening.symm.trans hafter) row (table_step_of_seen hseen hrow) hbroadcast hcursor
        last hlast hle
  | starts read startAfter _ _ _ hlistening _ => cases hlistening.symm.trans hafter
  | fetches relay' hact _ hlistening _ =>
      cases hlistening.symm.trans hafter
      subst hact
      rw [(still_fetch s).table] at hrow
      exact Tailing.mem_window_of_le hnumbered.table_nodup hrow hcursor hlast hle
  | absorbs relay' fetched' _ _ hlistening _ => cases hlistening.symm.trans hafter
  | drops relay' fetched' failure _ _ hlistening _ => cases hlistening.symm.trans hafter

end Reread

/-- The state of the listener and the table in every run. -/
structure Backplane.Sound (s : Backplane) : Prop where
  numbered : s.Numbered
  told : s.Told
  reread : s.Reread

theorem Backplane.Sound.step {s : Backplane} (h : s.Sound) (a : Action) : (s.step a).Sound :=
  ⟨h.numbered.step a, h.told.step h.numbered a, h.reread.step h.numbered h.told a⟩

theorem Backplane.Sound.run {s : Backplane} (h : s.Sound) (acts : List Action) : (s.run acts).Sound :=
  Run.invariant (I := Backplane.Sound) (fun _ a h => h.step a) h acts

theorem Bootable.sound {clock : NaiveDateTime} {nextId : Int} {table : List WorldEvent} (h : Bootable nextId table) :
    (Backplane.boot clock nextId table).Sound :=
  ⟨h.numbered, told_boot, by rintro relay fetched ⟨⟩⟩

section Lost

variable {s : Backplane}

/-- What a poll taken in leaves within reach. -/
theorem reaches_absorb (hsound : s.Sound) {a : Action} {relay : Relay} {fetched : Fetched}
    (hbefore : s.listening = some { relay, fetched := some fetched })
    (hlistening : (s.step a).listening = some { relay := (relay.absorb fetched.rows s.clock).1, fetched := none })
    (hbroadcast : (s.step a).broadcast = s.broadcast ++ Tailing.fresh rowId relay.delivered fetched.rows)
    {row : WorldEvent} (hlive : rowId row < s.nextId → row ∈ s.live) :
    (s.step a).Reaches (rowId row) ↔ s.Reaches (rowId row) ∧ ¬(relay.cursor < rowId row ∧
      rowId row ∉ fetched.rows.map rowId ∧
      rowId row ≤ settledCursor (fetched.rows.map stamp) relay.cursor s.clock) := by
  have hremembers : relay.reader.Remembers (Tailing.keys rowId s.broadcast) := hsound.told.remembers _ hbefore
  have hbefore' : s.Reaches (rowId row) ↔ rowId row ∈ s.broadcast.map rowId ∨ relay.cursor < rowId row := by
    simp [Backplane.Reaches, hbefore]
  have hafter : (s.step a).Reaches (rowId row) ↔ (rowId row ∈ s.broadcast.map rowId ∨
      rowId row ∈ (Tailing.fresh rowId relay.delivered fetched.rows).map rowId) ∨
        settledCursor (fetched.rows.map stamp) relay.cursor s.clock < rowId row := by
    simp [Backplane.Reaches, hlistening, hbroadcast]
  rw [hafter, hbefore']
  have hle : relay.cursor ≤ settledCursor (fetched.rows.map stamp) relay.cursor s.clock := le_settledCursor
  by_cases hold : rowId row ∈ s.broadcast.map rowId
  · refine iff_of_true (Or.inl (Or.inl hold)) ⟨Or.inl hold, fun hovertakes => ?_⟩
    obtain ⟨hcursor, hunread, hpassed⟩ := hovertakes
    have hseen : s.Seen row := by
      obtain ⟨row', hrow', hid⟩ := List.mem_map.mp hold
      have hseen' := hsound.told.seen row' hrow'
      rw [Backplane.Seen, hid] at hseen'
      exact hseen'
    have htable : row ∈ s.table := by
      rcases Backplane.mem_live.mp (hlive hseen.1) with htable | ⟨held, hheld, rfl⟩
      · exact htable
      · exact absurd rfl (hseen.2 held hheld)
    rcases settledCursor_cases (fetched.rows.map stamp) relay.cursor s.clock with
      hsame | ⟨_, hstamp, -, heq⟩
    · exact absurd hcursor (not_lt.mpr (hsame ▸ hpassed))
    · obtain ⟨last, hlast, rfl⟩ := List.mem_map.mp hstamp
      have hle : rowId row ≤ rowId last := hpassed.trans_eq heq
      exact hunread (List.mem_map_of_mem (hsound.reread relay fetched hbefore row htable hold hcursor last hlast hle))
  · by_cases hcursor : relay.cursor < rowId row
    · by_cases hread : rowId row ∈ fetched.rows.map rowId
      · refine iff_of_true (Or.inl (Or.inr ?_)) ⟨Or.inr hcursor, fun hovertakes => hovertakes.2.1 hread⟩
        obtain ⟨row', hrow', hid⟩ := List.mem_map.mp hread
        have hnot : rowId row' ∉ relay.delivered := by
          intro hsent
          exact hold (by simpa [Tailing.keys, hid] using ((hremembers _).mp hsent).2)
        obtain ⟨row'', hrow'', hid'⟩ := Tailing.exists_mem_fresh hrow' hnot
        exact hid ▸ hid' ▸ List.mem_map_of_mem hrow''
      · have hunpublished : rowId row ∉ (Tailing.fresh rowId relay.delivered fetched.rows).map rowId := fun hmem =>
          hread ((Tailing.fresh_sublist _).map rowId |>.subset hmem)
        simp only [hold, hunpublished, hcursor, hread, false_or, not_false_eq_true, true_and, not_le]
    · have hunpublished : rowId row ∉ (Tailing.fresh rowId relay.delivered fetched.rows).map rowId := by
        intro hmem
        obtain ⟨row', hrow', hid⟩ := List.mem_map.mp hmem
        have habove := (hsound.told.ordered _ hbefore _ rfl).above row' ((Tailing.fresh_sublist _).subset hrow')
        exact hcursor (hid ▸ habove)
      refine iff_of_false ?_ fun h => h.1.elim hold hcursor
      rintro ((h | h) | h)
      · exact hold h
      · exact hunpublished h
      · exact hcursor (hle.trans_lt h)

theorem Backplane.StartsPast.starts {a : Action} {id : Int} (h : s.StartsPast a id) :
    ∃ startAfter, (s.step a).listening = some { relay := Relay.start startAfter, fetched := none } := by
  obtain ⟨hnone, read, startAfter, rfl, hanswer, -⟩ := h
  exact ⟨startAfter, by simp [Backplane.step, hnone, hanswer]⟩

theorem Backplane.Overtakes.absorbs {a : Action} {id : Int} (h : s.Overtakes a id) :
    ∃ relay fetched relay', s.listening = some { relay, fetched := some fetched } ∧
      (s.step a).listening = some { relay := relay', fetched := none } := by
  obtain ⟨rfl, relay, fetched, hlistening, -⟩ := h
  exact ⟨relay, fetched, (relay.absorb fetched.rows s.clock).1, hlistening,
    by simp [Backplane.step, Backplane.absorb, hlistening]⟩

/-- A step leaves a row within reach exactly when it was, and the step does not pass it. -/
theorem reaches_step (hsound : s.Sound) (a : Action) {row : WorldEvent}
    (hlive : rowId row < s.nextId → row ∈ s.live) :
    (s.step a).Reaches (rowId row) ↔ s.Reaches (rowId row) ∧
      (¬s.StartsPast a (rowId row) ∧ ¬s.Overtakes a (rowId row)) := by
  have hstays {relay : Relay} {fetched fetched' : Option Fetched} (hbefore : s.listening = some { relay, fetched })
      (hlistening : (s.step a).listening = some { relay, fetched := fetched' })
      (hbroadcast : (s.step a).broadcast = s.broadcast) :
      (s.step a).Reaches (rowId row) ↔ s.Reaches (rowId row) := by
    simp [Backplane.Reaches, hbefore, hlistening, hbroadcast]
  cases heard_step s a with
  | quiet hlistening hbroadcast =>
      have hsame : (s.step a).Reaches (rowId row) ↔ s.Reaches (rowId row) := by
        rw [Backplane.Reaches, Backplane.Reaches, hlistening, hbroadcast]
      refine hsame.trans (iff_self_and.mpr fun _ => ⟨fun hstarts => ?_, fun hovertakes => ?_⟩)
      · obtain ⟨startAfter, hafter⟩ := hstarts.starts
        cases hstarts.1.symm.trans (hlistening.symm.trans hafter)
      · obtain ⟨relay, fetched, relay', hbefore, hafter⟩ := hovertakes.absorbs
        cases hbefore.symm.trans (hlistening.symm.trans hafter)
  | starts read startAfter hact hsilent hanswer hlistening hbroadcast =>
      have hnone : s.broadcast = [] := hsound.told.silent hsilent
      have hafter : (s.step a).Reaches (rowId row) ↔ startAfter < rowId row := by
        simp [Backplane.Reaches, hlistening, hbroadcast, hnone, Relay.start]
      have hbefore : s.Reaches (rowId row) := Or.inr fun l hl => by cases hsilent.symm.trans hl
      rw [hafter]
      constructor
      · intro hlt
        refine ⟨hbefore, fun hstarts => ?_, fun hovertakes => ?_⟩
        · obtain ⟨-, read', startAfter', hact', hanswer', hle⟩ := hstarts
          obtain rfl := Action.highWater.inj (hact.symm.trans hact')
          obtain rfl := Option.some.inj (hanswer.symm.trans hanswer')
          exact hlt.not_ge hle
        · cases hact.symm.trans hovertakes.1
      · rintro ⟨-, hstarts, -⟩
        exact not_le.mp fun hle => hstarts ⟨hsilent, read, startAfter, hact, hanswer, hle⟩
  | fetches relay hact hbefore hlistening hbroadcast =>
      refine (hstays hbefore hlistening hbroadcast).trans (iff_self_and.mpr fun _ => ⟨fun h => ?_, fun h => ?_⟩)
      · cases h.1.symm.trans hbefore
      · cases hact.symm.trans h.1
  | absorbs relay fetched hact hbefore hlistening hbroadcast =>
      rw [reaches_absorb hsound hbefore hlistening hbroadcast hlive]
      refine and_congr_right fun _ => ⟨fun h => ⟨fun hstarts => ?_, fun hovertakes => h ?_⟩, fun h hpasses => h.2 ?_⟩
      · cases hstarts.1.symm.trans hbefore
      · obtain ⟨-, relay', fetched', hbefore', hpasses⟩ := hovertakes
        cases hbefore.symm.trans hbefore'
        exact hpasses
      · exact ⟨hact, relay, fetched, hbefore, hpasses⟩
  | drops relay fetched failure hact hbefore hlistening hbroadcast =>
      refine (hstays hbefore hlistening hbroadcast).trans (iff_self_and.mpr fun _ => ⟨fun h => ?_, fun h => ?_⟩)
      · cases h.1.symm.trans hbefore
      · cases hact.symm.trans h.1

end Lost

/-- Of the rows that are in the table in the end, exactly those are not broadcast, and never will be, whose id the
listener started past or its cursor passed while no poll had read them. -/
theorem lost_iff {clock : NaiveDateTime} {nextId : Int} {table : List WorldEvent} (hboot : Bootable nextId table)
    (acts : List Action) {row : WorldEvent} (hrow : row ∈ ((Backplane.boot clock nextId table).run acts).table) :
    ((Backplane.boot clock nextId table).run acts).Reaches (rowId row) ↔
      Run.Meets Backplane.step (fun s a => ¬s.StartsPast a (rowId row) ∧ ¬s.Overtakes a (rowId row))
        (Backplane.boot clock nextId table) acts := by
  refine Run.meets_iff_of_steps (P := fun s : Backplane => s.Reaches (rowId row)) ?_ fun before a hbefore => ?_
  · exact Or.inr fun listening hmem => by cases hmem
  · obtain ⟨after, rfl⟩ := hbefore
    refine reaches_step (hboot.sound.run before) a fun hid => ?_
    have hrun : (Backplane.boot clock nextId table).run (before ++ [a] ++ after) =
        ((Backplane.boot clock nextId table).run before).run ([a] ++ after) := by
      rw [Backplane.run, List.append_assoc, Run.run_append]
    rw [hrun] at hrow
    exact live_run _ _ (Backplane.mem_live.mpr (Or.inl hrow)) hid

/-- Two seconds and a half after it took its id, the row of the first transaction is lost. -/
theorem lost_overtaking :
    ¬Run.Meets Backplane.step (fun s a => ¬s.StartsPast a 1 ∧ ¬s.Overtakes a 1) (Backplane.boot 0 1 [])
      (overtaking 2500000000) := by
  have hrow : { id := 1, worldId := 0, eventCode := 0, tokenEvent := none, createdAt := 0 } ∈
      ((Backplane.boot 0 1 []).run (overtaking 2500000000)).table := List.mem_cons_of_mem _ (List.mem_singleton_self _)
  intro hmeets
  rcases (lost_iff (bootable_nil 1) (overtaking 2500000000) hrow).mpr hmeets with hbroadcast | hahead
  · exact absurd hbroadcast (by decide)
  · exact absurd (hahead _ rfl) (by decide)

end ThunderForge.Delivery
