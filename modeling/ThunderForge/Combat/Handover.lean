import ThunderForge.Combat.Tables

/-! Handing the turn on: `advance_turn` and the removal of the combatant whose turn it is. -/

namespace ThunderForge.Combat

/-- `budget::start_turn` -/
def Platform.startTurn (p : Platform) (caller : Caller) (combatantId : Uuid) (error : String → String) : Call Unit := do
  .write (p.failure .createBudget error) fun s => s.createBudget combatantId caller.userId (p.now .createBudget)
  .write (p.failure .startTurn error) fun s => s.updateBudget combatantId fun row =>
    { row with spent := row.spent.startOfTurn, updatedBy := caller.userId, updatedAt := p.now .startTurn }

/-- The combatants of a combat, in turn order. -/
def Platform.loadOrder (p : Platform) (combatId : Uuid) : Call (List Combatant) := do
  let rows ← .read (p.failure .loadOrder fun e => "Failed to load combatants: " ++ e) fun s =>
    .ok (s.combatantsOf combatId)
  return sortCombatants rows

/-- `remove_combatant_impl` -/
def removeCombatant (p : Platform) (caller : Caller) (combatantId : Uuid) : Call GraphQLCombat := do
  let combat ← p.changeable caller combatantId
  if combat.activeCombatantId = some combatantId then
    -- The turn is handed on before the row goes, and what `next_turn` says of a wrap is not read.
    let ordered ← p.loadOrder combat.id
    let successor := ((nextTurnIndex ordered (some combatantId)).bind fun (idx, _) =>
      ordered[idx]?.map Combatant.id).filter fun id => id ≠ combatantId
    .write (p.failure .handOff fun e => "Failed to hand off turn: " ++ e) fun s =>
      s.updateCombat combat.id fun row => { row with activeCombatantId := successor }
    .whenSome successor fun successor => p.startTurn caller successor fun e => "Failed to hand off turn: " ++ e
  .write (p.failure .delete fun e => "Failed to remove combatant: " ++ e) fun s => s.deleteCombatant combatantId
  p.touchAndBroadcast caller combat.id combat.worldId
  let combat ← p.combatWorld .reload combat.id
  p.loadCombat caller combat

/-- `advance_turn_impl` -/
def advanceTurn (p : Platform) (caller : Caller) (combatId : Uuid) : Call GraphQLCombat := do
  p.connect .lookupConnection
  let combat ← p.combatWorld .findCombat combatId
  let isDm ← p.isDmOfWorld caller combat.worldId
  .require (isDm = true) (.message "Only the GM may advance the turn")
  .require (combat.endedAt = none) (.message "This combat has already ended")
  p.connect .connection
  p.refuseIfPaused combat.worldId
  let ordered ← p.loadOrder combatId
  match (nextTurnIndex ordered combat.activeCombatantId).bind fun (idx, wrapped) =>
      ordered[idx]?.map fun row => (row.id, wrapped) with
  | none => .fail (.message "No active combatants to advance to")
  | some (next, wrapped) =>
    .write (p.failure .handOff fun e => "Failed to advance turn: " ++ e) fun s =>
      s.updateCombat combatId fun row =>
        { row with activeCombatantId := some next
                   round := if wrapped then combat.round + 1 else combat.round }
    p.startTurn caller next fun e => "Failed to advance turn: " ++ e
    p.touchAndBroadcast caller combatId combat.worldId
    let combat ← p.combatWorld .reload combatId
    p.loadCombat caller combat

/-! What the statements do when the database fails none of them. -/

/-- The caller runs the world, its play is not paused, and every statement is answered. -/
structure Permits (p : Platform) (caller : Caller) (worldId : Uuid) : Prop where
  works : ∀ statement, p.fault statement = none
  runs : caller.isAdmin = true ∨ p.runsTheWorld caller.userId caller.isAdmin worldId = true
  unpaused : p.activePauseAt worldId = none

section permitted

variable {p : Platform} {caller : Caller} {worldId : Uuid} (h : Permits p caller worldId)

include h

theorem failure_eq_none (statement : Statement) (error : String → String) : p.failure statement error = none := by
  unfold Platform.failure
  rw [h.works, Option.map_none]

theorem connect_run (statement : Statement) (s : Tables) : p.connect statement s = (.ok (), s) := by
  unfold Platform.connect
  rw [failure_eq_none h]
  rfl

theorem combatWorld_run {s : Tables} {combatId : Uuid} {combat : CombatRow} (hcombat : s.combat? combatId = some combat)
    (statement : Statement) : p.combatWorld statement combatId s = (.ok combat, s) := by
  unfold Platform.combatWorld
  rw [failure_eq_none h, Autocommit.read_run, hcombat, Option.elim_some]

theorem combatOf_run {s : Tables} {row : Combatant} {combat : CombatRow} (hrow : s.combatant? row.id = some row)
    (hcombat : s.combat? row.combatId = some combat) : p.combatOf row.id s = (.ok combat, s) := by
  have hread : (.read none fun s => (s.combatant? row.id).elim (.error (.message "Combatant not found")) fun row =>
      .ok row.combatId : Call Uuid) s = (.ok row.combatId, s) := by
    rw [Autocommit.read_run, hrow, Option.elim_some]
  unfold Platform.combatOf
  rw [failure_eq_none h, Autocommit.bind_of_ok hread, combatWorld_run h hcombat]

theorem isDmOfWorld_run (s : Tables) : p.isDmOfWorld caller worldId s = (.ok true, s) := by
  unfold Platform.isDmOfWorld
  split_ifs with hadmin
  · rfl
  · rw [failure_eq_none h, Autocommit.read_run, h.runs.resolve_left hadmin]

theorem refuseIfPaused_run (s : Tables) : p.refuseIfPaused worldId s = (.ok (), s) := by
  unfold Platform.refuseIfPaused
  rw [failure_eq_none h, Autocommit.read_run, h.unpaused, Option.elim_none]

theorem loadOrder_run (s : Tables) (combatId : Uuid) :
    p.loadOrder combatId s = (.ok (sortCombatants (s.combatantsOf combatId)), s) := by
  unfold Platform.loadOrder
  rw [failure_eq_none h]
  rfl

theorem changeable_run {s : Tables} {combat : CombatRow} {row : Combatant} (hworld : combat.worldId = worldId)
    (hrow : s.combatant? row.id = some row) (hcombat : s.combat? row.combatId = some combat) :
    p.changeable caller row.id s = (.ok combat, s) := by
  subst hworld
  unfold Platform.changeable
  rw [Autocommit.bind_of_ok (connect_run h _ s), Autocommit.bind_of_ok (combatOf_run h hrow hcombat),
    Autocommit.bind_of_ok (isDmOfWorld_run h s), Autocommit.bind_of_ok (Autocommit.require_run rfl s),
    Autocommit.bind_of_ok (connect_run h _ s), Autocommit.bind_of_ok (refuseIfPaused_run h s), Autocommit.pure_run]

end permitted

/-! What is found in the tables after each of them. -/

namespace Tables

variable (s : Tables)

/-- A turn that starts, for a budget that is there or not. -/
def startTurn (p : Platform) (caller : Caller) (id : Uuid) : Tables :=
  (s.createBudget id caller.userId (p.now .createBudget)).updateBudget id fun row =>
    { row with spent := row.spent.startOfTurn, updatedBy := caller.userId, updatedAt := p.now .startTurn }

/-- A combat that is said to have changed. -/
def touch (p : Platform) (caller : Caller) (combatId worldId : Uuid) : Tables :=
  let touched := s.updateCombat combatId fun row => { row with updatedAt := p.now .touch }
  { touched with events := touched.events ++ [⟨worldId, combatId, caller.userId⟩] }

theorem budget?_updateBudget {id : Uuid} {change : BudgetRow → BudgetRow}
    (hid : ∀ row, (change row).combatantId = row.combatantId) :
    (s.updateBudget id change).budget? id = (s.budget? id).map change :=
  find?_update hid s.budgets id

theorem combat?_deleteCombatant (id combatantId : Uuid) : (s.deleteCombatant combatantId).combat? id =
    (s.combat? id).map fun row =>
      if row.activeCombatantId = some combatantId then { row with activeCombatantId := none } else row := by
  unfold combat? deleteCombatant
  rw [List.find?_map]
  congr 2
  funext row
  rw [Function.comp_apply]
  split_ifs <;> rfl

@[simp] theorem combat?_startTurn (p : Platform) (caller : Caller) (id combatId : Uuid) :
    (s.startTurn p caller id).combat? combatId = s.combat? combatId := by
  unfold startTurn createBudget
  split_ifs <;> rfl

theorem combat?_touch (p : Platform) (caller : Caller) (combatId worldId : Uuid) :
    (s.touch p caller combatId worldId).combat? combatId =
      (s.combat? combatId).map fun row => { row with updatedAt := p.now .touch } :=
  combat?_updateCombat s fun _ => rfl

@[simp] theorem combatants_startTurn (p : Platform) (caller : Caller) (id : Uuid) :
    (s.startTurn p caller id).combatants = s.combatants := by
  unfold startTurn createBudget
  split_ifs <;> rfl

@[simp] theorem combatants_touch (p : Platform) (caller : Caller) (combatId worldId : Uuid) :
    (s.touch p caller combatId worldId).combatants = s.combatants := rfl

@[simp] theorem combatants_updateCombat (id : Uuid) (change : CombatRow → CombatRow) :
    (s.updateCombat id change).combatants = s.combatants := rfl

@[simp] theorem budget?_touch (p : Platform) (caller : Caller) (combatId worldId id : Uuid) :
    (s.touch p caller combatId worldId).budget? id = s.budget? id := rfl

@[simp] theorem budget?_updateCombat (id budgetId : Uuid) (change : CombatRow → CombatRow) :
    (s.updateCombat id change).budget? budgetId = s.budget? budgetId := rfl

theorem budget?_deleteCombatant {id combatantId : Uuid} (hne : id ≠ combatantId) :
    (s.deleteCombatant combatantId).budget? id = s.budget? id := by
  unfold budget? deleteCombatant
  rw [List.find?_filter]
  congr 1
  funext row
  by_cases hid : row.combatantId = id
  · simp [hid, hne]
  · simp [hid]

/-- A turn starts with what was spent had again, whatever that was and whoever starts it. -/
theorem budget?_startTurn (p : Platform) (caller : Caller) (id : Uuid) :
    ((s.startTurn p caller id).budget? id).map BudgetRow.spent =
      some (((s.budget? id).elim .fresh BudgetRow.spent).startOfTurn) := by
  have hcreated : ((s.createBudget id caller.userId (p.now .createBudget)).budget? id).map BudgetRow.spent =
      some ((s.budget? id).elim .fresh BudgetRow.spent) := by
    unfold createBudget budget?
    split_ifs with hany
    · obtain ⟨row, hfind⟩ := Option.isSome_iff_exists.mp (List.find?_isSome.mpr (List.any_eq_true.mp hany))
      rw [hfind, Option.map_some, Option.elim_some]
    · have hnone : (s.budgets.find? fun row => row.combatantId = id) = none := by
        simpa using hany
      rw [List.find?_append, hnone]
      simp
  unfold startTurn
  rw [budget?_updateBudget _ (by simp), Option.map_map]
  obtain ⟨row, hrow, hspent⟩ := Option.map_eq_some_iff.mp hcreated
  rw [hrow, Option.map_some, ← hspent]
  rfl

end Tables

/-! The two ways on from a combatant whose turn it is. -/

section permitted

variable {p : Platform} {caller : Caller} {worldId : Uuid} (h : Permits p caller worldId)

include h

theorem startTurn_run (s : Tables) (id : Uuid) (error : String → String) :
    p.startTurn caller id error s = (.ok (), s.startTurn p caller id) := by
  unfold Platform.startTurn
  rw [failure_eq_none h, failure_eq_none h]
  rfl

theorem touchAndBroadcast_run (s : Tables) (combatId worldId : Uuid) :
    p.touchAndBroadcast caller combatId worldId s = (.ok (), s.touch p caller combatId worldId) := by
  unfold Platform.touchAndBroadcast
  rw [failure_eq_none h, failure_eq_none h]
  rfl

/-- What a change ends with. -/
theorem report_run (s : Tables) (combatId worldId : Uuid) :
    ((do
      p.touchAndBroadcast caller combatId worldId
      let combat ← p.combatWorld .reload combatId
      p.loadCombat caller combat) s).2 = s.touch p caller combatId worldId := by
  rw [Autocommit.bind_of_ok (touchAndBroadcast_run h s combatId worldId)]
  exact (p.combatWorld_readOnly .reload combatId).bind (fun combat => p.loadCombat_readOnly caller combat) _

end permitted

/-- Who takes the turn from a holder, and whether the turn passes the end of the order. -/
def successor (s : Tables) (combatId : Uuid) (holder : Option Uuid) : Option (Uuid × Bool) :=
  let ordered := sortCombatants (s.combatantsOf combatId)
  (nextTurnIndex ordered holder).bind fun (idx, wrapped) => ordered[idx]?.map fun row => (row.id, wrapped)

/-- A running combat in which a combatant is acting and another is active. -/
structure Acting (s : Tables) (combat : CombatRow) (x : Combatant) : Prop where
  /-- The table's primary key. -/
  ids : (s.combatants.map Combatant.id).Nodup
  found : s.combat? combat.id = some combat
  foundActing : s.combatant? x.id = some x
  member : x.combatId = combat.id
  running : combat.endedAt = none
  acting : combat.activeCombatantId = some x.id
  other : ∃ y ∈ s.combatants, y.combatId = combat.id ∧ y.active = true ∧ y.id ≠ x.id

section acting

variable {p : Platform} {caller : Caller} {s : Tables} {combat : CombatRow} {x : Combatant} {next : Uuid} {wrapped : Bool}

theorem advanceTurn_run (h : Permits p caller combat.worldId) (hacting : Acting s combat x)
    (hnext : successor s combat.id (some x.id) = some (next, wrapped)) :
    (advanceTurn p caller combat.id s).2 =
      ((s.updateCombat combat.id fun row =>
        { row with activeCombatantId := some next
                   round := if wrapped then combat.round + 1 else combat.round }).startTurn p caller next).touch
        p caller combat.id combat.worldId := by
  unfold advanceTurn
  rw [Autocommit.bind_of_ok (connect_run h _ s), Autocommit.bind_of_ok (combatWorld_run h hacting.found _),
    Autocommit.bind_of_ok (isDmOfWorld_run h s), Autocommit.bind_of_ok (Autocommit.require_run rfl s),
    Autocommit.bind_of_ok (Autocommit.require_run hacting.running s), Autocommit.bind_of_ok (connect_run h _ s),
    Autocommit.bind_of_ok (refuseIfPaused_run h s), Autocommit.bind_of_ok (loadOrder_run h s combat.id), hacting.acting]
  unfold successor at hnext
  dsimp only at hnext ⊢
  rw [hnext]
  dsimp only
  rw [failure_eq_none h, Autocommit.bind_of_ok (Autocommit.write_run _ s), Autocommit.bind_of_ok (startTurn_run h _ _ _),
    report_run h]

/-- Removing a combatant whose turn it is not. -/
theorem removeCombatant_run (h : Permits p caller combat.worldId) (hcombat : s.combat? combat.id = some combat)
    (hx : s.combatant? x.id = some x) (hmember : x.combatId = combat.id) (hne : combat.activeCombatantId ≠ some x.id) :
    (removeCombatant p caller x.id s).2 = (s.deleteCombatant x.id).touch p caller combat.id combat.worldId := by
  unfold removeCombatant
  rw [Autocommit.bind_of_ok (changeable_run h rfl hx (hmember ▸ hcombat)), if_neg hne, failure_eq_none h]
  exact report_run h _ _ _

theorem removeCombatant_acting_run (h : Permits p caller combat.worldId) (hacting : Acting s combat x)
    (hnext : successor s combat.id (some x.id) = some (next, wrapped)) (hne : next ≠ x.id) :
    (removeCombatant p caller x.id s).2 =
      (((s.updateCombat combat.id fun row => { row with activeCombatantId := some next }).startTurn p caller
        next).deleteCombatant x.id).touch p caller combat.id combat.worldId := by
  unfold removeCombatant
  rw [Autocommit.bind_of_ok (changeable_run h rfl hacting.foundActing (hacting.member ▸ hacting.found)),
    if_pos hacting.acting,
    Autocommit.bind_of_ok (loadOrder_run h s combat.id)]
  have hhandedOn : (((nextTurnIndex (sortCombatants (s.combatantsOf combat.id)) (some x.id)).bind fun (idx, _) =>
      (sortCombatants (s.combatantsOf combat.id))[idx]?.map Combatant.id).filter fun id => decide (id ≠ x.id)) =
        some next := by
    unfold successor at hnext
    obtain ⟨⟨idx, wrapped⟩, hindex, hrow⟩ := Option.bind_eq_some_iff.mp hnext
    obtain ⟨row, hat, hpair⟩ := Option.map_eq_some_iff.mp hrow
    obtain ⟨rfl, rfl⟩ := Prod.mk.inj hpair
    rw [hindex, Option.bind_some]
    dsimp only
    rw [hat, Option.map_some, Option.filter_some, if_pos (by simpa using hne)]
  dsimp only
  rw [hhandedOn, failure_eq_none h, failure_eq_none h, Autocommit.bind_of_ok (Autocommit.write_run _ s),
    Autocommit.whenSome_some, Autocommit.bind_of_ok (startTurn_run h _ _ _),
    Autocommit.bind_of_ok (Autocommit.write_run _ _), report_run h]

/-- Another combatant takes the turn, and it passes the end of the order when nobody active comes later. -/
theorem Acting.exists_successor (hacting : Acting s combat x) : ∃ next wrapped,
    successor s combat.id (some x.id) = some (next, wrapped) ∧ next ≠ x.id ∧
      (wrapped = false ↔
        ∃ y ∈ s.combatants, y.combatId = combat.id ∧ y.active = true ∧ turnOrder x.seat y.seat = .lt) := by
  set ordered := sortCombatants (s.combatantsOf combat.id) with hordered
  have hmem {row : Combatant} : row ∈ ordered ↔ row ∈ s.combatants ∧ row.combatId = combat.id := by
    rw [hordered, sortCombatants, SortBy.mem_sortBy, Tables.combatantsOf, List.mem_filter, decide_eq_true_iff]
  have hids : (ordered.map Combatant.id).Nodup := by
    have hfiltered : ((s.combatantsOf combat.id).map Combatant.id).Nodup :=
      hacting.ids.sublist (List.filter_sublist.map _)
    exact ((SortBy.sortBy_perm _ _).map Combatant.id).nodup_iff.mpr hfiltered
  have hseats : ((ordered.map Combatant.seat).map Seat.id).Nodup := by rwa [List.map_map]
  have hsorted : (ordered.map Combatant.seat).Pairwise fun a b => a.place < b.place := by
    rw [List.pairwise_map]
    refine SortBy.pairwise_lt_sortBy (fun row : Combatant => row.seat.place) ?_
    have hfiltered : ((s.combatantsOf combat.id).map Combatant.id).Nodup :=
      hacting.ids.sublist (List.filter_sublist.map _)
    have hplaces : (s.combatantsOf combat.id).map Combatant.id =
        ((s.combatantsOf combat.id).map fun row => row.seat.place).map fun place => (ofLex (ofLex place).2).2 := by
      rw [List.map_map]
      rfl
    rw [hplaces] at hfiltered
    exact hfiltered.of_map _
  have hx : x ∈ ordered :=
    hmem.mpr ⟨List.mem_of_find?_eq_some hacting.foundActing, hacting.member⟩
  obtain ⟨index, hindex, hatx⟩ := exists_index hseats (List.mem_map_of_mem hx)
  have hat {y : Combatant} (hy : y ∈ s.combatants) (hcombat : y.combatId = combat.id) :
      ∃ j : ℕ, (ordered.map Combatant.seat)[j]? = some y.seat :=
    List.mem_iff_getElem?.mp (List.mem_map_of_mem (hmem.mpr ⟨hy, hcombat⟩))
  obtain ⟨other, hother, hothercombat, hotheractive, hothers⟩ := hacting.other
  cases hnext : nextTurn (ordered.map Combatant.seat) (some x.id) with
  | none =>
      have hinactive := nextTurn_eq_none_iff.mp hnext other.seat (List.mem_map_of_mem (hmem.mpr ⟨hother, hothercombat⟩))
      exact absurd (hotheractive.symm.trans hinactive) (by decide)
  | some found =>
      obtain ⟨idx, wrapped⟩ := found
      obtain ⟨⟨seat, htaker, hactive⟩, hcases⟩ := nextTurn_past_spec hindex hnext
      obtain ⟨taker, hrow, rfl⟩ : ∃ row, ordered[idx]? = some row ∧ row.seat = seat := by
        rwa [List.getElem?_map, Option.map_eq_some_iff] at htaker
      obtain ⟨htakermem, htakercombat⟩ := hmem.mp (List.mem_of_getElem? hrow)
      refine ⟨taker.id, wrapped, ?_, ?_, ?_⟩
      · unfold successor nextTurnIndex
        dsimp only
        rw [← hordered, hnext, Option.bind_some]
        dsimp only
        rw [hrow, Option.map_some]
      · -- The taker is at another place of the ring than the combatant it follows.
        rintro hsame
        obtain rfl : taker = x := List.inj_on_of_nodup_map hids (List.mem_of_getElem? hrow) hx hsame
        have hidx := place_lt_place_iff hsorted hatx htaker
        rcases hcases with ⟨-, hlater, -⟩ | ⟨-, hround⟩
        · exact lt_irrefl _ (hidx.mpr hlater)
        · obtain ⟨j, hj⟩ := hat hother hothercombat
          obtain ⟨hle, hge⟩ := hround j other.seat hj hotheractive
          have hjplace := (place_le_place_iff hsorted hj hatx).mpr hle
          have hplace := (place_le_place_iff hsorted htaker hj).mpr hge
          have hsameplace : other.seat.place = taker.seat.place := le_antisymm hjplace hplace
          exact hothers (congrArg (fun place => (ofLex (ofLex place).2).2) hsameplace)
      · constructor
        · rintro rfl
          rcases hcases with ⟨-, hlater, -⟩ | ⟨hfalse, -⟩
          · exact ⟨taker, htakermem, htakercombat, hactive,
              (turnOrder_eq_lt _ _).mpr ((place_lt_place_iff hsorted hatx htaker).mpr hlater)⟩
          · exact absurd hfalse (by decide)
        · rintro ⟨y, hy, hycombat, hyactive, hylater⟩
          rcases hcases with ⟨hfalse, -, -⟩ | ⟨-, hround⟩
          · exact hfalse
          · obtain ⟨j, hj⟩ := hat hy hycombat
            have hlt := (place_lt_place_iff hsorted hatx hj).mp ((turnOrder_eq_lt _ _).mp hylater)
            exact absurd (hround j y.seat hj hyactive).1 (not_le.mpr hlt)

end acting

/-- What two ways of going on leave alike: the order, who is acting, what they have of their turn, and the round. -/
structure Agree (combatId : Uuid) (s s' : Tables) : Prop where
  order : sortCombatants (s.combatantsOf combatId) = sortCombatants (s'.combatantsOf combatId)
  acting : (s.combat? combatId).map CombatRow.activeCombatantId = (s'.combat? combatId).map CombatRow.activeCombatantId
  budget : ∀ combat ∈ s.combat? combatId, ∀ id ∈ combat.activeCombatantId,
    (s.budget? id).map BudgetRow.spent = (s'.budget? id).map BudgetRow.spent
  round : (s.combat? combatId).map CombatRow.round = (s'.combat? combatId).map CombatRow.round

section agree

variable {direct first second : Platform} {caller : Caller} {s : Tables} {combat : CombatRow} {x : Combatant}

/-- Removing the combatant whose turn it is is advancing past it and removing it then, but for the round when the turn
passes the end of the order. -/
theorem removeCombatant_agrees_iff (hdirect : Permits direct caller combat.worldId) (hfirst : Permits first caller combat.worldId)
    (hsecond : Permits second caller combat.worldId) (hacting : Acting s combat x) :
    Agree combat.id (removeCombatant direct caller x.id s).2
        (removeCombatant second caller x.id (advanceTurn first caller combat.id s).2).2 ↔
      ∃ y ∈ s.combatants, y.combatId = combat.id ∧ y.active = true ∧ turnOrder x.seat y.seat = .lt := by
  obtain ⟨next, wrapped, hnext, hne, hwrapped⟩ := hacting.exists_successor
  rw [← hwrapped, removeCombatant_acting_run hdirect hacting hnext hne, advanceTurn_run hfirst hacting hnext]
  set advanced := ((s.updateCombat combat.id fun row =>
    { row with activeCombatantId := some next
               round := if wrapped then combat.round + 1 else combat.round }).startTurn first caller next).touch
      first caller combat.id combat.worldId with hadvanced
  set handed := (s.updateCombat combat.id fun row => { row with activeCombatantId := some next }).startTurn direct caller
    next with hhanded
  have hhandedcombat : handed.combat? combat.id = some { combat with activeCombatantId := some next } := by
    rw [hhanded, Tables.combat?_startTurn, Tables.combat?_updateCombat _ (by simp), hacting.found, Option.map_some]
  have hadvancedcombat : advanced.combat? combat.id = some { combat with
      activeCombatantId := some next
      round := if wrapped then combat.round + 1 else combat.round
      updatedAt := first.now .touch } := by
    rw [hadvanced, Tables.combat?_touch, Tables.combat?_startTurn, Tables.combat?_updateCombat _ (by simp),
      hacting.found, Option.map_some, Option.map_some]
  have hadvancedx : advanced.combatant? x.id = some x := by
    rw [hadvanced, Tables.combatant?, Tables.combatants_touch, Tables.combatants_startTurn, Tables.combatants_updateCombat]
    exact hacting.foundActing
  set combat' : CombatRow := { combat with
    activeCombatantId := some next
    round := if wrapped then combat.round + 1 else combat.round
    updatedAt := first.now .touch } with hcombat'
  have hnot : some next ≠ some x.id := fun h => hne (Option.some_inj.mp h)
  rw [@removeCombatant_run second caller advanced combat' x hsecond hadvancedcombat hadvancedx hacting.member hnot]
  -- What is found in each, field by field.
  have hleft : (((handed.deleteCombatant x.id).touch direct caller combat.id combat.worldId).combat? combat.id) =
      some { combat with activeCombatantId := some next, updatedAt := direct.now .touch } := by
    rw [Tables.combat?_touch, Tables.combat?_deleteCombatant, hhandedcombat, Option.map_some, Option.map_some, if_neg hnot]
  have hright : (((advanced.deleteCombatant x.id).touch second caller combat'.id combat'.worldId).combat? combat.id) =
      some { combat' with updatedAt := second.now .touch } := by
    change (((advanced.deleteCombatant x.id).touch second caller combat.id combat'.worldId).combat? combat.id) = _
    rw [Tables.combat?_touch, Tables.combat?_deleteCombatant, hadvancedcombat, Option.map_some, Option.map_some, if_neg hnot]
  have hcombatants : handed.combatants = advanced.combatants := by
    rw [hhanded, hadvanced, Tables.combatants_touch, Tables.combatants_startTurn, Tables.combatants_startTurn]
    rfl
  constructor
  · intro hagree
    have hround := hagree.round
    rw [hleft, hright, Option.map_some, Option.map_some, Option.some_inj] at hround
    cases wrapped with
    | false => rfl
    | true =>
        change combat.round = combat.round + 1 at hround
        omega
  · rintro rfl
    refine ⟨?_, ?_, ?_, ?_⟩
    · simp only [Tables.combatantsOf, Tables.combatants_touch, Tables.deleteCombatant, hcombatants]
    · rw [hleft, hright]
      rfl
    · intro row hrow id hid
      rw [hleft, Option.mem_some_iff] at hrow
      subst hrow
      obtain rfl : next = id := by simpa using hid
      rw [Tables.budget?_touch, Tables.budget?_touch, Tables.budget?_deleteCombatant _ hne,
        Tables.budget?_deleteCombatant _ hne, hhanded, hadvanced, Tables.budget?_touch, Tables.budget?_startTurn,
        Tables.budget?_startTurn, Tables.budget?_updateCombat, Tables.budget?_updateCombat]
    · rw [hleft, hright]
      rfl

end agree

/-! A fight of two, in which the last of the order is removed during its turn. -/

theorem plain_permits (worldId : Uuid) : Permits plainPlatform gameMaster worldId := ⟨fun _ => rfl, .inr rfl, rfl⟩

theorem duel_acting_last : Acting (duel 3) (duelRow 3) (combatantRow 3 10) :=
  ⟨by decide, rfl, rfl, rfl, rfl, rfl, combatantRow 2 20, by decide, rfl, rfl, by decide⟩

theorem duel_acting_first : Acting (duel 2) (duelRow 2) (combatantRow 2 20) :=
  ⟨by decide, rfl, rfl, rfl, rfl, rfl, combatantRow 3 10, by decide, rfl, rfl, by decide⟩

theorem removeCombatant_first_agrees :
    Agree 1 (removeCombatant plainPlatform gameMaster 2 (duel 2)).2
      (removeCombatant plainPlatform gameMaster 2 (advanceTurn plainPlatform gameMaster 1 (duel 2)).2).2 :=
  (removeCombatant_agrees_iff (plain_permits 5) (plain_permits 5) (plain_permits 5) duel_acting_first).mpr
    ⟨combatantRow 3 10, by decide, rfl, rfl, by decide⟩

/-- The round goes on when the last of the order is passed, and not when it is removed. -/
theorem removed_last_keeps_round :
    Permits plainPlatform gameMaster (duelRow 3).worldId ∧ Acting (duel 3) (duelRow 3) (combatantRow 3 10) ∧
      ¬Agree 1 (removeCombatant plainPlatform gameMaster 3 (duel 3)).2
        (removeCombatant plainPlatform gameMaster 3 (advanceTurn plainPlatform gameMaster 1 (duel 3)).2).2 := by
  refine ⟨plain_permits _, duel_acting_last, fun hagree => ?_⟩
  have hround := hagree.round
  revert hround
  decide +kernel

end ThunderForge.Combat
