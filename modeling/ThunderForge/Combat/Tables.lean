import ThunderForge.Basic
import ThunderForge.Combat.Order
import ThunderForge.Lib.Autocommit

/-! The rows of a combat, and what every change to one begins and ends with
(`thunderforge-server/src/graphql/mutations_combat.rs`). No change runs in a transaction. Of what a change answers, the
turn budgets as the tracker shows them are left out. -/

namespace ThunderForge.Combat

/-- Ids are ordered as their bytes are. -/
instance : LinearOrder Uuid := LinearOrder.lift' BitVec.toNat fun _ _ => BitVec.eq_of_toNat_eq

/-- A time, in microseconds. -/
abbrev Time := ℤ

structure CombatRow where
  id : Uuid
  worldId : Uuid
  sceneId : Option Uuid
  /-- 1-based, incremented when the turn passes the end of the order. -/
  round : ℤ
  activeCombatantId : Option Uuid
  endedAt : Option Time
  createdBy : Uuid
  createdAt : Time
  updatedAt : Time
  autoApply : Option Bool
  deriving DecidableEq

structure Combatant where
  id : Uuid
  combatId : Uuid
  actorId : Option Uuid
  tokenId : Option Uuid
  label : String
  initiative : ℤ
  tiebreak : ℤ
  isNpc : Bool
  active : Bool
  createdAt : Time
  updatedAt : Time
  downedBy : Option String
  kind : String
  deriving DecidableEq

/-- A combatant row, as turn order reads it. -/
def Combatant.seat (row : Combatant) : Seat Uuid where
  id := row.id
  initiative := row.initiative
  tiebreak := row.tiebreak
  active := row.active

/-- What a combatant has spent of its turn. -/
structure Spent where
  actionSpent : ℤ
  bonusActionSpent : ℤ
  reactionSpent : ℤ
  movementSpent : F64
  legendaryPerRound : Option ℤ
  legendaryRemaining : Option ℤ
  deriving DecidableEq

structure BudgetRow where
  combatantId : Uuid
  spent : Spent
  createdBy : Uuid
  updatedBy : Uuid
  updatedAt : Time
  deriving DecidableEq

/-- The columns' defaults: nothing spent, and no legendary actions. -/
def Spent.fresh : Spent := ⟨0, 0, 0, 0, none, none⟩

/-- What is had again at the start of a turn. -/
def Spent.startOfTurn (spent : Spent) : Spent :=
  { actionSpent := 0, bonusActionSpent := 0, reactionSpent := 0, movementSpent := 0,
    legendaryPerRound := spent.legendaryPerRound, legendaryRemaining := spent.legendaryPerRound }

/-- A recorded `EVENT_CODE_COMBAT_CHANGED`. -/
structure CombatChanged where
  worldId : Uuid
  combatId : Uuid
  userId : Uuid
  deriving DecidableEq

structure Tables where
  combats : List CombatRow
  combatants : List Combatant
  budgets : List BudgetRow
  events : List CombatChanged
  deriving DecidableEq

/-- What can fail, in the order it is come to. -/
inductive Statement where
  | lookupConnection
  | findCombatant
  | findCombat
  | authorize
  | connection
  | readPause
  | initiative
  | tiebreak
  | active
  | label
  | loadOrder
  | handOff
  | createBudget
  | startTurn
  | delete
  | touch
  | event
  | reload
  | loadCombatants
  | loadBudgets
  | loadTokenNames
  deriving DecidableEq

/-- What a call finds around it: which statements the database fails and with what text, what the clock says at each,
and what the other tables hold. -/
structure Platform where
  fault : Statement → Option String
  now : Statement → Time
  /-- When the world's active pause began, if it has one. -/
  activePauseAt : Uuid → Option Time
  /-- `actor_in_world(user, is_admin, world).runs_the_world()` -/
  runsTheWorld : Uuid → Bool → Uuid → Bool
  /-- Whether a player may read a token's name. -/
  readableTokenName : Uuid → Bool

structure Caller where
  userId : Uuid
  isAdmin : Bool

inductive CallError where
  | message (text : String)
  | playPaused (worldId : Uuid) (pausedAt : Time)
  deriving DecidableEq

namespace Tables

variable (s : Tables)

def combat? (id : Uuid) : Option CombatRow := s.combats.find? fun row => row.id = id

def combatant? (id : Uuid) : Option Combatant := s.combatants.find? fun row => row.id = id

def budget? (id : Uuid) : Option BudgetRow := s.budgets.find? fun row => row.combatantId = id

def combatantsOf (combatId : Uuid) : List Combatant := s.combatants.filter fun row => row.combatId = combatId

def updateCombat (id : Uuid) (change : CombatRow → CombatRow) : Tables :=
  { s with combats := s.combats.map fun row => if row.id = id then change row else row }

def updateCombatant (id : Uuid) (change : Combatant → Combatant) : Tables :=
  { s with combatants := s.combatants.map fun row => if row.id = id then change row else row }

def updateBudget (id : Uuid) (change : BudgetRow → BudgetRow) : Tables :=
  { s with budgets := s.budgets.map fun row => if row.combatantId = id then change row else row }

/-- A budget's row, unless it is there. -/
def createBudget (id userId : Uuid) (now : Time) : Tables :=
  if s.budgets.any fun row => row.combatantId = id then s
  else { s with budgets := s.budgets ++ [⟨id, .fresh, userId, userId, now⟩] }

/-- Deleting a combatant deletes its budget, and a combat it was acting in has nobody acting. -/
def deleteCombatant (id : Uuid) : Tables :=
  { s with
    combatants := s.combatants.filter fun row => row.id ≠ id
    budgets := s.budgets.filter fun row => row.combatantId ≠ id
    combats := s.combats.map fun row =>
      if row.activeCombatantId = some id then { row with activeCombatantId := none } else row }

/-! Rows found again. -/

/-- A row that is changed under its key is found as it was changed. -/
theorem find?_update {α κ : Type} [DecidableEq κ] {key : α → κ} {change : α → α} (hkey : ∀ row, key (change row) = key row)
    (rows : List α) (id : κ) :
    (rows.map fun row => if key row = id then change row else row).find? (fun row => key row = id) =
      (rows.find? fun row => key row = id).map change := by
  rw [List.find?_map]
  have hsame : ((fun row => decide (key row = id)) ∘ fun row => if key row = id then change row else row) =
      fun row => decide (key row = id) := by
    funext row
    rw [Function.comp_apply]
    split_ifs <;> simp [*]
  rw [hsame]
  cases hfind : rows.find? fun row => key row = id with
  | none => rfl
  | some row =>
      have hrow : key row = id := by simpa using List.find?_some hfind
      rw [Option.map_some, Option.map_some, if_pos hrow]

theorem combat?_updateCombat {id : Uuid} {change : CombatRow → CombatRow} (hid : ∀ row, (change row).id = row.id) :
    (s.updateCombat id change).combat? id = (s.combat? id).map change :=
  find?_update hid s.combats id

end Tables

abbrev Call := Autocommit Tables CallError

/-- The single definition of turn order, on rows. -/
def sortCombatants (rows : List Combatant) : List Combatant := SortBy.sortBy (fun row => row.seat.place) rows

def nextTurnIndex (ordered : List Combatant) (activeId : Option Uuid) : Option (ℕ × Bool) :=
  nextTurn (ordered.map Combatant.seat) activeId

namespace Platform

variable (p : Platform)

/-- The error a statement fails with, when the database fails it. -/
def failure (statement : Statement) (error : String → String) : Option CallError :=
  (p.fault statement).map fun text => .message (error text)

/-- A connection from the pool. -/
def connect (statement : Statement) : Call Unit :=
  .write (p.failure statement fun _ => "Failed to get DB connection") id

/-- `combat_world` -/
def combatWorld (statement : Statement) (combatId : Uuid) : Call CombatRow :=
  .read (p.failure statement fun _ => "Combat not found") fun s =>
    (s.combat? combatId).elim (.error (.message "Combat not found")) .ok

/-- The combat a combatant is in. -/
def combatOf (combatantId : Uuid) : Call CombatRow := do
  let combatId ← .read (p.failure .findCombatant fun _ => "Combatant not found") fun s =>
    (s.combatant? combatantId).elim (.error (.message "Combatant not found")) fun row => .ok row.combatId
  p.combatWorld .findCombat combatId

/-- `is_dm_of_world` -/
def isDmOfWorld (caller : Caller) (worldId : Uuid) : Call Bool :=
  if caller.isAdmin then .done true
  else .read (p.failure .authorize fun _ => "Failed to get DB connection") fun _ =>
    .ok (p.runsTheWorld caller.userId caller.isAdmin worldId)

/-- `refuse_if_paused` -/
def refuseIfPaused (worldId : Uuid) : Call Unit :=
  .read (p.failure .readPause fun _ => "Could not confirm this world is open for play. Try again shortly.") fun _ =>
    (p.activePauseAt worldId).elim (.ok ()) fun pausedAt => .error (.playPaused worldId pausedAt)

/-- What a change to a combatant begins with: the combat it is in, for a caller who may change it. -/
def changeable (caller : Caller) (combatantId : Uuid) : Call CombatRow := do
  p.connect .lookupConnection
  let combat ← p.combatOf combatantId
  let isDm ← p.isDmOfWorld caller combat.worldId
  .require (isDm = true) (.message "Only the GM may change combat")
  p.connect .connection
  p.refuseIfPaused combat.worldId
  return combat

/-- `touch_and_broadcast` -/
def touchAndBroadcast (caller : Caller) (combatId worldId : Uuid) : Call Unit := do
  .write (p.failure .touch fun e => "Failed to touch combat: " ++ e) fun s =>
    s.updateCombat combatId fun row => { row with updatedAt := p.now .touch }
  .attempt (p.failure .event id) fun s => { s with events := s.events ++ [⟨worldId, combatId, caller.userId⟩] }

end Platform

/-- A combat as somebody may see it: the combatants in turn order, and those whose token's name is not to be read under
another one. -/
structure GraphQLCombat where
  combat : CombatRow
  combatants : List Combatant

def unknownCombatant : String := "Unknown"

/-- `load_combat` -/
def Platform.loadCombat (p : Platform) (caller : Caller) (combat : CombatRow) : Call GraphQLCombat := do
  let rows ← .read (p.failure .loadCombatants fun e => "Failed to load combatants: " ++ e) fun s =>
    .ok (s.combatantsOf combat.id)
  let combatants := sortCombatants rows
  let _ ← .read (p.failure .loadBudgets fun e => "Failed to load budgets: " ++ e) fun _ => .ok ()
  if p.runsTheWorld caller.userId caller.isAdmin combat.worldId then return { combat, combatants }
  else
    let _ ← .read (p.failure .loadTokenNames fun e => "Failed to load token names: " ++ e) fun _ => .ok ()
    return { combat, combatants := combatants.map fun row =>
      if row.tokenId.any fun id => !p.readableTokenName id then { row with label := unknownCombatant } else row }

theorem Platform.combatWorld_readOnly (p : Platform) (statement : Statement) (combatId : Uuid) :
    (p.combatWorld statement combatId).ReadOnly := .read _ _

theorem Platform.loadCombat_readOnly (p : Platform) (caller : Caller) (combat : CombatRow) :
    (p.loadCombat caller combat).ReadOnly := by
  refine .bind (.read _ _) fun rows => .bind (.read _ _) fun _ => ?_
  split_ifs
  · exact .done _
  · exact .bind (.read _ _) fun _ => .done _

/-! A fight of two, for a caller that nothing fails for. -/

def plainPlatform : Platform where
  fault _ := none
  now _ := 0
  activePauseAt _ := none
  runsTheWorld _ _ _ := true
  readableTokenName _ := true

def gameMaster : Caller := { userId := 7, isAdmin := false }

def combatantRow (id : Uuid) (initiative : ℤ) : Combatant where
  id := id
  combatId := 1
  actorId := none
  tokenId := none
  label := "Goblin"
  initiative := initiative
  tiebreak := 0
  isNpc := true
  active := true
  createdAt := 0
  updatedAt := 0
  downedBy := none
  kind := "creature"

/-- The combat, with the acting combatant. -/
def duelRow (acting : Uuid) : CombatRow where
  id := 1
  worldId := 5
  sceneId := none
  round := 1
  activeCombatantId := some acting
  endedAt := none
  createdBy := 7
  createdAt := 0
  updatedAt := 0
  autoApply := none

def duel (acting : Uuid) : Tables where
  combats := [duelRow acting]
  combatants := [combatantRow 2 20, combatantRow 3 10]
  budgets := []
  events := []

end ThunderForge.Combat
