import ThunderForge.Basic
import ThunderForge.Lib.ReadCommitted

/-! The operations of a Genie session, statement by statement. What they read of the rest of the world
and never write is a parameter. -/

namespace ThunderForge.Genie

open ReadCommitted

inductive SessionStatus where
  | active
  | won
  | lost
  deriving DecidableEq

structure GenieSession where
  worldId : Uuid
  wishesRemaining : Int
  doomClockCurrent : Int
  doomClockMax : Int
  status : SessionStatus
  deriving DecidableEq

structure GeniePuzzleClock where
  sessionId : Uuid
  segmentsCurrent : Int
  segmentsMax : Int
  resolvedAt : Option Nat
  deriving DecidableEq

inductive ProposalStatus where
  | pending
  | accepted
  | rejected
  | expired
  deriving DecidableEq

/-- A trade proposal, with what the table checks of it. -/
structure GenieTradeProposal where
  sessionId : Uuid
  fromActorId : Uuid
  fromResourceType : String
  fromQuantity : Int
  toActorId : Uuid
  toResourceType : String
  toQuantity : Int
  status : ProposalStatus
  createdBy : Uuid
  fromPositive : 0 < fromQuantity
  toPositive : 0 < toQuantity
  distinct : fromActorId ≠ toActorId

inductive ShopPriceKind where
  | resource
  | item
  deriving DecidableEq

structure GenieShopListing where
  actorId : Uuid
  itemId : Uuid
  priceKind : ShopPriceKind
  priceResourceType : Option String
  priceResourceAmount : Option Int
  priceItemId : Option Uuid
  priceItemQuantity : Option Int

structure GenieResourceHolding where
  sessionId : Uuid
  actorId : Uuid
  resourceType : String
  quantity : Int

/-- The rows the operations write or lock. -/
inductive Key where
  | session (id : Uuid)
  | clock (id : Uuid)
  | holding (sessionId actorId : Uuid) (resourceType : String)
  | proposal (id : Uuid)
  | listing (id : Uuid)
  | stock (actorId itemId : Uuid)
  deriving DecidableEq

/-- What stands under a key: a row, when there is one. A holding without a row is nothing held. -/
abbrev Key.Row : Key → Type
  | .session _ => Option GenieSession
  | .clock _ => Option GeniePuzzleClock
  | .holding _ _ _ => Int
  | .proposal _ => Option GenieTradeProposal
  | .listing _ => Option GenieShopListing
  | .stock _ _ => Option Int

abbrev Database := Rows Key.Row

/-- What the operations read of the rest of the world: who controls and who runs what, which worlds are
paused, and the sessions and clocks there are, in the order the database returns them. -/
structure World where
  controlsActor : Uuid → Bool → Uuid → Option Bool
  isDmOfWorld : Uuid → Bool → Uuid → Bool
  paused : Uuid → Bool
  actorWorldId : Uuid → Option Uuid
  itemExists : Uuid → Bool
  sessionIds : List Uuid
  clockIds : List Uuid

/-- What statements rely on: that a value they replace is the one read before, that the proposal, the
outcome of the session stand as they did, that a sum fits its type. -/
inductive Reliance where
  | holdingAsRead
  | proposalOpen
  | wishesAsRead
  | clockAsRead
  | outcomeOpen
  | sumFits
  deriving DecidableEq

/-- What a call that succeeds answers. A spend and a purchase also name the session they were paid in. -/
inductive Answer where
  | trade (holdings : List GenieResourceHolding)
  | declined (proposal : GenieTradeProposal)
  | clock (clock : GeniePuzzleClock)
  | spend (clock : GeniePuzzleClock) (sessionId : Uuid)
  | purchase (listing : GenieShopListing) (sessionId : Option Uuid)
  | holding (holding : GenieResourceHolding)
  | session (session : GenieSession)

abbrev Program (α : Type) := Call Key.Row Reliance String α

/-- Who calls. -/
structure Caller where
  userId : Uuid
  isAdmin : Bool

/-- `i32` addition in a release build. -/
def addI32 (a b : Int) : Int := (a + b).bmod (2 ^ 32)

def fitsI32 (a : Int) : Bool := -2147483648 ≤ a && a < 2147483648

/-- `Ord::clamp`. -/
def clamp (value low high : Int) : Int := if value < low then low else if high < value then high else value

variable (world : World)

def refuseWorldIfPaused (worldId : Uuid) : Program Unit :=
  Call.require (world.paused worldId = false) "Play in this world has been paused by an operator."

def callerControlsActor (caller : Caller) (actorId : Uuid) : Program Bool :=
  Call.getOr (world.controlsActor caller.userId caller.isAdmin actorId) "Actor not found"

def requireCallerControlsActor (caller : Caller) (actorId : Uuid) : Program Unit := do
  let controls ← callerControlsActor world caller actorId
  Call.require controls "You do not control this actor"

def actorWorldId (actorId : Uuid) : Program Uuid := Call.getOr (world.actorWorldId actorId) "Actor not found"

def loadSessionRow (sessionId : Uuid) : Program GenieSession := do
  let row ← Call.read fun db : Database => db (.session sessionId)
  Call.getOr row "Genie session not found"

def loadPuzzleClockRow (clockId : Uuid) : Program GeniePuzzleClock := do
  let row ← Call.read fun db : Database => db (.clock clockId)
  Call.getOr row "Puzzle Clock not found"

def puzzleClocksForSession (sessionId : Uuid) (db : Database) : List GeniePuzzleClock :=
  (world.clockIds.filterMap fun id => db (.clock id)).filter (·.sessionId = sessionId)

def allPuzzleClocksResolved (clocks : List GeniePuzzleClock) : Bool :=
  !clocks.isEmpty && clocks.all (·.resolvedAt.isSome)

def loadHoldingQuantity (sessionId actorId : Uuid) (resourceType : String) : Program Int :=
  Call.read fun db : Database => db (.holding sessionId actorId resourceType)

/-- The upsert of a holding, computed from the quantity read before. -/
def setHoldingQuantity (sessionId actorId : Uuid) (resourceType : String) (asRead newQuantity : Int) :
    Program GenieResourceHolding := do
  let quantity ← Call.update (ρ := Key.Row)
    (fun kind db => kind != .holdingAsRead || db (.holding sessionId actorId resourceType) == asRead)
    (.holding sessionId actorId resourceType) fun _ => newQuantity
  pure { sessionId, actorId, resourceType, quantity }

/-- The proposal both `acceptResourceTrade` and `declineResourceTrade` begin from. -/
def loadProposal (proposalId : Uuid) : Program (GenieTradeProposal × GenieSession) := do
  let row ← Call.read fun db : Database =>
    (db (.proposal proposalId)).bind fun proposal => (db (.session proposal.sessionId)).map (proposal, ·)
  Call.getOr row "Trade proposal not found"

def acceptResourceTrade (caller : Caller) (proposalId : Uuid) : Program Answer := do
  let (proposal, session) ← loadProposal proposalId
  Call.require (proposal.status = .pending) "This trade proposal is no longer pending"
  let controlsFrom ← callerControlsActor world caller proposal.fromActorId
  let controlsTo ← callerControlsActor world caller proposal.toActorId
  Call.require (controlsFrom || controlsTo) "You are not a party to this trade"
  refuseWorldIfPaused world session.worldId
  Call.require (proposal.createdBy ≠ caller.userId) "You cannot accept your own trade proposal"
  let fromCurrent ← loadHoldingQuantity proposal.sessionId proposal.fromActorId proposal.fromResourceType
  Call.require (proposal.fromQuantity ≤ fromCurrent)
    "The proposing party no longer holds enough to complete this trade"
  let toCurrent ← loadHoldingQuantity proposal.sessionId proposal.toActorId proposal.toResourceType
  Call.require (proposal.toQuantity ≤ toCurrent)
    "The counterpart no longer holds enough to complete this trade"
  let fromAfter ← setHoldingQuantity proposal.sessionId proposal.fromActorId proposal.fromResourceType
    fromCurrent (fromCurrent - proposal.fromQuantity)
  let fromGainsBase ← loadHoldingQuantity proposal.sessionId proposal.fromActorId proposal.toResourceType
  let fromGains ← setHoldingQuantity proposal.sessionId proposal.fromActorId proposal.toResourceType
    fromGainsBase (fromGainsBase + proposal.toQuantity)
  let toAfter ← setHoldingQuantity proposal.sessionId proposal.toActorId proposal.toResourceType
    toCurrent (toCurrent - proposal.toQuantity)
  let toGainsBase ← loadHoldingQuantity proposal.sessionId proposal.toActorId proposal.fromResourceType
  let toGains ← setHoldingQuantity proposal.sessionId proposal.toActorId proposal.fromResourceType
    toGainsBase (toGainsBase + proposal.fromQuantity)
  let _ ← Call.update (ρ := Key.Row)
    (fun kind db => kind != .proposalOpen || (db (.proposal proposalId)).any (·.status = .pending))
    (.proposal proposalId) fun row => row.map ({ · with status := .accepted })
  pure (.trade [fromAfter, fromGains, toAfter, toGains])

def declineResourceTrade (caller : Caller) (proposalId : Uuid) : Program Answer := do
  let (proposal, session) ← loadProposal proposalId
  Call.require (proposal.status = .pending) "This trade proposal is no longer pending"
  let controlsFrom ← callerControlsActor world caller proposal.fromActorId
  let controlsTo ← callerControlsActor world caller proposal.toActorId
  Call.require (controlsFrom || controlsTo) "You are not a party to this trade"
  refuseWorldIfPaused world session.worldId
  Call.require (proposal.createdBy ≠ caller.userId) "You cannot decline your own trade proposal"
  let updated ← Call.update (ρ := Key.Row)
    (fun kind db => kind != .proposalOpen || (db (.proposal proposalId)).any (·.status ≠ .accepted))
    (.proposal proposalId) fun row => row.map ({ · with status := .rejected })
  let updated ← Call.getOr updated "Failed to decline trade: Record not found"
  pure (.declined updated)

/-- The part `advancePuzzleClock` and `spendResourceOnPuzzleClock` share: write the clock and, when that
resolves the last one, the win. -/
def writePuzzleClock (now : Nat) (clockId : Uuid) (clock : GeniePuzzleClock) (delta : Int) (notFound : String) :
    Program GeniePuzzleClock := do
  let newSegments := clamp (addI32 clock.segmentsCurrent delta) 0 clock.segmentsMax
  let resolvesNow := clock.segmentsMax ≤ newSegments
  let updatedClock ← Call.update (ρ := Key.Row)
    (fun kind db => match kind with
      | .clockAsRead => (db (.clock clockId)).any (·.segmentsCurrent = clock.segmentsCurrent)
      | .sumFits => fitsI32 (clock.segmentsCurrent + delta)
      | _ => true)
    (.clock clockId) fun row => row.map
      ({ · with segmentsCurrent := newSegments, resolvedAt := if resolvesNow then some now else none })
  let updatedClock ← Call.getOr updatedClock notFound
  if resolvesNow then
    let allClocks ← Call.read (puzzleClocksForSession world clock.sessionId)
    if allPuzzleClocksResolved allClocks then
      let _ ← Call.update (ρ := Key.Row)
        (fun kind db => kind != .outcomeOpen || (db (.session clock.sessionId)).any (·.status ≠ .lost))
        (.session clock.sessionId) fun row => row.map ({ · with status := .won })
      pure updatedClock
    else pure updatedClock
  else pure updatedClock

def spendResourceOnPuzzleClock (caller : Caller) (now : Nat) (clockId actorId : Uuid) (resourceType : String)
    (quantity : Int) : Program Answer := do
  Call.require (0 < quantity) "quantity must be greater than zero"
  requireCallerControlsActor world caller actorId
  let clock ← loadPuzzleClockRow clockId
  let session ← loadSessionRow clock.sessionId
  refuseWorldIfPaused world session.worldId
  Call.require (session.status = .active) "This Genie session has already concluded"
  Call.require clock.resolvedAt.isNone "This Puzzle Clock has already resolved"
  let currentQty ← loadHoldingQuantity clock.sessionId actorId resourceType
  Call.require (quantity ≤ currentQty) "You do not hold enough of this resource"
  let _ ← setHoldingQuantity clock.sessionId actorId resourceType currentQty (currentQty - quantity)
  let updatedClock ← writePuzzleClock world now clockId clock quantity "Database error: Record not found"
  pure (.spend updatedClock clock.sessionId)

def advancePuzzleClock (caller : Caller) (now : Nat) (clockId : Uuid) (delta : Int) : Program Answer := do
  let clock ← loadPuzzleClockRow clockId
  let session ← loadSessionRow clock.sessionId
  Call.require (world.isDmOfWorld caller.userId caller.isAdmin session.worldId)
    "Only the GM may advance a Puzzle Clock"
  refuseWorldIfPaused world session.worldId
  Call.require (session.status = .active) "This Genie session has already concluded"
  Call.require clock.resolvedAt.isNone "This Puzzle Clock has already resolved"
  let updatedClock ← writePuzzleClock world now clockId clock delta
    "Failed to advance Puzzle Clock: Record not found"
  pure (.clock updatedClock)

def spendWish (caller : Caller) (sessionId : Uuid) (narrativeEffect : String) : Program Answer := do
  let session ← loadSessionRow sessionId
  Call.require (world.isDmOfWorld caller.userId caller.isAdmin session.worldId) "Only the GM may spend a wish"
  refuseWorldIfPaused world session.worldId
  Call.require (0 < session.wishesRemaining) "No wishes remaining in the Session Wish Pool"
  Call.require (trim narrativeEffect ≠ "") "narrativeEffect must not be empty (FR-014)"
  let updated ← Call.update (ρ := Key.Row)
    (fun kind db => kind != .wishesAsRead ||
      (db (.session sessionId)).any (·.wishesRemaining = session.wishesRemaining))
    (.session sessionId) fun row => row.map ({ · with wishesRemaining := session.wishesRemaining - 1 })
  let updated ← Call.getOr updated "Failed to spend wish: Record not found"
  pure (.session updated)

def advanceDoomClock (caller : Caller) (sessionId : Uuid) (delta : Int) : Program Answer := do
  let session ← loadSessionRow sessionId
  Call.require (world.isDmOfWorld caller.userId caller.isAdmin session.worldId)
    "Only the GM may advance the Doom Clock"
  refuseWorldIfPaused world session.worldId
  Call.require (session.status = .active) "This Genie session has already concluded"
  let newCurrent := clamp (addI32 session.doomClockCurrent delta) 0 session.doomClockMax
  let justLost := session.doomClockMax ≤ newCurrent
  let updated ← Call.update (ρ := Key.Row)
    (fun kind db => match kind with
      | .clockAsRead => (db (.session sessionId)).any (·.doomClockCurrent = session.doomClockCurrent)
      | .outcomeOpen => (db (.session sessionId)).any (·.status = .active)
      | .sumFits => fitsI32 (session.doomClockCurrent + delta)
      | _ => true)
    (.session sessionId) fun row => row.map
      ({ · with doomClockCurrent := newCurrent, status := if justLost then .lost else .active })
  let updated ← Call.getOr updated "Failed to advance Doom Clock: Record not found"
  pure (.session updated)

def grantSessionResource (caller : Caller) (sessionId actorId : Uuid) (resourceType : String) (amount : Int) :
    Program Answer := do
  Call.require (0 < amount) "amount must be greater than zero"
  let session ← loadSessionRow sessionId
  Call.require (world.isDmOfWorld caller.userId caller.isAdmin session.worldId)
    "Only the GM may grant Session Resources"
  refuseWorldIfPaused world session.worldId
  Call.require (session.status = .active)
    "Start a session first — there is no active Genie session for this world"
  let current ← loadHoldingQuantity sessionId actorId resourceType
  let updated ← setHoldingQuantity sessionId actorId resourceType current (current + amount)
  pure (.holding updated)

/-- `grant_item_to_actor_in_tx`: an upsert that adds to what is there. -/
def grantItemToActor (actorId itemId : Uuid) (quantity : Int) : Program Unit := do
  Call.require (world.itemExists itemId) "Database error: Record not found"
  let _ ← Call.update (ρ := Key.Row) (fun _ _ => true) (.stock actorId itemId)
    fun row => some (row.getD 0 + quantity)
  pure ()

/-- The first session of a world that the database returns as active. -/
def activeSession (worldId : Uuid) (db : Database) : Option Uuid :=
  world.sessionIds.find? fun id => (db (.session id)).any fun session =>
    session.worldId = worldId && session.status = .active

/-- The session a resource price is drawn from: the active one of the seller's world. -/
def sessionForPrice (listing : GenieShopListing) : Program (Option Uuid) := do
  match listing.priceKind with
  | .resource =>
    let worldId ← actorWorldId world listing.actorId
    let row ← Call.read (activeSession world worldId)
    let sessionId ← Call.getOr row "There is no active Genie session for this world"
    pure (some sessionId)
  | .item => pure none

/-- Pay a listing's price, in the session found for it or with an item. -/
def payPrice (buyerActorId : Uuid) (listing : GenieShopListing) (sessionId : Option Uuid) : Program Unit := do
  match listing.priceKind, sessionId with
  | .resource, some sessionId =>
    let resourceType := listing.priceResourceType.getD ""
    let amount := listing.priceResourceAmount.getD 0
    let current ← loadHoldingQuantity sessionId buyerActorId resourceType
    Call.require (amount ≤ current) "You do not have enough of this resource to afford this purchase"
    let _ ← setHoldingQuantity sessionId buyerActorId resourceType current (current - amount)
    pure ()
  | .resource, none => Call.fail "resource-priced listing always resolves a session_id above"
  | .item, _ =>
    let requiredItemId ← Call.getOr listing.priceItemId "item-priced listing always has price_item_id"
    let requiredQty := listing.priceItemQuantity.getD 0
    let heldQty ← Call.read fun db : Database => (db (.stock buyerActorId requiredItemId)).getD 0
    Call.require (requiredQty ≤ heldQty) "You do not hold the required item(s) to afford this purchase"
    let _ ← Call.update (ρ := Key.Row) (fun _ _ => true) (.stock buyerActorId requiredItemId)
      fun row => row.map (· - requiredQty)
    grantItemToActor world listing.actorId requiredItemId requiredQty

def purchaseFromShop (caller : Caller) (listingId buyerActorId : Uuid) : Program Answer := do
  requireCallerControlsActor world caller buyerActorId
  let buyerWorldId ← actorWorldId world buyerActorId
  refuseWorldIfPaused world buyerWorldId
  let row ← Call.read fun db : Database => db (.listing listingId)
  let listing ← Call.getOr row "Shop listing not found"
  let sessionId ← sessionForPrice world listing
  let sellerWorldId ← actorWorldId world listing.actorId
  refuseWorldIfPaused world sellerWorldId
  let decremented ← Call.updateWhere (ρ := Key.Row) (.stock listing.actorId listing.itemId)
    (fun row => row.any (0 < ·)) fun row => row.map (· - 1)
  Call.require decremented "This item is out of stock"
  payPrice world buyerActorId listing sessionId
  grantItemToActor world buyerActorId listing.itemId 1
  pure (.purchase listing sessionId)

end ThunderForge.Genie
