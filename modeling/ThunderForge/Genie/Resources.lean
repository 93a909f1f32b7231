import Mathlib.Algebra.BigOperators.Group.Finset.Piecewise
import Mathlib.Algebra.Ring.Int.Defs
import Mathlib.Data.FinEnum
import ThunderForge.Genie.Session

/-! Trades, spends, purchases and grants at the same time. A holding is read, checked and replaced by an
absolute value, so the totals are kept in the runs in which a holding is as it was read when it is
replaced, and a proposal is resolved once in those in which it is open when it is resolved. -/

namespace ThunderForge.Genie

open ReadCommitted

/-- What all actors of a session hold of a resource. -/
def total (db : Database) (sessionId : Uuid) (resourceType : String) : Int :=
  ∑ actorId : Uuid, db (.holding sessionId actorId resourceType)

/-- The operations on holdings and proposals. -/
inductive ResourceOperation where
  | acceptResourceTrade (caller : Caller) (proposalId : Uuid)
  | declineResourceTrade (caller : Caller) (proposalId : Uuid)
  | spendResourceOnPuzzleClock (caller : Caller) (now : Nat) (clockId actorId : Uuid) (resourceType : String)
      (quantity : Int)
  | purchaseFromShop (caller : Caller) (listingId buyerActorId : Uuid)
  | grantSessionResource (caller : Caller) (sessionId actorId : Uuid) (resourceType : String) (amount : Int)

def ResourceOperation.program (world : World) : ResourceOperation → Program Answer
  | acceptResourceTrade caller proposalId => Genie.acceptResourceTrade world caller proposalId
  | declineResourceTrade caller proposalId => Genie.declineResourceTrade world caller proposalId
  | spendResourceOnPuzzleClock caller now clockId actorId resourceType quantity =>
    Genie.spendResourceOnPuzzleClock world caller now clockId actorId resourceType quantity
  | purchaseFromShop caller listingId buyerActorId => Genie.purchaseFromShop world caller listingId buyerActorId
  | grantSessionResource caller sessionId actorId resourceType amount =>
    Genie.grantSessionResource world caller sessionId actorId resourceType amount

/-- An amount of one resource of one session, by session and resource. -/
def amountOf (sessionId : Uuid) (resourceType : String) (amount : Int) (sessionId' : Uuid)
    (resourceType' : String) : Int :=
  if sessionId' = sessionId ∧ resourceType' = resourceType then amount else 0

/-- What a successful grant gave. -/
def ResourceOperation.gave : ResourceOperation → Uuid → String → Int
  | grantSessionResource _ sessionId _ resourceType amount => amountOf sessionId resourceType amount
  | _ => 0

/-- A listing's price, in the session it is paid in. -/
def priceIn (listing : GenieShopListing) : Option Uuid → Uuid → String → Int
  | some sessionId =>
    amountOf sessionId (listing.priceResourceType.getD "") (listing.priceResourceAmount.getD 0)
  | none => 0

/-- What a successful spend or purchase charged. -/
def ResourceOperation.charged : ResourceOperation → Answer → Uuid → String → Int
  | spendResourceOnPuzzleClock _ _ _ _ resourceType quantity, .spend _ sessionId =>
    amountOf sessionId resourceType quantity
  | purchaseFromShop _ _ _, .purchase listing sessionId => priceIn listing sessionId
  | _, _ => 0

/-- The proposal an operation resolves, and what it makes of it. -/
def ResourceOperation.resolution : ResourceOperation → Option (Uuid × ProposalStatus)
  | acceptResourceTrade _ proposalId => some (proposalId, .accepted)
  | declineResourceTrade _ proposalId => some (proposalId, .rejected)
  | _ => none

def proposalStatus (db : Database) (proposalId : Uuid) : Option ProposalStatus :=
  (db (.proposal proposalId)).map (·.status)

/-- Every holding is a quantity there can be. -/
def Solvent (db : Database) : Prop := ∀ sessionId actorId resourceType,
  0 ≤ db (.holding sessionId actorId resourceType)

/-- What a call has done by its commit. -/
structure Settled (operation : ResourceOperation) (writes : Writes Key.Row) (db : Database) (answer : Answer) :
    Prop where
  total : ∀ sessionId resourceType, total (overlay writes db) sessionId resourceType =
    total db sessionId resourceType + operation.gave sessionId resourceType -
      operation.charged answer sessionId resourceType
  solvent : Solvent (overlay writes db)
  resolved : ∀ proposalId status, operation.resolution = some (proposalId, status) →
    proposalStatus (overlay writes db) proposalId = some status ∧
      proposalStatus db proposalId ≠ some .accepted ∧
      (status = .accepted → proposalStatus db proposalId = some .pending)
  others : ∀ proposalId, (∀ status, operation.resolution ≠ some (proposalId, status)) →
    proposalStatus (overlay writes db) proposalId = proposalStatus db proposalId

section

variable {n : Nat} (operations : Fin n → ResourceOperation)

/-- Holdings stay quantities, and every call settles what it is to settle. -/
def resourceDiscipline : Discipline n Key.Row Answer where
  valid := Solvent
  rely _ _ _ := True
  post i := Settled (operations i)
  refl _ _ := trivial
  trans _ _ := trivial
  keeps _ hpost := hpost.solvent
  guarantees _ _ _ := trivial

/-- The kinds of reliance the totals and the proposals rest on. -/
def resourceReliance : List Reliance := [.holdingAsRead, .proposalOpen]

/-- The totals are changed by so much in what a call has written. -/
structure Balance (writes : Writes Key.Row) (db : Database) (change : Uuid → String → Int) : Prop where
  total : ∀ sessionId resourceType, total (overlay writes db) sessionId resourceType =
    total db sessionId resourceType + change sessionId resourceType
  solvent : Solvent (overlay writes db)

/-- The totals are changed by so much, and no proposal is. -/
structure Underway (writes : Writes Key.Row) (db : Database) (change : Uuid → String → Int) : Prop
    extends Balance writes db change where
  proposals : ∀ proposalId, writes (.proposal proposalId) = none

variable {operations} {writes : Writes Key.Row} {db db' : Database} {change : Uuid → String → Int}

theorem Underway.start (h : Solvent db) : Underway (fun _ => none) db 0 where
  total _ _ := (Int.add_zero _).symm
  solvent := h
  proposals _ := rfl

/-- What others commit meanwhile changes both sides of the balance alike. -/
theorem Balance.later (h : Balance writes db change) (hlater : (resourceDiscipline operations).Later writes db db') :
    Balance writes db' change where
  total sessionId resourceType := by
    have hdifference (actorId : Uuid) : overlay writes db' (.holding sessionId actorId resourceType) -
          db' (.holding sessionId actorId resourceType) =
        overlay writes db (.holding sessionId actorId resourceType) -
          db (.holding sessionId actorId resourceType) := by
      by_cases hheld : (writes (.holding sessionId actorId resourceType)).isSome
      · rw [overlay_of_isSome db' db hheld, hlater.held _ hheld]
      · have hnone := Option.not_isSome_iff_eq_none.mp hheld
        rw [overlay_of_none hnone, overlay_of_none hnone]
        exact (sub_self _).trans (sub_self _).symm
    have hsum := Finset.sum_congr (rfl : (Finset.univ : Finset Uuid) = Finset.univ) fun actorId _ =>
      hdifference actorId
    rw [Finset.sum_sub_distrib, Finset.sum_sub_distrib] at hsum
    have hold := h.total sessionId resourceType
    unfold Genie.total at hold ⊢
    omega
  solvent sessionId actorId resourceType := by
    by_cases hheld : (writes (.holding sessionId actorId resourceType)).isSome
    · rw [overlay_of_isSome db' db hheld]
      exact h.solvent sessionId actorId resourceType
    · rw [overlay_of_none (Option.not_isSome_iff_eq_none.mp hheld)]
      exact hlater.valid sessionId actorId resourceType

theorem Underway.later (h : Underway writes db change)
    (hlater : (resourceDiscipline operations).Later writes db db') : Underway writes db' change where
  toBalance := h.toBalance.later hlater
  proposals := h.proposals

theorem update_holding (view : Database) (sessionId actorId : Uuid) (resourceType : String) (quantity : Int)
    (sessionId' actorId' : Uuid) (resourceType' : String) :
    Function.update view (.holding sessionId actorId resourceType) quantity
        (.holding sessionId' actorId' resourceType') =
      if sessionId' = sessionId ∧ actorId' = actorId ∧ resourceType' = resourceType then quantity
      else view (.holding sessionId' actorId' resourceType') := by
  split_ifs with hsame
  · obtain ⟨rfl, rfl, rfl⟩ := hsame
    exact Function.update_self ..
  · refine Function.update_of_ne ?_ _ _
    intro heq
    exact hsame (Key.holding.inj heq)

/-- One holding replaced: its total changes by the difference. -/
theorem total_update (view : Database) (sessionId actorId : Uuid) (resourceType : String) (quantity : Int)
    (sessionId' : Uuid) (resourceType' : String) :
    total (Function.update view (.holding sessionId actorId resourceType) quantity) sessionId' resourceType' =
      total view sessionId' resourceType' + amountOf sessionId resourceType
        (quantity - view (.holding sessionId actorId resourceType)) sessionId' resourceType' := by
  unfold total amountOf
  simp only [update_holding]
  split_ifs with hsame
  · obtain ⟨rfl, rfl⟩ := hsame
    simp only [true_and, and_true]
    have hnew : (fun other => if other = actorId then quantity else view (.holding sessionId' other resourceType')) =
        Function.update (fun other => view (.holding sessionId' other resourceType')) actorId quantity := by
      funext other
      rw [Function.update_apply]
    have hold := Finset.sum_eq_add_sum_sdiff_singleton_of_mem (Finset.mem_univ actorId)
      fun other => view (.holding sessionId' other resourceType')
    rw [hnew, Finset.sum_update_of_mem (Finset.mem_univ actorId), hold]
    omega
  · rw [Int.add_zero]
    refine Finset.sum_congr rfl fun other _ => if_neg ?_
    rintro ⟨rfl, -, rfl⟩
    exact hsame ⟨rfl, rfl⟩

theorem Underway.set (h : Underway writes db change) {sessionId actorId : Uuid} {resourceType : String}
    {quantity : Int} (hquantity : 0 ≤ quantity) :
    Underway (Function.update writes (.holding sessionId actorId resourceType) (some quantity)) db
      (change + amountOf sessionId resourceType
        (quantity - overlay writes db (.holding sessionId actorId resourceType))) where
  total sessionId' resourceType' := by
    rw [overlay_update, total_update, h.total]
    exact Int.add_assoc _ _ _
  solvent sessionId' actorId' resourceType' := by
    rw [overlay_update, update_holding]
    split_ifs
    · exact hquantity
    · exact h.solvent sessionId' actorId' resourceType'
  proposals proposalId := by
    rw [Function.update_of_ne (by simp)]
    exact h.proposals proposalId

/-- A row written that is not a holding. -/
theorem Balance.other (h : Balance writes db change) {key : Key} {row : Key.Row key}
    (hkey : ∀ sessionId actorId resourceType, Key.holding sessionId actorId resourceType ≠ key) :
    Balance (Function.update writes key (some row)) db change where
  total sessionId resourceType := by
    rw [← h.total]
    refine Finset.sum_congr rfl fun actorId _ => ?_
    rw [overlay_update, Function.update_of_ne (hkey sessionId actorId resourceType)]
  solvent sessionId actorId resourceType := by
    rw [overlay_update, Function.update_of_ne (hkey sessionId actorId resourceType)]
    exact h.solvent sessionId actorId resourceType

theorem Underway.other (h : Underway writes db change) {key : Key} {row : Key.Row key}
    (hholding : ∀ sessionId actorId resourceType, Key.holding sessionId actorId resourceType ≠ key)
    (hproposal : ∀ proposalId, Key.proposal proposalId ≠ key) :
    Underway (Function.update writes key (some row)) db change where
  toBalance := h.toBalance.other hholding
  proposals proposalId := by
    rw [Function.update_of_ne (hproposal proposalId)]
    exact h.proposals proposalId

/-- A call that resolves no proposal commits. -/
theorem Underway.settled {operation : ResourceOperation} {answer : Answer}
    (hresolution : operation.resolution = none) (hchange : ∀ sessionId resourceType,
      change sessionId resourceType =
        operation.gave sessionId resourceType - operation.charged answer sessionId resourceType)
    (h : Underway writes db change) : Settled operation writes db answer where
  total sessionId resourceType := by
    rw [h.total, hchange]
    omega
  solvent := h.solvent
  resolved proposalId status hresolved := by simp [hresolution] at hresolved
  others proposalId _ := by
    unfold proposalStatus
    rw [overlay_of_none (h.proposals proposalId)]

/-- A call that leaves the totals as they are resolves a proposal and commits. -/
theorem Underway.resolve {operation : ResourceOperation} {proposalId : Uuid} {status : ProposalStatus}
    {answer : Answer} {row : Option GenieTradeProposal}
    (hresolution : operation.resolution = some (proposalId, status))
    (hchange : ∀ sessionId resourceType, change sessionId resourceType =
      operation.gave sessionId resourceType - operation.charged answer sessionId resourceType)
    (h : Underway writes db change) (hrow : row.map (·.status) = some status)
    (hopen : proposalStatus db proposalId ≠ some .accepted)
    (hpending : status = .accepted → proposalStatus db proposalId = some .pending)
    (hlater : (resourceDiscipline operations).Later
      (Function.update writes (.proposal proposalId) (some row)) db db') :
    Settled operation (Function.update writes (.proposal proposalId) (some row)) db' answer := by
  have hbalance : Balance (Function.update writes (.proposal proposalId) (some row)) db' change :=
    (h.toBalance.other (by simp)).later hlater
  have hsame : proposalStatus db' proposalId = proposalStatus db proposalId := by
    unfold proposalStatus
    rw [hlater.held (.proposal proposalId) (by simp)]
  refine ⟨fun sessionId resourceType => ?_, hbalance.solvent, fun proposalId' status' hresolved => ?_,
    fun proposalId' hother => ?_⟩
  · rw [hbalance.total, hchange]
    omega
  · obtain ⟨rfl, rfl⟩ := Prod.mk.inj (Option.some.inj (hresolution.symm.trans hresolved))
    rw [hsame]
    refine ⟨?_, hopen, hpending⟩
    rw [proposalStatus, overlay_update, Function.update_self, hrow]
  · have hne : Key.proposal proposalId' ≠ .proposal proposalId := by
      rintro heq
      rw [Key.proposal.inj heq] at hother
      exact hother status hresolution
    rw [proposalStatus, overlay_update, Function.update_of_ne hne, overlay_of_none (h.proposals proposalId')]
    rfl

section programs

variable {α : Type} {post : Writes Key.Row → Database → α → Prop}

theorem safe_read {β : Type} {query : Database → β} {f : β → Program α} (h : Underway writes db change)
    (hrest : ∀ db', Underway writes db' change →
      Safe (resourceDiscipline operations) resourceReliance post (f (query (overlay writes db'))) writes db') :
    Safe (resourceDiscipline operations) resourceReliance post (Call.read query >>= f) writes db :=
  Safe.read_bind fun db' hlater => hrest db' (h.later hlater)

theorem safe_loadHoldingQuantity {sessionId actorId : Uuid} {resourceType : String} {f : Int → Program α}
    (h : Underway writes db change) (hrest : ∀ db' quantity, Underway writes db' change → 0 ≤ quantity →
      Safe (resourceDiscipline operations) resourceReliance post (f quantity) writes db') :
    Safe (resourceDiscipline operations) resourceReliance post
      (loadHoldingQuantity sessionId actorId resourceType >>= f) writes db :=
  safe_read h fun db' h' => hrest db' _ h' (h'.solvent sessionId actorId resourceType)

theorem safe_setHoldingQuantity {sessionId actorId : Uuid} {resourceType : String} {asRead newQuantity : Int}
    {f : GenieResourceHolding → Program α} (h : Underway writes db change) (hnew : 0 ≤ newQuantity)
    (hrest : ∀ writes' db' holding,
      Underway writes' db' (change + amountOf sessionId resourceType (newQuantity - asRead)) →
      Safe (resourceDiscipline operations) resourceReliance post (f holding) writes' db') :
    Safe (resourceDiscipline operations) resourceReliance post
      (setHoldingQuantity sessionId actorId resourceType asRead newQuantity >>= f) writes db := by
  rw [setHoldingQuantity, bind_assoc]
  refine Safe.update_bind fun db' hlater hrelied => hrest _ db' _ ?_
  have hread : overlay writes db' (.holding sessionId actorId resourceType) = asRead := by
    simpa using hrelied .holdingAsRead (by simp [resourceReliance])
  rw [← hread]
  exact (h.later hlater).set hnew

theorem safe_update {key : Key} {g : Key.Row key → Key.Row key} {f : Key.Row key → Program α}
    {relies : Reliance → Database → Bool} (h : Underway writes db change)
    (hholding : ∀ sessionId actorId resourceType, Key.holding sessionId actorId resourceType ≠ key)
    (hproposal : ∀ proposalId, Key.proposal proposalId ≠ key)
    (hrest : ∀ writes' db' row, Underway writes' db' change →
      Safe (resourceDiscipline operations) resourceReliance post (f row) writes' db') :
    Safe (resourceDiscipline operations) resourceReliance post (Call.update relies key g >>= f) writes db :=
  Safe.update_bind fun db' hlater _ => hrest _ db' _ ((h.later hlater).other hholding hproposal)

theorem safe_grantItemToActor {world : World} {actorId itemId : Uuid} {quantity : Int} {f : Unit → Program α}
    (h : Underway writes db change) (hrest : ∀ writes' db', Underway writes' db' change →
      Safe (resourceDiscipline operations) resourceReliance post (f ()) writes' db') :
    Safe (resourceDiscipline operations) resourceReliance post
      (grantItemToActor world actorId itemId quantity >>= f) writes db := by
  rw [grantItemToActor, bind_assoc]
  refine Safe.require_bind fun _ => ?_
  rw [bind_assoc]
  exact safe_update h (by simp) (by simp) fun writes' db' _ h' => hrest writes' db' h'

theorem safe_writePuzzleClock {world : World} {now : Nat} {clockId : Uuid} {clock : GeniePuzzleClock}
    {delta : Int} {notFound : String} {f : GeniePuzzleClock → Program α} (h : Underway writes db change)
    (hrest : ∀ writes' db' updated, Underway writes' db' change →
      Safe (resourceDiscipline operations) resourceReliance post (f updated) writes' db') :
    Safe (resourceDiscipline operations) resourceReliance post
      (writePuzzleClock world now clockId clock delta notFound >>= f) writes db := by
  rw [writePuzzleClock, bind_assoc]
  refine safe_update h (by simp) (by simp) fun writes₁ db₁ row h₁ => ?_
  rw [bind_assoc]
  refine Safe.getOr_bind fun updated _ => ?_
  split_ifs
  · rw [bind_assoc]
    refine safe_read h₁ fun db₂ h₂ => ?_
    split_ifs
    · rw [bind_assoc]
      exact safe_update h₂ (by simp) (by simp) fun writes₃ db₃ _ h₃ => hrest writes₃ db₃ updated h₃
    · exact hrest writes₁ db₂ updated h₂
  · exact hrest writes₁ db₁ updated h₁

end programs

/-- An operation is safe from a balance of nothing. -/
def SafeOperation (operations : Fin n → ResourceOperation) (world : World) (operation : ResourceOperation) : Prop :=
  ∀ writes db, Underway writes db 0 → Safe (resourceDiscipline operations) resourceReliance (Settled operation)
    (operation.program world) writes db

theorem acceptResourceTrade_safe (world : World) (caller : Caller) (proposalId : Uuid) :
    SafeOperation operations world (.acceptResourceTrade caller proposalId) := by
  intro writes db h
  unfold ResourceOperation.program acceptResourceTrade loadProposal
  simp only [bind_assoc]
  refine safe_read h fun db₁ h₁ => Safe.getOr_bind fun found _ => ?_
  obtain ⟨proposal, session⟩ := found
  dsimp only
  refine Safe.require_bind fun _ => Safe.getOr_bind fun controlsFrom _ => Safe.getOr_bind fun controlsTo _ =>
    Safe.require_bind fun _ => Safe.require_bind fun _ => Safe.require_bind fun _ => ?_
  refine safe_loadHoldingQuantity h₁ fun db₂ fromCurrent h₂ _ => Safe.require_bind fun hfrom => ?_
  refine safe_loadHoldingQuantity h₂ fun db₃ toCurrent h₃ _ => Safe.require_bind fun hto => ?_
  refine safe_setHoldingQuantity h₃ (by omega) fun writes₄ db₄ fromAfter h₄ => ?_
  refine safe_loadHoldingQuantity h₄ fun db₅ fromGainsBase h₅ hfromBase => ?_
  refine safe_setHoldingQuantity h₅ (by have := proposal.toPositive; omega) fun writes₆ db₆ fromGains h₆ => ?_
  refine safe_setHoldingQuantity h₆ (by omega) fun writes₇ db₇ toAfter h₇ => ?_
  refine safe_loadHoldingQuantity h₇ fun db₈ toGainsBase h₈ htoBase => ?_
  refine safe_setHoldingQuantity h₈ (by have := proposal.fromPositive; omega) fun writes₉ db₉ toGains h₉ => ?_
  refine Safe.update_bind fun db' hlater hrelied => Safe.pure fun db'' hlater' => ?_
  have hunderway := h₉.later hlater
  have hopen := hrelied .proposalOpen (by simp [resourceReliance])
  rw [overlay_of_none (hunderway.proposals proposalId)] at hopen
  obtain ⟨row, hrow, hstatus⟩ := (Option.any_eq_true _ _).mp (by simpa using hopen)
  have hpending : proposalStatus db' proposalId = some .pending := by
    rw [proposalStatus, hrow, Option.map_some, of_decide_eq_true hstatus]
  refine hunderway.resolve rfl (fun sessionId resourceType => ?_) ?_ ?_ (fun _ => hpending) hlater'
  · simp only [Pi.add_apply, Pi.zero_apply, amountOf, ResourceOperation.gave, ResourceOperation.charged]
    split_ifs <;> omega
  · rw [overlay_of_none (hunderway.proposals proposalId), hrow]
    rfl
  · rw [hpending]
    simp

theorem declineResourceTrade_safe (world : World) (caller : Caller) (proposalId : Uuid) :
    SafeOperation operations world (.declineResourceTrade caller proposalId) := by
  intro writes db h
  unfold ResourceOperation.program declineResourceTrade loadProposal
  simp only [bind_assoc]
  refine safe_read h fun db₁ h₁ => Safe.getOr_bind fun found _ => ?_
  obtain ⟨proposal, session⟩ := found
  dsimp only
  refine Safe.require_bind fun _ => Safe.getOr_bind fun controlsFrom _ => Safe.getOr_bind fun controlsTo _ =>
    Safe.require_bind fun _ => Safe.require_bind fun _ => Safe.require_bind fun _ => ?_
  refine Safe.update_bind fun db' hlater hrelied => Safe.getOr_bind fun updated hupdated =>
    Safe.pure fun db'' hlater' => ?_
  have hunderway := h₁.later hlater
  have hopen : proposalStatus db' proposalId ≠ some .accepted := by
    have := hrelied .proposalOpen (by simp [resourceReliance])
    rw [overlay_of_none (hunderway.proposals proposalId)] at this
    intro haccepted
    obtain ⟨row, hrow, hstatus⟩ := Option.map_eq_some_iff.mp haccepted
    simp [hrow, hstatus] at this
  refine hunderway.resolve rfl (fun _ _ => rfl) ?_ hopen (fun h => absurd h (by decide)) hlater'
  obtain ⟨row, hrow, rfl⟩ := Option.map_eq_some_iff.mp hupdated
  rw [hrow]
  rfl

theorem spendResourceOnPuzzleClock_safe (world : World) (caller : Caller) (now : Nat) (clockId actorId : Uuid)
    (resourceType : String) (quantity : Int) : SafeOperation operations world
      (.spendResourceOnPuzzleClock caller now clockId actorId resourceType quantity) := by
  intro writes db h
  unfold ResourceOperation.program spendResourceOnPuzzleClock requireCallerControlsActor loadPuzzleClockRow
    loadSessionRow
  simp only [bind_assoc]
  refine Safe.require_bind fun hquantity => Safe.getOr_bind fun controls _ => Safe.require_bind fun _ => ?_
  refine safe_read h fun db₁ h₁ => Safe.getOr_bind fun clock _ => ?_
  refine safe_read h₁ fun db₂ h₂ => Safe.getOr_bind fun session _ => ?_
  refine Safe.require_bind fun _ => Safe.require_bind fun _ => Safe.require_bind fun _ => ?_
  refine safe_loadHoldingQuantity h₂ fun db₃ currentQty h₃ _ => Safe.require_bind fun hholds => ?_
  refine safe_setHoldingQuantity h₃ (by omega) fun writes₄ db₄ _ h₄ => ?_
  refine safe_writePuzzleClock h₄ fun writes₅ db₅ updated h₅ => Safe.pure fun db' hlater => ?_
  refine Underway.settled rfl (fun sessionId' resourceType' => ?_) (h₅.later hlater)
  simp only [Pi.add_apply, Pi.zero_apply, amountOf, ResourceOperation.gave, ResourceOperation.charged]
  split_ifs <;> omega

theorem grantSessionResource_safe (world : World) (caller : Caller) (sessionId actorId : Uuid)
    (resourceType : String) (amount : Int) : SafeOperation operations world
      (.grantSessionResource caller sessionId actorId resourceType amount) := by
  intro writes db h
  unfold ResourceOperation.program grantSessionResource loadSessionRow
  simp only [bind_assoc]
  refine Safe.require_bind fun hamount => safe_read h fun db₁ h₁ => Safe.getOr_bind fun session _ => ?_
  refine Safe.require_bind fun _ => Safe.require_bind fun _ => Safe.require_bind fun _ => ?_
  refine safe_loadHoldingQuantity h₁ fun db₂ current h₂ hcurrent => ?_
  refine safe_setHoldingQuantity h₂ (by omega) fun writes₃ db₃ _ h₃ => Safe.pure fun db' hlater => ?_
  refine Underway.settled rfl (fun sessionId' resourceType' => ?_) (h₃.later hlater)
  simp only [Pi.add_apply, Pi.zero_apply, amountOf, ResourceOperation.gave, ResourceOperation.charged]
  split_ifs <;> omega

/-- Paying a price in a session charges it there; paying with an item charges nothing. -/
theorem safe_payPrice {world : World} {buyerActorId : Uuid} {listing : GenieShopListing} {sessionId : Option Uuid}
    {α : Type} {f : Unit → Program α} {post : Writes Key.Row → Database → α → Prop}
    (hsession : listing.priceKind = .item → sessionId = none) (h : Underway writes db 0)
    (hrest : ∀ writes' db', Underway writes' db' (-priceIn listing sessionId) →
      Safe (resourceDiscipline operations) resourceReliance post (f ()) writes' db') :
    Safe (resourceDiscipline operations) resourceReliance post
      (payPrice world buyerActorId listing sessionId >>= f) writes db := by
  unfold payPrice
  split
  case h_1 sessionId =>
    simp only [bind_assoc]
    refine safe_loadHoldingQuantity h fun db₁ current h₁ _ => Safe.require_bind fun hamount => ?_
    refine safe_setHoldingQuantity h₁ (by omega) fun writes₂ db₂ _ h₂ => hrest writes₂ db₂ ?_
    convert h₂ using 1
    funext sessionId' resourceType
    simp only [Pi.add_apply, Pi.neg_apply, Pi.zero_apply, priceIn, amountOf]
    split_ifs <;> omega
  case h_2 => trivial
  case h_3 hkind =>
    obtain rfl := hsession hkind
    simp only [bind_assoc]
    refine Safe.getOr_bind fun requiredItemId _ => safe_read h fun db₁ h₁ => Safe.require_bind fun _ => ?_
    refine safe_update h₁ (by simp) (by simp) fun writes₂ db₂ _ h₂ => ?_
    refine safe_grantItemToActor h₂ fun writes₃ db₃ h₃ => hrest writes₃ db₃ ?_
    rwa [show -priceIn listing none = 0 from rfl]

theorem purchaseFromShop_safe (world : World) (caller : Caller) (listingId buyerActorId : Uuid) :
    SafeOperation operations world (.purchaseFromShop caller listingId buyerActorId) := by
  intro writes db h
  unfold ResourceOperation.program purchaseFromShop requireCallerControlsActor
  simp only [bind_assoc]
  refine Safe.getOr_bind fun controls _ => Safe.require_bind fun _ => Safe.getOr_bind fun buyerWorldId _ =>
    Safe.require_bind fun _ => ?_
  refine safe_read h fun db₁ h₁ => Safe.getOr_bind fun listing _ => ?_
  -- from the decrement on, the same whichever session was found
  have hbuy (sessionId : Option Uuid) (hsession : listing.priceKind = .item → sessionId = none)
      (db₂ : Database) (h₂ : Underway writes db₂ 0) :
      Safe (resourceDiscipline operations) resourceReliance
        (Settled (.purchaseFromShop caller listingId buyerActorId)) (do
          let sellerWorldId ← actorWorldId world listing.actorId
          refuseWorldIfPaused world sellerWorldId
          let decremented ← Call.updateWhere (ρ := Key.Row) (.stock listing.actorId listing.itemId)
            (fun row => row.any (0 < ·)) fun row => row.map (· - 1)
          Call.require decremented "This item is out of stock"
          payPrice world buyerActorId listing sessionId
          grantItemToActor world buyerActorId listing.itemId 1
          pure (.purchase listing sessionId)) writes db₂ := by
    refine Safe.getOr_bind fun sellerWorldId _ => Safe.require_bind fun _ =>
      Safe.updateWhere_bind (fun db₃ hlater _ => Safe.require_bind fun _ => ?_)
        (fun db₃ hlater _ => Safe.require_bind fun h => absurd h (by decide))
    refine safe_payPrice hsession ((h₂.later hlater).other (by simp) (by simp)) fun writes₄ db₄ h₄ => ?_
    refine safe_grantItemToActor h₄ fun writes₅ db₅ h₅ => Safe.pure fun db' hlater' => ?_
    exact Underway.settled rfl (fun _ _ => (zero_sub _).symm) (h₅.later hlater')
  unfold sessionForPrice
  split
  case h_1 hkind =>
    simp only [bind_assoc]
    refine Safe.getOr_bind fun worldId _ => safe_read h₁ fun db₂ h₂ => Safe.getOr_bind fun sessionId _ => ?_
    exact hbuy (some sessionId) (by simp [hkind]) db₂ h₂
  case h_2 => exact hbuy none (fun _ => rfl) db₁ h₁

theorem ResourceOperation.safe (world : World) (operation : ResourceOperation) :
    SafeOperation operations world operation := by
  cases operation with
  | acceptResourceTrade caller proposalId => exact acceptResourceTrade_safe world caller proposalId
  | declineResourceTrade caller proposalId => exact declineResourceTrade_safe world caller proposalId
  | spendResourceOnPuzzleClock caller now clockId actorId resourceType quantity =>
      exact spendResourceOnPuzzleClock_safe world caller now clockId actorId resourceType quantity
  | purchaseFromShop caller listingId buyerActorId => exact purchaseFromShop_safe world caller listingId buyerActorId
  | grantSessionResource caller sessionId actorId resourceType amount =>
      exact grantSessionResource_safe world caller sessionId actorId resourceType amount

/-- The commits that made this of a proposal. -/
def resolvedAs (operations : Fin n → ResourceOperation) (commits : List (Commit n Key.Row Answer))
    (proposalId : Uuid) (status : ProposalStatus) : List (Commit n Key.Row Answer) :=
  commits.filter fun commit => (operations commit.call).resolution = some (proposalId, status)

/-- No resource is created or destroyed: the totals are what they were with what was given and without
what was charged, nothing is owed, and no proposal is executed twice, or executed and declined. -/
structure Conserved (operations : Fin n → ResourceOperation) (first : Database)
    (s : System n Key.Row Reliance String Answer) : Prop where
  total : ∀ sessionId resourceType, total s.db sessionId resourceType = total first sessionId resourceType +
    (s.commits.map fun commit => (operations commit.call).gave sessionId resourceType).sum -
    (s.commits.map fun commit => (operations commit.call).charged commit.result sessionId resourceType).sum
  solvent : Solvent s.db
  executedOnce : ∀ proposalId, (resolvedAs operations s.commits proposalId .accepted).length ≤ 1
  notBoth : ∀ proposalId, resolvedAs operations s.commits proposalId .accepted = [] ∨
    resolvedAs operations s.commits proposalId .rejected = []

section history

variable {first last : Database} {commits : List (Commit n Key.Row Answer)}

theorem total_of_history (h : History (resourceDiscipline operations) first commits last) (sessionId : Uuid)
    (resourceType : String) : total last sessionId resourceType = total first sessionId resourceType +
      (commits.map fun commit => (operations commit.call).gave sessionId resourceType).sum -
      (commits.map fun commit => (operations commit.call).charged commit.result sessionId resourceType).sum := by
  induction commits generalizing last with
  | nil =>
      rw [show first = last from h]
      simp
  | cons commit earlier ih =>
      obtain ⟨hearlier, -, hpost, rfl⟩ := h
      have hcommit := hpost.total sessionId resourceType
      have hbefore := ih hearlier
      simp only [List.map_cons, List.sum_cons]
      omega

theorem resolution_status {operation : ResourceOperation} {proposalId : Uuid} {status : ProposalStatus}
    (h : operation.resolution = some (proposalId, status)) : status = .accepted ∨ status = .rejected := by
  cases operation with
  | acceptResourceTrade caller proposalId => exact .inl (Prod.mk.inj (Option.some.inj h)).2.symm
  | declineResourceTrade caller proposalId => exact .inr (Prod.mk.inj (Option.some.inj h)).2.symm
  | spendResourceOnPuzzleClock | purchaseFromShop | grantSessionResource => cases h

/-- What was made of a proposal by the last to resolve it is its status still. -/
theorem resolved_of_history (h : History (resourceDiscipline operations) first commits last) (proposalId : Uuid) :
    (resolvedAs operations commits proposalId .accepted).length ≤ 1 ∧
      (resolvedAs operations commits proposalId .accepted ≠ [] →
        resolvedAs operations commits proposalId .rejected = [] ∧
          proposalStatus last proposalId = some .accepted) ∧
      (resolvedAs operations commits proposalId .rejected ≠ [] →
        proposalStatus last proposalId = some .rejected) := by
  induction commits generalizing last with
  | nil => exact ⟨Nat.zero_le _, (absurd rfl ·), (absurd rfl ·)⟩
  | cons commit earlier ih =>
      obtain ⟨hearlier, -, hpost, rfl⟩ := h
      obtain ⟨honce, haccepted, hrejected⟩ := ih hearlier
      simp only [resolvedAs, List.filter_cons, decide_eq_true_eq] at *
      by_cases haccepts : (operations commit.call).resolution = some (proposalId, .accepted)
      · obtain ⟨hstatus, -, hpending⟩ := hpost.resolved proposalId .accepted haccepts
        have hnone := by_contra fun hsome => by simpa [hpending rfl] using (haccepted hsome).2
        have hnone' := by_contra fun hsome => by simpa [hpending rfl] using hrejected hsome
        simp [haccepts, hnone, hnone', hstatus]
      · by_cases hrejects : (operations commit.call).resolution = some (proposalId, .rejected)
        · obtain ⟨hstatus, hopen, -⟩ := hpost.resolved proposalId .rejected hrejects
          have hnone := by_contra fun hsome => hopen (haccepted hsome).2
          simp [hrejects, hnone, hstatus]
        · have hstatus : proposalStatus (overlay commit.writes commit.before) proposalId =
              proposalStatus commit.before proposalId := by
            refine hpost.others proposalId fun status hresolution => ?_
            rcases resolution_status hresolution with rfl | rfl
            · exact haccepts hresolution
            · exact hrejects hresolution
          rw [hstatus]
          simp only [haccepts, hrejects, if_false]
          exact ⟨honce, haccepted, hrejected⟩

end history

end

/-- Resources are conserved in every run in which each holding replaced is as it was read, and each
proposal resolved is open. -/
theorem resources_conserved (world : World) {n : Nat} (operations : Fin n → ResourceOperation)
    (first : Database) (hsolvent : Solvent first) (actions : List (Action n))
    (hmeets : Run.Meets step (Relied resourceReliance)
      (System.start (fun i => (operations i).program world) first) actions) :
    Conserved operations first
      (Run.run step (System.start (fun i => (operations i).program world) first) actions) := by
  have hsound : Sound (resourceDiscipline operations) resourceReliance first _ :=
    Sound.run hsolvent (fun i => (operations i).safe world _ _ (.start hsolvent)) hmeets
  refine ⟨total_of_history hsound.history, hsound.valid, fun proposalId => ?_, fun proposalId => ?_⟩
  · exact (resolved_of_history hsound.history proposalId).1
  · obtain ⟨-, haccepted, -⟩ := resolved_of_history hsound.history proposalId
    exact or_iff_not_imp_left.mpr fun hsome => (haccepted hsome).1

/-- A world in play, with one session. -/
def openWorld : World where
  controlsActor _ _ _ := some true
  isDmOfWorld _ _ _ := true
  paused _ := false
  actorWorldId _ := some 0
  itemExists _ := true
  sessionIds := [1]
  clockIds := []

/-- Three wood of actor 10 for two ore of actor 20. -/
def woodForOre : GenieTradeProposal where
  sessionId := 1
  fromActorId := 10
  fromResourceType := "wood"
  fromQuantity := 3
  toActorId := 20
  toResourceType := "ore"
  toQuantity := 2
  status := .pending
  createdBy := 100
  fromPositive := by decide
  toPositive := by decide
  distinct := by decide

/-- The proposal pending, with twice what it takes on both sides. -/
def tradingSession : Database
  | .session id => if id = 1 then
      some { worldId := 0, wishesRemaining := 3, doomClockCurrent := 0, doomClockMax := 6, status := .active }
    else none
  | .clock _ => none
  | .holding sessionId actorId resourceType =>
    if sessionId = 1 ∧ actorId = 10 ∧ resourceType = "wood" then 6
    else if sessionId = 1 ∧ actorId = 20 ∧ resourceType = "ore" then 4
    else 0
  | .proposal id => if id = 7 then some woodForOre else none
  | .listing _ => none
  | .stock _ _ => none

theorem tradingSession_solvent : Solvent tradingSession := by
  intro sessionId actorId resourceType
  show (0 : Int) ≤ if _ then 6 else if _ then 4 else 0
  split_ifs <;> omega

def counterpart : Caller where
  userId := 200
  isAdmin := false

/-- The counterpart accepts twice, as from two windows. -/
def acceptTwice : Fin 2 → ResourceOperation := fun _ => .acceptResourceTrade counterpart 7

/-- One accept after the other: the second finds the proposal accepted. -/
theorem accepted_once_one_after_another : Conserved acceptTwice tradingSession (Run.run step
    (System.start (fun i => (acceptTwice i).program openWorld) tradingSession)
    (List.replicate 11 (.step 0) ++ List.replicate 11 (.step 1))) :=
  resources_conserved openWorld acceptTwice tradingSession tradingSession_solvent _ (by decide +kernel)

/-- Both accepts read the proposal before either executes it. -/
theorem accepted_twice : ¬Conserved acceptTwice tradingSession (Run.run step
    (System.start (fun i => (acceptTwice i).program openWorld) tradingSession)
    (.step 1 :: List.replicate 11 (.step 0) ++ List.replicate 10 (.step 1))) := by
  intro h
  have honce := h.executedOnce 7
  revert honce
  decide +kernel

end ThunderForge.Genie
