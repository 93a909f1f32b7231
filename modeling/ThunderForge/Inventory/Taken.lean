import Mathlib
import ThunderForge.Inventory.Pickup
import ThunderForge.Lib.ReadsOnly

/-! What is on the map and in the inventories under any number of calls at the same time. A token is deleted by
one call, whose commit is the only one that puts what it stands for into an inventory; and an entry is written by
calls one after another, each from the quantity the one before left. -/

namespace ThunderForge.Inventory

open ReadCommitted Actors

/-- The token a call has taken off the map. -/
def Answer.takes : Answer → Option Uuid
  | pickedUp tokenId _ _ => some tokenId
  | deletedToken tokenId deleted => if deleted then some tokenId else none
  | added _ _ _ | adjusted _ _ _ | removed _ => none

/-- How many of an item a character carries. -/
def quantityOf (actorId itemId : Uuid) (db : Database) : Int := (db (.inventory actorId itemId)).elim 0 (·.quantity)

/-- How many of an item a character carries after a call, from how many before. -/
def Answer.carries (actorId itemId : Uuid) : Answer → Int → Int
  | pickedUp _ actorId' placed, before =>
    if actorId = actorId' ∧ itemId = placed.itemId then before + placed.quantity else before
  | added actorId' itemId' quantity, before =>
    if actorId = actorId' ∧ itemId = itemId' then before + quantity else before
  | adjusted actorId' itemId' quantity, before => if actorId = actorId' ∧ itemId = itemId' then quantity else before
  | removed entry, before => if entry = some (actorId, itemId) then 0 else before
  | deletedToken _ _, before => before

section

variable (parseUuid : String → Option Uuid)

/-- What a token's authoring says it is. -/
def placedAt (db : Database) (tokenId : Uuid) : Option PlacedItem :=
  match (pickupConfig (db (.interactives tokenId))).bind (readPlacedItem parseUuid) with
  | some placed => some placed
  | none => (db (.token tokenId)).bind fun token => token.metadata.bind (readPlacedItem parseUuid)

/-- What a call has done by its commit. -/
structure Effect (db : Database) (answer : Answer) (db' : Database) : Prop where
  token : ∀ id, db' (.token id) = if answer.takes = some id then none else db (.token id)
  took : ∀ id, answer.takes = some id → db (.token id) ≠ none
  authoring : ∀ id, answer.takes ≠ some id → db' (.interactives id) = db (.interactives id)
  quantity : ∀ actorId itemId, quantityOf actorId itemId db' =
    answer.carries actorId itemId (quantityOf actorId itemId db)
  placed : ∀ tokenId actorId placed, answer = .pickedUp tokenId actorId placed →
    placedAt parseUuid db tokenId = some placed

/-- A token that is there later was there, under the same authoring. -/
def Standing (db db' : Database) : Prop :=
  ∀ id, db' (.token id) ≠ none → db (.token id) = db' (.token id) ∧ db (.interactives id) = db' (.interactives id)

variable {parseUuid} {db db' : Database}

theorem Standing.placedAt (h : Standing db db') {tokenId : Uuid} (hthere : db' (.token tokenId) ≠ none) :
    placedAt parseUuid db tokenId = placedAt parseUuid db' tokenId := by
  obtain ⟨htoken, hinteractives⟩ := h tokenId hthere
  rw [Inventory.placedAt, Inventory.placedAt, htoken, hinteractives]

theorem Standing.refl (db : Database) : Standing db db := fun _ _ => ⟨rfl, rfl⟩

theorem Standing.trans {db'' : Database} (h : Standing db db') (h' : Standing db' db'') : Standing db db'' := by
  intro id hthere
  obtain ⟨htoken, hinteractives⟩ := h' id hthere
  obtain ⟨htoken', hinteractives'⟩ := h id (htoken ▸ hthere)
  exact ⟨htoken'.trans htoken, hinteractives'.trans hinteractives⟩

theorem Effect.standing {answer : Answer} (h : Effect parseUuid db answer db') : Standing db db' := by
  intro id hthere
  have htoken := h.token id
  split_ifs at htoken with htakes
  · exact absurd htoken hthere
  · exact ⟨htoken.symm, (h.authoring id htakes).symm⟩

end

/-- Tokens are only ever deleted, and each commit does what its answer says. -/
def inventoryDiscipline (parseUuid : String → Option Uuid) (n : Nat) : Discipline n Key.Row Answer where
  valid _ := True
  rely _ := Standing
  post _ writes db answer := Effect parseUuid db answer (overlay writes db)
  refl _ := Standing.refl
  trans := Standing.trans
  keeps _ _ := trivial
  guarantees _ _ hpost := hpost.standing

section

variable {parseUuid : String → Option Uuid} {n : Nat} {α : Type} {post : Writes Key.Row → Database → α → Prop}
  {writes : Writes Key.Row} {db : Database}

/-! The checks write nothing. -/

theorem requireWorldMember_readsOnly (userId worldId : Uuid) : (requireWorldMember userId worldId).ReadsOnly := by
  refine .bind (.read _) fun member => ?_
  cases member with
  | some role => exact .pure _
  | none => exact .bind (.read _) fun _ => .pure _

theorem isDmOfWorld_readsOnly (caller : Caller) (worldId : Uuid) : (isDmOfWorld caller worldId).ReadsOnly := by
  unfold isDmOfWorld
  split_ifs
  · exact .pure _
  · exact .bind (requireWorldMember_readsOnly _ _) fun _ => .pure _

theorem isDmOfScene_readsOnly (caller : Caller) (sceneId : Uuid) : (isDmOfScene caller sceneId).ReadsOnly := by
  refine .bind (.read _) fun worldId => ?_
  cases worldId with
  | none => exact .pure _
  | some worldId => exact isDmOfWorld_readsOnly caller worldId

theorem requireActorPermission_readsOnly (caller : Caller) (actorId : Uuid) (minimum : ActorPermissionLevel) :
    (requireActorPermission caller actorId minimum).ReadsOnly := by
  refine .bind (.bind (.read _) fun worldId => .bind (.getOr _ _) fun worldId =>
    .bind (isDmOfWorld_readsOnly caller worldId) fun dm => ?_) fun _ => .require _ _
  split_ifs
  · exact .pure _
  · exact .bind (.read _) fun _ => .pure _

theorem refuseIfPaused_readsOnly (worldId : Uuid) : (refuseIfPaused worldId).ReadsOnly :=
  .bind (.read _) fun _ => .require _ _

theorem refuseWorldIfPaused_readsOnly (worldOf : Database → Option Uuid) : (refuseWorldIfPaused worldOf).ReadsOnly := by
  refine .bind (.read _) fun worldId => ?_
  cases worldId with
  | none => exact .pure _
  | some worldId => exact refuseIfPaused_readsOnly worldId

theorem requireEntry_readsOnly (caller : Caller) (entryId : Uuid) : (requireEntry caller entryId).ReadsOnly :=
  .bind (.read _) fun _ => .bind (.getOr _ _) fun place =>
    .bind (requireActorPermission_readsOnly caller place.1 .editor) fun _ => refuseWorldIfPaused_readsOnly _

/-- What is read of a token that is not taken in the meantime is what its authoring says later. -/
theorem placedItemOf_bind {tokenId : Uuid} {f : Option PlacedItem → Program α}
    (hwrites : writes = fun _ => none)
    (h : ∀ db' placed, (inventoryDiscipline parseUuid n).Later writes db db' →
      (∀ later, Standing db' later → later (.token tokenId) ≠ none → placedAt parseUuid later tokenId = placed) →
      Safe (inventoryDiscipline parseUuid n) [] post (f placed) writes db') :
    Safe (inventoryDiscipline parseUuid n) [] post (placedItemOf parseUuid tokenId >>= f) writes db := by
  subst hwrites
  unfold placedItemOf
  rw [bind_assoc]
  refine Safe.read_bind fun db₁ h₁ => ?_
  rw [overlay_none]
  cases hconfig : (pickupConfig (db₁ (.interactives tokenId))).bind (readPlacedItem parseUuid) with
  | some placed =>
      refine h db₁ (some placed) h₁ fun later hstanding hthere => ?_
      rw [placedAt, ← (hstanding tokenId hthere).2, hconfig]
  | none =>
      simp only [bind_assoc]
      refine Safe.read_bind fun db₂ h₂ => Safe.getOr_bind fun token htoken => h db₂ _ (h₁.trans h₂) ?_
      intro later hstanding hthere
      have hbefore : db₂ (.token tokenId) ≠ none := by
        rw [(hstanding tokenId hthere).1]
        exact hthere
      rw [← hstanding.placedAt hthere, placedAt, ← (h₂.rely tokenId hbefore).2, hconfig]
      rw [overlay_none] at htoken
      simp only [htoken, Option.bind_some]

/-! What the writing statements write. -/

theorem quantity_upserted {topping : Topping} {itemName : String} {entry : ActorInventoryEntry}
    (h : topping.upserted itemName db = .ok entry) :
    entry.quantity = quantityOf topping.actorId topping.itemId db + topping.quantity := by
  unfold Topping.upserted at h
  unfold quantityOf
  cases hrow : db (.inventory topping.actorId topping.itemId) with
  | none =>
      simp only [hrow] at h
      split_ifs at h
      rw [← Except.ok.inj h, Option.elim_none, zero_add]
  | some before =>
      simp only [hrow] at h
      split_ifs at h
      rw [← Except.ok.inj h, Option.elim_some]

/-- The rows written for an entry. -/
def entryRows (actorId itemId : Uuid) (entry : ActorInventoryEntry) : List Key :=
  [.inventory actorId itemId, .entry entry.id]

theorem quantityOf_putEntry (actorId itemId : Uuid) (entry : ActorInventoryEntry) (db view : Database)
    (actorId' itemId' : Uuid) :
    quantityOf actorId' itemId'
        (overlay (record writes (entryRows actorId itemId entry) (putEntry view actorId itemId entry)) db) =
      if actorId' = actorId ∧ itemId' = itemId then entry.quantity
      else quantityOf actorId' itemId' (overlay writes db) := by
  unfold quantityOf
  split_ifs with hrow
  · obtain ⟨rfl, rfl⟩ := hrow
    rw [overlay_record_of_mem (by simp [entryRows])]
    simp [putEntry]
  · rw [overlay_record_of_notMem (by simpa [entryRows] using hrow)]

theorem upsertInventoryEntry_bind {topping : Topping} {f : ActorInventoryEntry → Program α}
    (h : ∀ db' entry, (inventoryDiscipline parseUuid n).Later writes db db' →
      entry.quantity = quantityOf topping.actorId topping.itemId (overlay writes db') + topping.quantity →
      Safe (inventoryDiscipline parseUuid n) [] post (f entry)
        (record writes (entryRows topping.actorId topping.itemId entry)
          (putEntry (overlay writes db') topping.actorId topping.itemId entry)) db') :
    Safe (inventoryDiscipline parseUuid n) [] post (upsertInventoryEntry topping >>= f) writes db := by
  unfold upsertInventoryEntry
  simp only [bind_assoc]
  refine Safe.read_bind fun db₁ h₁ => Safe.getOr_bind fun itemName _ => fun db₂ h₂ _ => ?_
  cases hupserted : topping.upserted itemName (overlay writes db₂) with
  | error error => trivial
  | ok entry =>
      have hsafe := h db₂ entry (h₁.trans h₂) (quantity_upserted hupserted)
      simpa [hupserted, Except.toOption, entryRows] using! hsafe

/-- A call that holds an entry it has topped up has added to what was carried. -/
theorem quantityOf_topped {topping : Topping} {entry : ActorInventoryEntry} {db₁ db' : Database}
    (hinventory : ∀ actorId itemId, writes (.inventory actorId itemId) = none)
    (hentry : entry.quantity = quantityOf topping.actorId topping.itemId (overlay writes db₁) + topping.quantity)
    (hlater : (inventoryDiscipline parseUuid n).Later
      (record writes (entryRows topping.actorId topping.itemId entry)
        (putEntry (overlay writes db₁) topping.actorId topping.itemId entry)) db₁ db') (actorId itemId : Uuid) :
    quantityOf actorId itemId (overlay (record writes (entryRows topping.actorId topping.itemId entry)
        (putEntry (overlay writes db₁) topping.actorId topping.itemId entry)) db') =
      if actorId = topping.actorId ∧ itemId = topping.itemId then quantityOf actorId itemId db' + topping.quantity
      else quantityOf actorId itemId db' := by
  have hseen (db : Database) (actorId itemId : Uuid) :
      quantityOf actorId itemId (overlay writes db) = quantityOf actorId itemId db := by
    rw [quantityOf, overlay_of_none (hinventory actorId itemId), quantityOf]
  have hheld : db' (.inventory topping.actorId topping.itemId) = db₁ (.inventory topping.actorId topping.itemId) :=
    hlater.held _ (by rw [record_of_mem (by simp [entryRows])]; rfl)
  rw [hseen] at hentry
  rw [quantityOf_putEntry, hseen]
  split_ifs with hrow
  · obtain ⟨rfl, rfl⟩ := hrow
    rw [hentry, quantityOf, quantityOf, hheld]
  · rfl

/-- An entry found by its id is deleted with the row under its id. -/
theorem deleteEntry_bind {entryId : Uuid} {f : Option (Uuid × Uuid) → Program α}
    (hfound : ∀ db' place, (inventoryDiscipline parseUuid n).Later writes db db' →
      Safe (inventoryDiscipline parseUuid n) [] post (f (some place))
        (record writes [.inventory place.1 place.2, .entry entryId]
          (Function.update (β := Key.Row)
            (Function.update (β := Key.Row) (overlay writes db') (.inventory place.1 place.2) none)
            (.entry entryId) none)) db')
    (hnone : ∀ db', (inventoryDiscipline parseUuid n).Later writes db db' →
      Safe (inventoryDiscipline parseUuid n) [] post (f none) writes db') :
    Safe (inventoryDiscipline parseUuid n) [] post (deleteEntry entryId >>= f) writes db := by
  intro db' hlater _
  cases hplace : entryById entryId (overlay writes db') with
  | none => simpa [hplace] using! hnone db' hlater
  | some place => simpa [hplace] using! hfound db' place hlater

/-! What each call has done by its commit. -/

/-- Nothing on the map changes, and one entry at most. -/
theorem effect_of_entry {answer : Answer} {db' : Database} (htakes : answer.takes = none)
    (htoken : ∀ id, db' (.token id) = db (.token id))
    (hinteractives : ∀ id, db' (.interactives id) = db (.interactives id))
    (hquantity : ∀ actorId itemId, quantityOf actorId itemId db' =
      answer.carries actorId itemId (quantityOf actorId itemId db))
    : Effect parseUuid db answer db' where
  token id := by rw [htakes, htoken, if_neg (by rintro ⟨⟩)]
  took id h := by rw [htakes] at h; cases h
  authoring id _ := hinteractives id
  quantity := hquantity
  placed tokenId actorId placed h := by rw [h] at htakes; cases htakes

theorem addItemToInventoryImpl_safe (caller : Caller) (actorId itemId : Uuid) (quantity : Int) (entryId : Uuid) :
    Safe (inventoryDiscipline parseUuid n) [] (fun writes db answer => Effect parseUuid db answer (overlay writes db))
      (addItemToInventoryImpl caller actorId itemId quantity entryId) (fun _ => none) db := by
  unfold addItemToInventoryImpl
  refine Safe.require_bind fun _ => Safe.readsOnly_bind (requireActorPermission_readsOnly _ _ _) trivial fun db₁ _ h₁ =>
    Safe.readsOnly_bind (refuseWorldIfPaused_readsOnly _) trivial fun db₂ _ h₂ =>
      upsertInventoryEntry_bind fun db₃ entry h₃ hentry => Safe.pure fun db' hlater => ?_
  refine effect_of_entry rfl (fun id => ?_) (fun id => ?_) fun actorId' itemId' => ?_
  · rw [overlay_record_of_notMem (by simp [entryRows]), overlay_none]
  · rw [overlay_record_of_notMem (by simp [entryRows]), overlay_none]
  · exact quantityOf_topped (fun _ _ => rfl) hentry hlater actorId' itemId'

theorem quantityOf_deleted (place : Uuid × Uuid) (entryId : Uuid) (view db : Database) (actorId itemId : Uuid) :
    quantityOf actorId itemId (overlay (record writes [.inventory place.1 place.2, .entry entryId]
        (Function.update (β := Key.Row) (Function.update (β := Key.Row) view (.inventory place.1 place.2) none)
          (.entry entryId) none)) db) =
      if some place = some (actorId, itemId) then 0 else quantityOf actorId itemId (overlay writes db) := by
  unfold quantityOf
  obtain ⟨actorId', itemId'⟩ := place
  split_ifs with hrow
  · obtain ⟨rfl, rfl⟩ := Prod.mk.inj (Option.some.inj hrow)
    rw [overlay_record_of_mem (by simp)]
    simp
  · rw [overlay_record_of_notMem (by simpa [eq_comm] using hrow)]

theorem deleteEntry_safe (entryId : Uuid) :
    Safe (inventoryDiscipline parseUuid n) [] (fun writes db answer => Effect parseUuid db answer (overlay writes db))
      (do
        let deleted ← deleteEntry entryId
        pure (Answer.removed deleted)) (fun _ => none) db := by
  refine deleteEntry_bind (fun db₁ place h₁ => Safe.pure fun db' hlater => ?_) fun db₁ h₁ =>
    Safe.pure fun db' hlater => ?_
  · refine effect_of_entry rfl (fun id => ?_) (fun id => ?_) fun actorId itemId => ?_
    · rw [overlay_record_of_notMem (by simp), overlay_none]
    · rw [overlay_record_of_notMem (by simp), overlay_none]
    · exact quantityOf_deleted place entryId _ db' actorId itemId
  · exact effect_of_entry rfl (fun _ => rfl) (fun _ => rfl) fun _ _ => rfl

theorem removeInventoryEntryImpl_safe (caller : Caller) (entryId : Uuid) :
    Safe (inventoryDiscipline parseUuid n) [] (fun writes db answer => Effect parseUuid db answer (overlay writes db))
      (removeInventoryEntryImpl caller entryId) (fun _ => none) db :=
  Safe.readsOnly_bind (requireEntry_readsOnly _ _) trivial fun _ _ _ => deleteEntry_safe entryId

theorem adjustInventoryQuantityImpl_safe (caller : Caller) (entryId : Uuid) (quantity : Int) :
    Safe (inventoryDiscipline parseUuid n) [] (fun writes db answer => Effect parseUuid db answer (overlay writes db))
      (adjustInventoryQuantityImpl caller entryId quantity) (fun _ => none) db := by
  unfold adjustInventoryQuantityImpl
  refine Safe.require_bind fun _ => Safe.readsOnly_bind (requireEntry_readsOnly _ _) trivial fun db₁ _ h₁ => ?_
  split_ifs
  · exact deleteEntry_safe entryId
  refine Safe.updateFound_bind (fun db₂ row h₂ hrow => ?_) fun db₂ h₂ hnone => ?_
  · obtain ⟨place, hplace, rfl⟩ := Option.map_eq_some_iff.mp hrow
    refine Safe.getOr_bind fun place' hplace' => ?_
    rw [hplace, Option.some.injEq] at hplace'
    subst hplace'
    refine Safe.pure fun db' hlater => effect_of_entry rfl (fun id => ?_) (fun id => ?_) fun actorId itemId => ?_
    · rw [overlay_update, Function.update_of_ne (by simp), overlay_none]
    · rw [overlay_update, Function.update_of_ne (by simp), overlay_none]
    · obtain ⟨actorId', itemId'⟩ := place
      obtain ⟨-, hthere⟩ := Option.filter_eq_some_iff.mp hplace
      rw [overlay_update, overlay_none, overlay_none, quantityOf, Answer.carries]
      split_ifs with hsame
      · obtain ⟨rfl, rfl⟩ := hsame
        obtain ⟨entry, hentry⟩ := Option.isSome_iff_exists.mp (Option.isSome_of_any hthere)
        rw [overlay_none] at hentry
        simp [setQuantity, hentry]
      · rw [Function.update_of_ne (by simpa using hsame)]
        rfl
  · rw [Option.map_eq_none_iff] at hnone
    exact Safe.getOr_bind fun place hplace => by rw [hnone] at hplace; cases hplace

/-- Once the token is claimed, the pickup ends with an entry for what the token stands for, or is rolled back. -/
theorem claimed_safe {pick : PickUpPlacedItem} {placed : PlacedItem} {writes : Writes Key.Row}
    (hclaimed : writes (.token pick.tokenId) = some none)
    (htokens : ∀ id, id ≠ pick.tokenId → writes (.token id) = none)
    (hinteractives : ∀ id, id ≠ pick.tokenId → writes (.interactives id) = none)
    (hinventory : ∀ actorId itemId, writes (.inventory actorId itemId) = none)
    (hplaced : ∀ later, (inventoryDiscipline parseUuid n).Later writes db later →
      later (.token pick.tokenId) ≠ none ∧ placedAt parseUuid later pick.tokenId = some placed) :
    Safe (inventoryDiscipline parseUuid n) [] (fun writes db answer => Effect parseUuid db answer (overlay writes db))
      (do
        let _ ← upsertInventoryEntry (pick.topping placed)
        pure (Answer.pickedUp pick.tokenId pick.actorId placed)) writes db := by
  refine upsertInventoryEntry_bind fun db₁ entry h₁ hentry => Safe.pure fun db' hlater => ?_
  have hwritten : (inventoryDiscipline parseUuid n).Later writes db₁ db' :=
    { valid := trivial
      held := fun k hk => hlater.held k (by
        by_cases hmem : k ∈ entryRows pick.actorId placed.itemId entry
        · rw [PickUpPlacedItem.topping, record_of_mem hmem]
          rfl
        · rw [PickUpPlacedItem.topping, record_of_notMem hmem]
          exact hk)
      rely := hlater.rely }
  obtain ⟨hthere, hitem⟩ := hplaced db' (h₁.trans hwritten)
  refine ⟨fun id => ?_, fun id htakes => ?_, fun id htakes => ?_, fun actorId itemId => ?_, ?_⟩
  · rw [overlay_record_of_notMem (by simp [entryRows]), Answer.takes]
    by_cases hid : pick.tokenId = id
    · subst hid
      simp [overlay, hclaimed]
    · rw [overlay_of_none (htokens id (Ne.symm hid)), if_neg (by simpa using hid)]
  · obtain rfl := Option.some.inj htakes
    exact hthere
  · have hid : id ≠ pick.tokenId := fun heq => htakes (congrArg some heq.symm)
    rw [overlay_record_of_notMem (by simp [entryRows]), overlay_of_none (hinteractives id hid)]
  · exact quantityOf_topped hinventory hentry hlater actorId itemId
  · rintro tokenId actorId item ⟨⟩
    exact hitem

/-- What is known of a token before the claim is known of it for as long as it is held. -/
theorem take_safe {pick : PickUpPlacedItem} {placed : PlacedItem}
    (hplaced : ∀ later, Standing db later → later (.token pick.tokenId) ≠ none →
      placedAt parseUuid later pick.tokenId = some placed) :
    Safe (inventoryDiscipline parseUuid n) [] (fun writes db answer => Effect parseUuid db answer (overlay writes db))
      (pick.take placed) (fun _ => none) db := by
  unfold PickUpPlacedItem.take claimToken deleteInteractives
  refine Safe.updateWhere_bind (fun db₁ h₁ hthere => Safe.require_bind fun _ => ?_)
    fun db₁ h₁ _ => Safe.require_bind fun hclaimed => absurd hclaimed (by decide)
  rw [overlay_none] at hthere
  -- the row is held, so the token is there until the commit
  have hheld {writes : Writes Key.Row} (hclaimed : writes (.token pick.tokenId) = some none) {db₂ : Database}
      (h₂ : Standing db₁ db₂) (hsame : db₂ (.token pick.tokenId) = db₁ (.token pick.tokenId)) (later : Database)
      (hlater : (inventoryDiscipline parseUuid n).Later writes db₂ later) :
      later (.token pick.tokenId) ≠ none ∧ placedAt parseUuid later pick.tokenId = some placed := by
    have hstays : later (.token pick.tokenId) ≠ none := by
      rw [hlater.held _ (by rw [hclaimed]; rfl), hsame]
      exact Option.isSome_iff_ne_none.mp hthere
    exact ⟨hstays, hplaced later (Standing.trans h₁.rely (h₂.trans hlater.rely)) hstays⟩
  refine Safe.updateWhere_bind (fun db₂ h₂ _ => ?_) fun db₂ h₂ _ => ?_
  · refine claimed_safe (by simp) (fun id hid => ?_) (fun id hid => ?_) (fun _ _ => by simp)
      (hheld (by simp) h₂.rely (h₂.held _ (by simp)))
    · rw [Function.update_of_ne (by simp), Function.update_of_ne (by simpa using hid)]
    · rw [Function.update_of_ne (by simpa using hid), Function.update_of_ne (by simp)]
  · refine claimed_safe (by simp) (fun id hid => ?_) (fun id _ => by simp) (fun _ _ => by simp)
      (hheld (by simp) h₂.rely (h₂.held _ (by simp)))
    rw [Function.update_of_ne (by simpa using hid)]

theorem pickUpPlacedItemImpl_safe (pick : PickUpPlacedItem) :
    Safe (inventoryDiscipline parseUuid n) [] (fun writes db answer => Effect parseUuid db answer (overlay writes db))
      (pickUpPlacedItemImpl parseUuid pick) (fun _ => none) db := by
  unfold pickUpPlacedItemImpl
  refine Safe.read_bind fun db₁ h₁ => Safe.getOr_bind fun token _ => placedItemOf_bind rfl
    fun db₂ placed h₂ hplaced => Safe.getOr_bind fun placed' hsome => ?_
  refine Safe.readsOnly_bind (requireActorPermission_readsOnly _ _ _) trivial fun db₃ _ h₃ =>
    Safe.read_bind fun db₄ h₄ => Safe.getOr_bind fun worldId _ => Safe.read_bind fun db₅ h₅ =>
      Safe.getOr_bind fun actorWorld _ => Safe.require_bind fun _ =>
        Safe.readsOnly_bind (refuseIfPaused_readsOnly _) trivial fun db₆ _ h₆ => ?_
  have hlater := h₃.trans (h₄.trans (h₅.trans h₆))
  refine take_safe fun later hstanding hthere => ?_
  rw [hplaced later (Standing.trans hlater.rely hstanding) hthere, hsome]

theorem effect_nothing_deleted (tokenId : Uuid) : Effect parseUuid db (.deletedToken tokenId false) db :=
  effect_of_entry rfl (fun _ => rfl) (fun _ => rfl) fun _ _ => rfl

theorem deleteToken_safe (caller : Caller) (tokenId : Uuid) :
    Safe (inventoryDiscipline parseUuid n) [] (fun writes db answer => Effect parseUuid db answer (overlay writes db))
      (deleteToken caller tokenId) (fun _ => none) db := by
  unfold deleteToken
  refine Safe.read_bind fun db₁ h₁ => ?_
  cases overlay (fun _ => none) db₁ (.token tokenId) with
  | none => exact Safe.pure fun db' _ => effect_nothing_deleted tokenId
  | some token =>
      refine Safe.readsOnly_bind (isDmOfScene_readsOnly _ _) trivial fun db₂ authorized h₂ => ?_
      split_ifs
      · refine Safe.readsOnly_bind (refuseWorldIfPaused_readsOnly _) trivial fun db₃ _ h₃ => Safe.updateWhere_bind
          (fun db₄ h₄ hthere => Safe.pure fun db' hlater => ?_)
          fun db₄ h₄ _ => Safe.pure fun db' _ => effect_nothing_deleted tokenId
        have hsame : db' (.token tokenId) = db₄ (.token tokenId) := hlater.held _ (by simp)
        refine ⟨fun id => ?_, fun id htakes => ?_, fun id _ => ?_, fun _ _ => ?_, by rintro _ _ _ ⟨⟩⟩
        · rw [overlay_update, overlay_none, Answer.takes, if_pos rfl]
          by_cases hid : tokenId = id
          · subst hid
            simp
          · rw [Function.update_of_ne (by simpa using Ne.symm hid), if_neg (by simpa using hid)]
        · obtain rfl := Option.some.inj htakes
          rw [hsame]
          exact Option.isSome_iff_ne_none.mp (by simpa using hthere)
        · rw [overlay_update, overlay_none, Function.update_of_ne (by simp)]
        · rw [quantityOf, overlay_update, overlay_none, Function.update_of_ne (by simp)]
          rfl
      · exact Safe.pure fun db' _ => effect_nothing_deleted tokenId

theorem Operation.safe (operation : Operation) :
    Safe (inventoryDiscipline parseUuid n) [] (fun writes db answer => Effect parseUuid db answer (overlay writes db))
      (operation.program parseUuid) (fun _ => none) db := by
  cases operation with
  | pickUpPlacedItem pick => exact pickUpPlacedItemImpl_safe pick
  | deleteToken caller tokenId => exact deleteToken_safe caller tokenId
  | addItemToInventory caller actorId itemId quantity entryId =>
      exact addItemToInventoryImpl_safe caller actorId itemId quantity entryId
  | adjustInventoryQuantity caller entryId quantity => exact adjustInventoryQuantityImpl_safe caller entryId quantity
  | removeInventoryEntry caller entryId => exact removeInventoryEntryImpl_safe caller entryId

end

section run

variable {parseUuid : String → Option Uuid} {n : Nat} {first last : Database}
  {commits : List (Commit n Key.Row Answer)}

/-- A token that has been taken was there to begin with, under the authoring it was taken with; it is not there any
more, and no other call has taken it. -/
theorem taken_history (h : History (inventoryDiscipline parseUuid n) first commits last) :
    Standing first last ∧ (commits.filterMap (·.result.takes)).Nodup ∧
      (∀ id ∈ commits.filterMap (·.result.takes), first (.token id) ≠ none ∧ last (.token id) = none) ∧
      ∀ commit ∈ commits, ∀ tokenId actorId placed, commit.result = .pickedUp tokenId actorId placed →
        placedAt parseUuid first tokenId = some placed := by
  induction commits generalizing last with
  | nil =>
      rw [show first = last from h]
      exact ⟨.refl last, List.nodup_nil, by rintro id ⟨⟩, by rintro commit ⟨⟩⟩
  | cons commit earlier ih =>
      obtain ⟨hearlier, -, heffect, rfl⟩ := h
      obtain ⟨hstanding, hnodup, htaken, hpicked⟩ := ih hearlier
      replace heffect : Effect parseUuid commit.before commit.result (overlay commit.writes commit.before) := heffect
      refine ⟨hstanding.trans heffect.standing, ?_, ?_, ?_⟩
      · cases htakes : commit.result.takes with
        | none => simpa only [List.filterMap_cons, htakes] using hnodup
        | some id =>
            simp only [List.filterMap_cons, htakes]
            exact List.nodup_cons.mpr ⟨fun hmem => heffect.took id htakes (htaken id hmem).2, hnodup⟩
      · have hgone (id : Uuid) (hbefore : commit.before (.token id) = none) :
            overlay commit.writes commit.before (.token id) = none := by
          rw [heffect.token, hbefore, ite_self]
        intro id hid
        obtain ⟨taking, hmem, htakes⟩ := List.mem_filterMap.mp hid
        rcases List.mem_cons.mp hmem with rfl | hmem
        · have hthere := heffect.took id htakes
          refine ⟨fun hnone => hthere ?_, by rw [heffect.token, if_pos htakes]⟩
          rw [← (hstanding id hthere).1, hnone]
        · have hbefore := htaken id (List.mem_filterMap.mpr ⟨taking, hmem, htakes⟩)
          exact ⟨hbefore.1, hgone id hbefore.2⟩
      · intro picking hmem tokenId actorId placed hresult
        rcases List.mem_cons.mp hmem with rfl | hmem
        · have hthere := heffect.took tokenId (by rw [hresult]; rfl)
          rw [hstanding.placedAt hthere]
          exact heffect.placed tokenId actorId placed hresult
        · exact hpicked picking hmem tokenId actorId placed hresult

theorem carries_history (h : History (inventoryDiscipline parseUuid n) first commits last) (actorId itemId : Uuid) :
    quantityOf actorId itemId last =
      commits.foldr (fun commit => commit.result.carries actorId itemId) (quantityOf actorId itemId first) :=
  h.foldr fun _ _ heffect => Effect.quantity heffect actorId itemId

/-- The map and the inventories after some actions. -/
def inventoryAfter (parseUuid : String → Option Uuid) (operations : Fin n → Operation) (first : Database)
    (actions : List (Action n)) : System n Key.Row Empty GraphQLError Answer :=
  Run.run step (System.start (fun i => (operations i).program parseUuid) first) actions

theorem inventoryAfter_sound (operations : Fin n → Operation) (actions : List (Action n)) :
    Sound (inventoryDiscipline parseUuid n) [] first (inventoryAfter parseUuid operations first actions) :=
  Sound.run trivial (fun i => (operations i).safe) (.of_forall relied_nil _ _)

/-- In whatever order calls take their steps: a token leaves the map once, whoever picks it up or deletes it; and who
picks it up gets what its authoring named. -/
theorem taken_once (operations : Fin n → Operation) (first : Database) (actions : List (Action n)) :
    ((inventoryAfter parseUuid operations first actions).commits.filterMap (·.result.takes)).Nodup ∧
      (∀ id ∈ (inventoryAfter parseUuid operations first actions).commits.filterMap (·.result.takes),
        first (.token id) ≠ none ∧ (inventoryAfter parseUuid operations first actions).db (.token id) = none) ∧
      ∀ commit ∈ (inventoryAfter parseUuid operations first actions).commits, ∀ tokenId actorId placed,
        commit.result = .pickedUp tokenId actorId placed → placedAt parseUuid first tokenId = some placed :=
  (taken_history (inventoryAfter_sound operations actions).history).2

/-- In whatever order calls take their steps, what a character carries of an item is what the calls that committed
have made of it, one after another: no addition is lost to another, or to a value set at the same time. -/
theorem nothing_lost (operations : Fin n → Operation) (first : Database) (actions : List (Action n))
    (actorId itemId : Uuid) :
    quantityOf actorId itemId (inventoryAfter parseUuid operations first actions).db =
      (inventoryAfter parseUuid operations first actions).commits.foldr
        (fun commit => commit.result.carries actorId itemId) (quantityOf actorId itemId first) :=
  carries_history (inventoryAfter_sound operations actions).history actorId itemId

/-- A token that stands for two of an item, in a world whose owner controls two characters. -/
def coinPurse : Database
  | .token 1 => some { sceneId := 2, metadata := none }
  | .interactives 1 =>
    [{ effectId := pickupEffect
       effectConfig := some (.object [("item", .string "coins"), ("quantity", .integer 2)]) }]
  | .scene 2 => some 3
  | .world 3 => some { createdBy := 4, paused := false }
  | .actor 5 => some 3
  | .actor 6 => some 3
  | .item 7 => some "Coins"
  | .token _ | .scene _ | .world _ | .actor _ | .item _ | .inventory _ _ | .entry _ | .member _ _ | .permission _ _ =>
    none
  | .interactives _ => []

/-- Both characters reach for it, and one of them gets both. -/
example :
    let pick (actorId entryId : Uuid) : Operation := .pickUpPlacedItem ⟨⟨4, false⟩, 1, actorId, entryId⟩
    let race : List (Action 2) := List.replicate 12 (.step 0) ++ List.replicate 13 (.step 1) ++
      List.replicate 9 (.step 0) ++ List.replicate 3 (.step 1)
    let after := inventoryAfter (fun _ => some 7) ![pick 5 8, pick 6 9] coinPurse race
    after.commits.map (·.result) = [.pickedUp 1 5 ⟨7, 2⟩] ∧
      quantityOf 5 7 after.db = 2 ∧ quantityOf 6 7 after.db = 0 := by
  decide +kernel

end run

end ThunderForge.Inventory
