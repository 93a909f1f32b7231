import Mathlib.Data.Prod.Lex
import Std.Data.ExtTreeMap
import ThunderForge.Basic
import ThunderForge.Transfer.Message

/-! Delta sync (`cache-core/src/delta.rs`, `cache-core/src/manifest.rs`): what a client must fetch and discard, and
what it holds once it has. The digest of some bytes is a parameter. -/

namespace ThunderForge.Cache

open Std (ExtTreeMap)
open Transfer (Fingerprint)

/-- One cacheable thing. -/
inductive ItemId where
  | sceneState (id : Uuid)
  | canvasAsset (id : Uuid)
  deriving DecidableEq

namespace ItemId

/-- The variant, and the id as a number. -/
def key : ItemId → ℕ ×ₗ ℕ
  | sceneState id => toLex (0, id.toNat)
  | canvasAsset id => toLex (1, id.toNat)

theorem key_injective : Function.Injective key := by
  intro left right h
  cases left <;> cases right <;> simp_all [key, BitVec.toNat_inj]

/-- The derived `Ord`. -/
instance : LinearOrder ItemId := LinearOrder.lift' key key_injective

instance : Std.LawfulEqOrd ItemId where
  eq_of_compare h := compare_eq_iff_eq.mp h

instance transOrd : Std.TransOrd ItemId := inferInstance

end ItemId

/-- One item a client says it holds. -/
structure HeldItem where
  id : ItemId
  fingerprint : Fingerprint

/-- One item the client must obtain. -/
structure PlanItem where
  id : ItemId
  fingerprint : Fingerprint
  byteSize : UInt64

/-- The server's answer to a client's manifest; about an item in neither list it says that it is current. -/
structure SyncPlan where
  fetch : List PlanItem
  evict : List ItemId

/-- What the server holds for one item; a fingerprint it has not computed is none. -/
structure CurrentItem where
  fingerprint : Option Fingerprint
  byteSize : UInt64

/-- `.collect()` of what a client says it holds: the last entry of an id counts. -/
def heldById (held : List HeldItem) : ExtTreeMap ItemId Fingerprint :=
  ExtTreeMap.ofList (held.map fun item => (item.id, item.fingerprint))

variable (ofBytes : List UInt8 → Fingerprint)

/-- What is fetched of one current item, given what is held of it. -/
def fetchItem (id : ItemId) (current : CurrentItem) (held : Option Fingerprint) : Option PlanItem :=
  match current.fingerprint with
  | none => some { id, fingerprint := ofBytes [], byteSize := current.byteSize }
  | some serverFp =>
    if held = some serverFp then none else some { id, fingerprint := serverFp, byteSize := current.byteSize }

def computePlan (held : List HeldItem) (authorizedCurrent : ExtTreeMap ItemId CurrentItem) : SyncPlan where
  evict := (heldById held).keys.filter fun id => !authorizedCurrent.contains id
  fetch := authorizedCurrent.toList.filterMap fun (id, current) => fetchItem ofBytes id current (heldById held)[id]?

/-- A client's account of one world. -/
structure Manifest where
  worldId : Uuid
  items : ExtTreeMap ItemId Fingerprint

namespace Manifest

def insert (manifest : Manifest) (id : ItemId) (fingerprint : Fingerprint) : Manifest :=
  { manifest with items := manifest.items.insert id fingerprint }

def remove (manifest : Manifest) (id : ItemId) : Manifest := { manifest with items := manifest.items.erase id }

def get (manifest : Manifest) (id : ItemId) : Option Fingerprint := manifest.items[id]?

def toWire (manifest : Manifest) : List HeldItem :=
  manifest.items.toList.map fun (id, fingerprint) => { id, fingerprint }

/-- The account of a client that holds some items. -/
def ofHeld (worldId : Uuid) (held : List HeldItem) : Manifest := { worldId, items := heldById held }

/-- What is to be evicted goes, and what is fetched is stored. -/
def applyPlan (manifest : Manifest) (plan : SyncPlan) : Manifest :=
  plan.fetch.foldl (fun manifest item => manifest.insert item.id item.fingerprint)
    (plan.evict.foldl remove manifest)

end Manifest

section manifest

variable {manifest : Manifest} {id : ItemId}

theorem Manifest.get_insert (manifest : Manifest) (id other : ItemId) (fingerprint : Fingerprint) :
    (manifest.insert id fingerprint).get other = if id = other then some fingerprint else manifest.get other := by
  unfold Manifest.insert Manifest.get
  rw [ExtTreeMap.getElem?_insert]
  simp only [compare_eq_iff_eq]

theorem Manifest.get_remove (manifest : Manifest) (id other : ItemId) :
    (manifest.remove id).get other = if id = other then none else manifest.get other := by
  unfold Manifest.remove Manifest.get
  rw [ExtTreeMap.getElem?_erase]
  simp only [compare_eq_iff_eq]

theorem Manifest.get_evicted (manifest : Manifest) (evict : List ItemId) (id : ItemId) :
    (evict.foldl remove manifest).get id = if id ∈ evict then none else manifest.get id := by
  induction evict generalizing manifest with
  | nil => simp
  | cons gone evict ih =>
      rw [List.foldl_cons, ih, get_remove]
      by_cases hid : id = gone
      · subst hid
        simp
      · simp [hid, Ne.symm hid]

/-- What is fetched under one fingerprint is held under it; what is not fetched stays as it was. -/
theorem Manifest.get_fetched (manifest : Manifest) (fetch : List PlanItem) (id : ItemId) :
    ((∀ item ∈ fetch, item.id ≠ id) →
      (fetch.foldl (fun manifest item => manifest.insert item.id item.fingerprint) manifest).get id = manifest.get id) ∧
    ∀ fingerprint, (∃ item ∈ fetch, item.id = id) → (∀ item ∈ fetch, item.id = id → item.fingerprint = fingerprint) →
      (fetch.foldl (fun manifest item => manifest.insert item.id item.fingerprint) manifest).get id =
        some fingerprint := by
  induction fetch generalizing manifest with
  | nil => simp
  | cons item fetch ih =>
      obtain ⟨hkept, hstored⟩ := ih (manifest.insert item.id item.fingerprint)
      rw [List.foldl_cons]
      constructor
      · intro hnone
        rw [hkept fun other hother => hnone other (List.mem_cons_of_mem _ hother), get_insert,
          if_neg (hnone item List.mem_cons_self)]
      · intro fingerprint hsome hall
        by_cases hlater : ∃ other ∈ fetch, other.id = id
        · exact hstored fingerprint hlater fun other hother => hall other (List.mem_cons_of_mem _ hother)
        · have hid : item.id = id := by
            obtain ⟨other, hother, hid⟩ := hsome
            rcases List.mem_cons.mp hother with rfl | hother
            · exact hid
            · exact absurd ⟨other, hother, hid⟩ hlater
          rw [hkept fun other hother hid => hlater ⟨other, hother, hid⟩, get_insert, if_pos hid,
            hall item List.mem_cons_self hid]

/-- A manifest that is sent is read as it is. -/
theorem heldById_toWire (manifest : Manifest) : heldById manifest.toWire = manifest.items := by
  apply ExtTreeMap.ext_getElem?
  intro id
  unfold heldById Manifest.toWire
  rw [List.map_map]
  cases hid : manifest.items[id]? with
  | none =>
      apply ExtTreeMap.getElem?_ofList_of_contains_eq_false
      rw [← Bool.not_eq_true, List.contains_iff_mem]
      intro hmem
      simp only [Function.comp_def, List.map_map, List.mem_map] at hmem
      obtain ⟨⟨other, fingerprint⟩, hother, rfl⟩ := hmem
      rw [ExtTreeMap.mem_toList_iff_getElem?_eq_some.mp hother] at hid
      cases hid
  | some fingerprint =>
      apply ExtTreeMap.getElem?_ofList_of_mem (k := id) (compare_eq_iff_eq.mpr rfl)
      · rw [List.pairwise_map]
        exact ExtTreeMap.distinct_keys_toList
      · exact List.mem_map.mpr ⟨(id, fingerprint), ExtTreeMap.mem_toList_iff_getElem?_eq_some.mpr hid, rfl⟩

end manifest

theorem heldById_of_last (before after : List HeldItem) (item : HeldItem) (h : ∀ other ∈ after, other.id ≠ item.id) :
    (heldById (before ++ item :: after))[item.id]? = some item.fingerprint := by
  have hafter (held : ExtTreeMap ItemId Fingerprint) :
      (after.foldl (fun held other => held.insert other.id other.fingerprint) held)[item.id]? = held[item.id]? := by
    induction after generalizing held with
    | nil => rfl
    | cons other after ih =>
        rw [List.foldl_cons, ih fun later hlater => h later (List.mem_cons_of_mem _ hlater),
          ExtTreeMap.getElem?_insert, if_neg]
        rw [compare_eq_iff_eq]
        exact h other List.mem_cons_self
  unfold heldById
  rw [ExtTreeMap.ofList_eq_foldl, List.foldl_map, List.foldl_append, List.foldl_cons, hafter,
    ExtTreeMap.getElem?_insert_self]

section plan

variable {ofBytes} {held : List HeldItem} {authorizedCurrent : ExtTreeMap ItemId CurrentItem} {id : ItemId}

theorem mem_evict : id ∈ (computePlan ofBytes held authorizedCurrent).evict ↔
    id ∈ heldById held ∧ id ∉ authorizedCurrent := by
  unfold computePlan
  rw [List.mem_filter, ExtTreeMap.mem_keys, Bool.not_eq_true', ← Bool.not_eq_true, ExtTreeMap.contains_iff_mem]

theorem fetchItem_eq_some {current : CurrentItem} {fingerprint : Option Fingerprint} {item : PlanItem}
    (h : fetchItem ofBytes id current fingerprint = some item) :
    item.id = id ∧ item.fingerprint = current.fingerprint.getD (ofBytes []) := by
  unfold fetchItem at h
  cases hknown : current.fingerprint with
  | none =>
      rw [hknown] at h
      cases h
      exact ⟨rfl, rfl⟩
  | some serverFp =>
      rw [hknown] at h
      dsimp only at h
      split_ifs at h
      cases h
      exact ⟨rfl, rfl⟩

/-- Silence is about what is held as it is known to be. -/
theorem fetchItem_eq_none {current : CurrentItem} {fingerprint : Option Fingerprint} :
    fetchItem ofBytes id current fingerprint = none ↔
      ∃ serverFp, current.fingerprint = some serverFp ∧ fingerprint = some serverFp := by
  unfold fetchItem
  cases hknown : current.fingerprint with
  | none => simp
  | some serverFp => simp

theorem mem_fetch {item : PlanItem} : item ∈ (computePlan ofBytes held authorizedCurrent).fetch ↔
    ∃ current, authorizedCurrent[item.id]? = some current ∧
      fetchItem ofBytes item.id current (heldById held)[item.id]? = some item := by
  unfold computePlan
  rw [List.mem_filterMap]
  constructor
  · rintro ⟨⟨id, current⟩, hmem, hitem⟩
    obtain ⟨rfl, -⟩ := fetchItem_eq_some hitem
    exact ⟨current, ExtTreeMap.mem_toList_iff_getElem?_eq_some.mp hmem, hitem⟩
  · rintro ⟨current, hcurrent, hitem⟩
    exact ⟨(item.id, current), ExtTreeMap.mem_toList_iff_getElem?_eq_some.mpr hcurrent, hitem⟩

/-- Nothing is fetched that the caller may not see. -/
theorem fetch_authorized {item : PlanItem} (h : item ∈ (computePlan ofBytes held authorizedCurrent).fetch) :
    item.id ∈ authorizedCurrent := by
  obtain ⟨current, hcurrent, -⟩ := mem_fetch.mp h
  exact ExtTreeMap.mem_iff_isSome_getElem?.mpr (by rw [hcurrent]; rfl)

/-- What a client holds of an item once it has applied the plan. -/
theorem get_applyPlan (worldId : Uuid) (id : ItemId) :
    ((Manifest.ofHeld worldId held).applyPlan (computePlan ofBytes held authorizedCurrent)).get id =
      authorizedCurrent[id]?.map fun current => current.fingerprint.getD (ofBytes []) := by
  unfold Manifest.applyPlan
  obtain ⟨hkept, hstored⟩ := Manifest.get_fetched
    ((computePlan ofBytes held authorizedCurrent).evict.foldl Manifest.remove (Manifest.ofHeld worldId held))
    (computePlan ofBytes held authorizedCurrent).fetch id
  by_cases hfetched : ∃ item ∈ (computePlan ofBytes held authorizedCurrent).fetch, item.id = id
  · obtain ⟨item, hitem, rfl⟩ := hfetched
    obtain ⟨current, hcurrent, -⟩ := mem_fetch.mp hitem
    rw [hcurrent, Option.map_some]
    apply hstored _ ⟨item, hitem, rfl⟩
    intro other hother hsame
    obtain ⟨current', hcurrent', hfetch⟩ := mem_fetch.mp hother
    rw [hsame, hcurrent] at hcurrent'
    cases hcurrent'
    exact (fetchItem_eq_some hfetch).2
  · rw [hkept fun item hitem hid => hfetched ⟨item, hitem, hid⟩, Manifest.get_evicted]
    simp only [mem_evict]
    have hheld : (Manifest.ofHeld worldId held).get id = (heldById held)[id]? := rfl
    cases hcurrent : authorizedCurrent[id]? with
    | none =>
        have hgone : id ∉ authorizedCurrent := by
          rw [ExtTreeMap.mem_iff_isSome_getElem?, hcurrent]
          exact Bool.false_ne_true
        rw [Option.map_none]
        split_ifs with hevicted
        · rfl
        · rw [hheld]
          exact ExtTreeMap.getElem?_eq_none fun hmem => hevicted ⟨hmem, hgone⟩
    | some current =>
        -- neither evicted nor fetched: it is held as it is
        have hsilent : fetchItem ofBytes id current (heldById held)[id]? = none := by
          rw [Option.eq_none_iff_forall_ne_some]
          intro item hitem
          obtain ⟨hid, -⟩ := fetchItem_eq_some hitem
          exact hfetched ⟨item, mem_fetch.mpr ⟨current, by rwa [hid], by rwa [hid]⟩, hid⟩
        obtain ⟨serverFp, hknown, hsame⟩ := fetchItem_eq_none.mp hsilent
        have hpresent : id ∈ authorizedCurrent := by
          rw [ExtTreeMap.mem_iff_isSome_getElem?, hcurrent]
          rfl
        rw [if_neg fun hevicted => hevicted.2 hpresent, hheld, hsame, Option.map_some, hknown, Option.getD_some]

/-- A plan that was applied leaves the client with what it may see, each item as it is known to be; the next plan
evicts nothing and fetches again what is not known, and nothing else. -/
theorem sync_converges (ofBytes : List UInt8 → Fingerprint) (worldId : Uuid) (held : List HeldItem)
    (authorizedCurrent : ExtTreeMap ItemId CurrentItem) :
    let plan := computePlan ofBytes held authorizedCurrent
    let manifest := (Manifest.ofHeld worldId held).applyPlan plan
    let next := computePlan ofBytes manifest.toWire authorizedCurrent
    (∀ id, (manifest.get id).isSome ↔ id ∈ authorizedCurrent) ∧
      (∀ id (current : CurrentItem) serverFp, authorizedCurrent[id]? = some current →
        current.fingerprint = some serverFp → manifest.get id = some serverFp) ∧
      next.evict = [] ∧
      next.fetch.map PlanItem.id = (authorizedCurrent.toList.filter fun entry => entry.2.fingerprint.isNone).map Prod.fst ∧
      (∀ item ∈ plan.fetch, item.id ∈ authorizedCurrent) ∧ ∀ item ∈ next.fetch, item.id ∈ authorizedCurrent := by
  intro plan manifest next
  have hget (id : ItemId) : manifest.get id =
      authorizedCurrent[id]?.map fun current : CurrentItem => current.fingerprint.getD (ofBytes []) := get_applyPlan worldId id
  have hnext : heldById manifest.toWire = manifest.items := heldById_toWire manifest
  refine ⟨fun id => ?_, fun id current serverFp hcurrent hknown => ?_, ?_, ?_, fun _ => fetch_authorized,
    fun _ => fetch_authorized⟩
  · rw [hget, Option.isSome_map, ExtTreeMap.mem_iff_isSome_getElem?]
  · rw [hget, hcurrent, Option.map_some, hknown, Option.getD_some]
  · rw [List.eq_nil_iff_forall_not_mem]
    intro id hid
    obtain ⟨hheld, hgone⟩ := mem_evict.mp hid
    rw [hnext, ExtTreeMap.mem_iff_isSome_getElem?] at hheld
    change (manifest.get id).isSome at hheld
    rw [hget, Option.isSome_map, ← ExtTreeMap.mem_iff_isSome_getElem?] at hheld
    exact hgone hheld
  · change ((authorizedCurrent.toList.filterMap fun (id, current) =>
      fetchItem ofBytes id current (heldById manifest.toWire)[id]?).map PlanItem.id) = _
    rw [List.map_filterMap, ← List.filterMap_eq_map, List.filterMap_filter]
    apply List.filterMap_congr
    rintro ⟨id, current⟩ hmem
    have hheld : (heldById manifest.toWire)[id]? = some (current.fingerprint.getD (ofBytes [])) := by
      rw [hnext]
      change manifest.get id = _
      rw [hget, ExtTreeMap.mem_toList_iff_getElem?_eq_some.mp hmem, Option.map_some]
    dsimp only
    rw [hheld]
    unfold fetchItem
    cases hknown : current.fingerprint with
    | none => rfl
    | some serverFp => simp

end plan

/-- The digest of 32 equal bytes. -/
def fingerprintOf (byte : UInt8) : Fingerprint := ⟨List.replicate 32 byte, List.length_replicate⟩

/-- A background that has changed, and one whose fingerprint is not known yet. -/
def twoAssets : ExtTreeMap ItemId CurrentItem :=
  ((∅ : ExtTreeMap ItemId CurrentItem).insert (.canvasAsset 1)
    { fingerprint := some (fingerprintOf 7), byteSize := 1024 }).insert (.canvasAsset 2)
      { fingerprint := none, byteSize := 1024 }

/-- The background as it was, and a scene that is not to be seen any more. -/
def heldBefore : List HeldItem :=
  [{ id := .canvasAsset 1, fingerprint := fingerprintOf 1 }, { id := .sceneState 3, fingerprint := fingerprintOf 3 }]

theorem changed_asset_fetched :
    ((Manifest.ofHeld 0 heldBefore).applyPlan (computePlan (fun _ => fingerprintOf 0) heldBefore twoAssets)).get
      (.canvasAsset 1) = some (fingerprintOf 7) := by
  have hcurrent : twoAssets[ItemId.canvasAsset 1]? =
      some { fingerprint := some (fingerprintOf 7), byteSize := 1024 } := by
    unfold twoAssets
    rw [ExtTreeMap.getElem?_insert, if_neg (by decide), ExtTreeMap.getElem?_insert_self]
  exact (sync_converges (fun _ => fingerprintOf 0) 0 heldBefore twoAssets).2.1 _ _ _ hcurrent rfl

end ThunderForge.Cache
