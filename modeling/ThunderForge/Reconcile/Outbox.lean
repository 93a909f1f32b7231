import ThunderForge.Lib.SortBy
import ThunderForge.Reconcile.Replay

/-! The changes made while disconnected, as the browser keeps them (`cache-core/src/queue.rs`,
`cache-browser/src/outbox.rs`). The rows lie by local id; the order they replay in is the number that each of them took
from the rows it found. -/

namespace ThunderForge.Reconcile

/-- One edit made while disconnected, awaiting reconnection. -/
structure QueuedChange where
  localId : Uuid
  worldId : Uuid
  command : String
  enqueuedSeq : UInt64
  actorRoleHint : Role
deriving DecidableEq

/-- The next sequence number to hand out, given what is already queued. -/
def nextSeq (queued : List QueuedChange) : UInt64 :=
  match (queued.map QueuedChange.enqueuedSeq).max? with
  | none => 0
  | some high => saturatingSucc high

/-- The order changes must be replayed in. -/
def replayOrder (queued : List QueuedChange) : List QueuedChange :=
  SortBy.sortBy (fun change => toLex (change.worldId.toNat, change.enqueuedSeq.toNat)) queued

/-- Entries for one world, in the order they must be replayed. -/
def replayForWorld (queued : List QueuedChange) (worldId : Uuid) : List QueuedChange :=
  (replayOrder queued).filter fun change => change.worldId = worldId

/-- The rows of the object store, in the order of their keys. -/
structure Outbox where
  rows : List QueuedChange
  keyed : rows.Pairwise fun a b => a.localId.toNat < b.localId.toNat

namespace Outbox

def empty : Outbox := ⟨[], .nil⟩

variable (outbox : Outbox)

theorem keyed_filter (p : QueuedChange → Bool) :
    (outbox.rows.filter p).Pairwise fun a b => a.localId.toNat < b.localId.toNat :=
  outbox.keyed.sublist List.filter_sublist

/-- `put`: a row with the same key is written over. -/
def put (change : QueuedChange) : Outbox where
  rows := SortBy.sortBy (fun row => row.localId.toNat)
    (change :: outbox.rows.filter fun row => row.localId ≠ change.localId)
  keyed := by
    refine SortBy.pairwise_lt_sortBy _ (List.nodup_cons.mpr ⟨fun hmem => ?_, ?_⟩)
    · obtain ⟨row, hrow, heq⟩ := List.mem_map.mp hmem
      exact of_decide_eq_true (List.mem_filter.mp hrow).2 (BitVec.eq_of_toNat_eq heq)
    · exact List.pairwise_map.mpr ((outbox.keyed_filter _).imp fun hlt => hlt.ne)

def delete (localId : Uuid) : Outbox where
  rows := outbox.rows.filter fun row => row.localId ≠ localId
  keyed := outbox.keyed_filter _

/-- Every queued change, oldest first by sequence. -/
def all : List QueuedChange := SortBy.sortBy (fun change => change.enqueuedSeq.toNat) outbox.rows

/-- What is stored for a change: its number is taken from the rows as they were read. -/
def stamp (worldId localId : Uuid) (command : String) (actorRoleHint : Role) : QueuedChange :=
  { localId, worldId, command, enqueuedSeq := nextSeq outbox.all, actorRoleHint }

/-- Everything queued for one world, in replay order. -/
def forWorld (worldId : Uuid) : List QueuedChange := replayForWorld outbox.all worldId

variable {outbox} {change row : QueuedChange} {localId worldId : Uuid}

@[simp] theorem mem_put : row ∈ (outbox.put change).rows ↔
    row = change ∨ row ∈ outbox.rows ∧ row.localId ≠ change.localId := by
  simp [put]

@[simp] theorem mem_delete : row ∈ (outbox.delete localId).rows ↔ row ∈ outbox.rows ∧ row.localId ≠ localId := by
  simp [delete]

@[simp] theorem mem_all : row ∈ outbox.all ↔ row ∈ outbox.rows := SortBy.mem_sortBy _

@[simp] theorem mem_forWorld : row ∈ outbox.forWorld worldId ↔ row ∈ outbox.rows ∧ row.worldId = worldId := by
  simp [forWorld, replayForWorld, replayOrder]

theorem nodup_rows (outbox : Outbox) : (outbox.rows.map QueuedChange.localId).Nodup :=
  List.pairwise_map.mpr (outbox.keyed.imp fun hlt heq => hlt.ne (congrArg BitVec.toNat heq))

theorem nodup_forWorld (outbox : Outbox) (worldId : Uuid) :
    ((outbox.forWorld worldId).map QueuedChange.localId).Nodup := by
  have hall : (outbox.all.map QueuedChange.localId).Nodup :=
    ((SortBy.sortBy_perm _ _).map _).nodup_iff.mpr outbox.nodup_rows
  have horder : ((replayOrder outbox.all).map QueuedChange.localId).Nodup :=
    ((SortBy.sortBy_perm _ _).map _).nodup_iff.mpr hall
  exact horder.sublist (List.filter_sublist.map _)

end Outbox

/-- The larger of two numbers is one of them, and bounds both. -/
instance lawfulOrderMaxUInt64 : Std.LawfulOrderMax UInt64 where
  max_eq_or a b := by
    show (if a ≤ b then b else a) = a ∨ (if a ≤ b then b else a) = b
    split_ifs
    · exact Or.inr rfl
    · exact Or.inl rfl
  max_le_iff a b c := by
    show (if a ≤ b then b else a) ≤ c ↔ a ≤ c ∧ b ≤ c
    simp only [UInt64.le_iff_toNat_le]
    split_ifs <;> omega

section Numbers

variable {queued : List QueuedChange} {change : QueuedChange}

/-- A number that is handed out is at most one more than one that was. -/
theorem nextSeq_le {bound : Nat} (h : ∀ change ∈ queued, change.enqueuedSeq.toNat < bound) :
    (nextSeq queued).toNat ≤ bound := by
  unfold nextSeq
  cases hmax : (queued.map QueuedChange.enqueuedSeq).max? with
  | none => exact Nat.zero_le _
  | some high =>
      obtain ⟨change, hchange, rfl⟩ := List.mem_map.mp (List.max?_mem hmax)
      have hlt := h change hchange
      have hsucc := saturatingSucc_toNat change.enqueuedSeq
      change (saturatingSucc change.enqueuedSeq).toNat ≤ bound
      omega

/-- Short of the last number there is, it is above all that were handed out. -/
theorem lt_nextSeq (h : ∀ change ∈ queued, change.enqueuedSeq.toNat < 2 ^ 64 - 1) (hchange : change ∈ queued) :
    change.enqueuedSeq.toNat < (nextSeq queued).toNat := by
  unfold nextSeq
  cases hmax : (queued.map QueuedChange.enqueuedSeq).max? with
  | none =>
      rw [List.max?_eq_none_iff, List.map_eq_nil_iff] at hmax
      rw [hmax] at hchange
      exact absurd hchange List.not_mem_nil
  | some high =>
      obtain ⟨top, htop, rfl⟩ := List.mem_map.mp (List.max?_mem hmax)
      have hle : change.enqueuedSeq ≤ top.enqueuedSeq :=
        (List.max?_eq_some_iff.mp hmax).2 _ (List.mem_map_of_mem hchange)
      have hlt := h top htop
      have hsucc := saturatingSucc_toNat top.enqueuedSeq
      rw [UInt64.le_iff_toNat_le] at hle
      change change.enqueuedSeq.toNat < (saturatingSucc top.enqueuedSeq).toNat
      omega

end Numbers

/-- When the rows still queued were numbered in the order they were made, a world's replay in that order. -/
theorem Outbox.forWorld_eq {outbox : Outbox} {made : List QueuedChange}
    (horder : (made.filter (· ∈ outbox.rows)).Pairwise fun a b => a.enqueuedSeq.toNat < b.enqueuedSeq.toNat)
    (hmade : ∀ row ∈ outbox.rows, row ∈ made) (worldId : Uuid) :
    outbox.forWorld worldId = (made.filter (· ∈ outbox.rows)).filter fun row => row.worldId = worldId := by
  have hmem : ∀ row, row ∈ made.filter (· ∈ outbox.rows) ↔ row ∈ outbox.rows := by
    intro row
    rw [List.mem_filter, decide_eq_true_eq]
    exact ⟨And.right, fun h => ⟨hmade row h, h⟩⟩
  have hsorted : (outbox.forWorld worldId).Pairwise fun a b => a.enqueuedSeq.toNat ≤ b.enqueuedSeq.toNat := by
    have hlex := (SortBy.pairwise_le_sortBy
      (fun change : QueuedChange => toLex (change.worldId.toNat, change.enqueuedSeq.toNat)) outbox.all).sublist
        (List.filter_sublist (p := fun change => decide (change.worldId = worldId)))
    refine hlex.imp_of_mem fun {a b} ha hb hle => ?_
    have hworld : a.worldId.toNat = b.worldId.toNat := by
      rw [of_decide_eq_true (List.mem_filter.mp ha).2, of_decide_eq_true (List.mem_filter.mp hb).2]
    rw [Prod.Lex.toLex_le_toLex] at hle
    rcases hle with hlt | ⟨-, hle⟩
    · exact absurd hworld hlt.ne
    · exact hle
  have hstrict : (outbox.forWorld worldId).Pairwise fun a b => a.enqueuedSeq.toNat < b.enqueuedSeq.toNat := by
    have hne : (outbox.forWorld worldId).Pairwise fun a b => a ≠ b :=
      (outbox.nodup_forWorld worldId).of_map _
    refine (hsorted.and hne).imp_of_mem fun {a b} ha hb h => h.1.lt_of_ne fun heq => h.2 ?_
    have hrow {c : QueuedChange} (hc : c ∈ outbox.forWorld worldId) : c ∈ made.filter (· ∈ outbox.rows) :=
      (hmem c).mpr (Outbox.mem_forWorld.mp hc).1
    exact SortBy.eq_of_key_eq horder (hrow ha) (hrow hb) heq
  refine SortBy.eq_of_pairwise_lt hstrict
    (horder.sublist List.filter_sublist) fun row => ?_
  rw [Outbox.mem_forWorld, List.mem_filter, hmem, decide_eq_true_eq]

end ThunderForge.Reconcile
