import ThunderForge.Lore.Tree

/-! The cycle check of a move. The walk up gives the answer of a loop when it runs out of steps, so the check is
exact where the candidate is not too far below its root, or below the entry. -/

namespace ThunderForge.Lore

open ReadCommitted

section

variable (writes : Writes Key.Row) (db : Database) (entryId : Uuid)

/-- The walk answers no where it has left the tree, and had not met the entry. -/
theorem climb_alone (steps : Nat) (cursor : Option Uuid) :
    ∃ cycle, (climb entryId steps cursor).alone writes db = .ok (cycle, writes) ∧
      (cycle = false ↔ ∃ k < steps, cursor.bind (Forest.climb (parentOf (overlay writes db)) k) = none ∧
        ∀ i < k, cursor.bind (Forest.climb (parentOf (overlay writes db)) i) ≠ some entryId) := by
  induction steps generalizing cursor with
  | zero => exact ⟨true, rfl, by simp⟩
  | succ steps ih =>
      cases cursor with
      | none => exact ⟨false, rfl, iff_of_true rfl ⟨0, Nat.succ_pos _, rfl, by simp⟩⟩
      | some current =>
          by_cases hmet : current = entryId
          · subst hmet
            refine ⟨true, by rw [climb, if_pos rfl]; rfl, iff_of_false Bool.noConfusion ?_⟩
            rintro ⟨k, -, hend, hclear⟩
            cases k with
            | zero => cases hend
            | succ k => exact hclear 0 (Nat.succ_pos k) rfl
          · obtain ⟨cycle, halone, hcycle⟩ := ih (parentOf (overlay writes db) current)
            refine ⟨cycle, ?_, hcycle.trans ?_⟩
            · rw [climb, if_neg hmet]
              exact halone
            constructor
            · rintro ⟨k, hk, hend, hclear⟩
              refine ⟨k + 1, by omega, hend, fun i hi => ?_⟩
              cases i with
              | zero => exact fun h => hmet (Option.some.inj h)
              | succ i => exact hclear i (by omega)
            · rintro ⟨k, hk, hend, hclear⟩
              cases k with
              | zero => cases hend
              | succ k => exact ⟨k, by omega, hend, fun i hi => hclear (i + 1) (by omega)⟩

theorem wouldCycle_alone (candidateParent : Uuid) :
    ∃ cycle, (wouldCycle entryId candidateParent).alone writes db = .ok (cycle, writes) ∧
      (cycle = false ↔ ¬Forest.Reaches (parentOf (overlay writes db)) candidateParent entryId ∧
        Forest.climb (parentOf (overlay writes db)) (maxAncestorWalk - 1) candidateParent = none) := by
  obtain ⟨cycle, halone, hcycle⟩ := climb_alone writes db entryId maxAncestorWalk (some candidateParent)
  refine ⟨cycle, halone, hcycle.trans ?_⟩
  simp only [Option.bind_some]
  rw [Forest.reaches_iff_climb]
  constructor
  · rintro ⟨k, hk, hend, hclear⟩
    refine ⟨?_, Forest.climb_mono hend (Nat.le_pred_of_lt hk)⟩
    rintro ⟨i, hi⟩
    rcases lt_or_ge i k with hlt | hge
    · exact hclear i hlt hi
    · rw [Forest.climb_mono hend hge] at hi
      cases hi
  · rintro ⟨hclear, hend⟩
    exact ⟨maxAncestorWalk - 1, by decide, hend, fun i _ hi => hclear ⟨i, hi⟩⟩

end

/-- The check comes to an answer in every tree, loops or not. The answer is whether the candidate is the entry or
below it exactly where that is so, or the candidate's chain has fewer entries than the walk has steps. -/
theorem wouldCycle_exact_iff (db : Database) (entryId candidateParent : Uuid) :
    ∃ cycle, (wouldCycle entryId candidateParent).alone (fun _ => none) db = .ok (cycle, fun _ => none) ∧
      ((cycle = true ↔ Forest.Reaches (parentOf db) candidateParent entryId) ↔
        Forest.Reaches (parentOf db) candidateParent entryId ∨
          Forest.climb (parentOf db) (maxAncestorWalk - 1) candidateParent = none) := by
  obtain ⟨cycle, halone, hcycle⟩ := wouldCycle_alone (fun _ => none) db entryId candidateParent
  refine ⟨cycle, halone, ?_⟩
  rw [overlay_none] at hcycle
  cases cycle with
  | false =>
      obtain ⟨hclear, hend⟩ := hcycle.mp rfl
      exact iff_of_true (iff_of_false Bool.noConfusion hclear) (.inr hend)
  | true =>
      have hcycle : ¬(¬Forest.Reaches (parentOf db) candidateParent entryId ∧
          Forest.climb (parentOf db) (maxAncestorWalk - 1) candidateParent = none) :=
        fun h => Bool.noConfusion (hcycle.mpr h)
      rw [not_and_or, not_not] at hcycle
      constructor
      · intro hexact
        exact .inl (hexact.mp rfl)
      · rintro (hbelow | hend)
        · exact iff_of_true rfl hbelow
        · exact iff_of_true rfl (hcycle.resolve_right (not_not_intro hend))

section move

variable {wiki : Wiki} {caller : Caller} {db : Database} {entryId parentId : Uuid} {entry parent : LoreEntry}
  {writes : Writes Key.Row}

theorem loadEntry_alone {id : Uuid} (hrow : overlay writes db (.entry id) = some entry) (error : LoreError) :
    (loadEntry id error).alone writes db = .ok (entry, writes) := by
  change (Call.getOr (overlay writes db (.entry id)) error : Program LoreEntry).alone writes db = _
  rw [hrow]
  rfl

/-- An entry that is there goes under a parent that is there. -/
theorem setParent_alone (hentry : overlay writes db (.entry entryId) = some entry)
    (hparent : overlay writes db (.entry parentId) = some parent) :
    ∃ written, (setParent (fun _ _ => true) (fun db => if (db (.entry entryId)).isSome then [entryId] else [])
      (some parentId)).alone writes db = .ok ((), written) ∧
      overlay written db (.entry entryId) = some { entry with parentId := some parentId } := by
  have hexists : parentExists (some parentId) (overlay writes db) = true := by simp [parentExists, hparent]
  refine ⟨_, Call.alone_require_pos (by dsimp only; rw [hexists, Bool.or_true]) _, ?_⟩
  rw [overlay_record_of_mem]
  · rw [reparented, hentry]
    rfl
  · dsimp only
    rw [if_pos hexists, hentry]
    exact List.mem_singleton.mpr rfl

theorem checkParent_alone {cycle : Bool} (hparent : overlay writes db (.entry parentId) = some parent)
    (hworld : parent.worldId = entry.worldId)
    (hcycle : (wouldCycle entryId parentId).alone writes db = .ok (cycle, writes)) :
    (checkParent entryId entry (some parentId)).alone writes db =
      if cycle then .error .cycle else .ok ((), writes) := by
  unfold checkParent
  rw [Call.alone_bind_ok (loadEntry_alone hparent _), Call.alone_bind_ok (Call.alone_require_pos hworld _),
    Call.alone_bind_ok hcycle]
  cases cycle with
  | false => exact Call.alone_require_pos rfl _
  | true => exact Call.alone_require_neg Bool.noConfusion _

/-- A move that may be made comes to the check, and is refused by it or done. -/
theorem moveLoreEntry_alone (hpermits : wiki.permits caller entryId .editor = true)
    (hentry : db (.entry entryId) = some entry) (hrunning : wiki.paused entry.worldId = false)
    (hparent : db (.entry parentId) = some parent) (hworld : parent.worldId = entry.worldId) :
    (moveLoreEntry wiki caller entryId (some parentId)).alone (fun _ => none) db = .error .cycle ↔
      Forest.Reaches (parentOf db) parentId entryId ∨
        Forest.climb (parentOf db) (maxAncestorWalk - 1) parentId ≠ none := by
  obtain ⟨locked, hlock, hlocked⟩ : ∃ locked : Writes Key.Row,
      (lockWorldTree entry.worldId).alone (fun _ => none) db = .ok ((), locked) ∧ overlay locked db = db :=
    ⟨_, rfl, overlay_record_overlay _⟩
  obtain ⟨cycle, halone, hcycle⟩ := wouldCycle_alone locked db entryId parentId
  rw [hlocked] at hcycle
  have hparent' : overlay locked db (.entry parentId) = some parent := by rw [hlocked, hparent]
  have hentry' : overlay locked db (.entry entryId) = some entry := by rw [hlocked, hentry]
  have hcheck := checkParent_alone hparent' hworld halone
  unfold moveLoreEntry requireLorePermission refuseIfPaused
  have hread : overlay (fun _ => none) db (.entry entryId) = some entry := hentry
  rw [Call.alone_bind_ok (Call.alone_require_pos hpermits _), Call.alone_bind_ok (loadEntry_alone hread _),
    Call.alone_bind_ok (Call.alone_require_pos hrunning _), Call.alone_bind_ok hlock]
  cases cycle with
  | true =>
      refine iff_of_true (Call.alone_bind_error hcheck _) ?_
      by_contra hclear
      rw [not_or, not_not] at hclear
      exact Bool.noConfusion (hcycle.mpr hclear)
  | false =>
      obtain ⟨hclear, hend⟩ := hcycle.mp rfl
      obtain ⟨written, hset, hmoved⟩ := setParent_alone hentry' hparent'
      rw [Call.alone_bind_ok hcheck, Call.alone_bind_ok hset, Call.alone_bind_ok (loadEntry_alone hmoved _)]
      apply iff_of_false
      · intro h
        change Except.ok _ = Except.error _ at h
        cases h
      rintro (hbelow | hlong)
      · exact hclear hbelow
      · exact hlong hend

/-- Where the candidate is not too deep, a move that may be made is refused exactly if it would close a loop. -/
theorem moveLoreEntry_refused_iff (hforest : Forest.Acyclic (parentOf db))
    (hpermits : wiki.permits caller entryId .editor = true) (hentry : db (.entry entryId) = some entry)
    (hrunning : wiki.paused entry.worldId = false) (hparent : db (.entry parentId) = some parent)
    (hworld : parent.worldId = entry.worldId)
    (hend : Forest.climb (parentOf db) (maxAncestorWalk - 1) parentId = none) :
    (moveLoreEntry wiki caller entryId (some parentId)).alone (fun _ => none) db = .error .cycle ↔
      ¬Forest.Acyclic (Function.update (parentOf db) entryId (some parentId)) := by
  rw [moveLoreEntry_alone hpermits hentry hrunning hparent hworld, hforest.hang_iff, not_not, or_iff_left]
  exact not_not_intro hend

end move

/-- A chain of 256 entries, each under the one before it, and a root beside it. -/
def deepTree : Database
  | .entry id =>
    if id = 1 ∨ id = 1000 then some (emptyEntry "root" none)
    else if 2 ≤ id ∧ id ≤ 256 then some (emptyEntry "entry" (some (id - 1)))
    else none
  | .revision _ => none
  | .tree _ => ()

theorem parentOf_deepTree {id parentId : Uuid} (h : parentOf deepTree id = some parentId) :
    2 ≤ id ∧ id ≤ 256 ∧ parentId = id - 1 := by
  unfold parentOf deepTree at h
  dsimp only at h
  split_ifs at h with hroot hchain
  · cases h
  · exact ⟨hchain.1, hchain.2, (Option.some.inj h).symm⟩
  · cases h

theorem deepTree_acyclic : Forest.Acyclic (parentOf deepTree) := by
  apply Forest.Acyclic.of_rank BitVec.toNat
  intro id parentId h
  obtain ⟨hlow, -, rfl⟩ := parentOf_deepTree h
  bv_omega

/-- The root beside the chain is moved under its last entry. -/
theorem deep_candidate_refused :
    Forest.Acyclic (parentOf deepTree) ∧ ¬Forest.Reaches (parentOf deepTree) 256 1000 ∧
      (wouldCycle 1000 256).alone (fun _ => none) deepTree = .ok (true, fun _ => none) ∧
      (moveLoreEntry smallWiki loreKeeper 1000 (some 256)).alone (fun _ => none) deepTree = .error .cycle := by
  have hclear : ¬Forest.Reaches (parentOf deepTree) 256 1000 := by
    intro h
    rcases Relation.ReflTransGen.cases_tail h with hself | ⟨id, -, hstep⟩
    · exact absurd hself (by decide)
    · obtain ⟨hlow, hhigh, hid⟩ := parentOf_deepTree hstep
      bv_omega
  have hlong : Forest.climb (parentOf deepTree) (maxAncestorWalk - 1) 256 ≠ none := by
    decide +kernel
  obtain ⟨cycle, halone, hcycle⟩ := wouldCycle_alone (fun _ => none) deepTree 1000 256
  refine ⟨deepTree_acyclic, hclear, ?_, ?_⟩
  · cases cycle with
    | true => exact halone
    | false => exact absurd (hcycle.mp rfl).2 hlong
  · have hroot : deepTree (.entry 1000) = some (emptyEntry "root" none) := rfl
    have hlast : deepTree (.entry 256) = some (emptyEntry "entry" (some (256 - 1))) := rfl
    exact (moveLoreEntry_alone rfl hroot rfl hlast rfl).mpr (.inr hlong)

end ThunderForge.Lore
