import ThunderForge.Lib.Forest
import ThunderForge.Mirror.Paths

/-! The parents that count: an entry keeps its parent exactly when walking up from it comes to an end
within the set. Hence the walks of `depth_of` end too, and leaving out an entry that is nobody's parent
changes no other entry's parent. -/

namespace ThunderForge.Mirror

open Forest

/-- The parent an entry names, where it is in the set. -/
def namedParent (nodes : List EntryNode) (id : Uuid) : Option Uuid :=
  ((byId nodes id).bind EntryNode.parentId).filter fun parentId => (byId nodes parentId).isSome

variable {nodes : List EntryNode} {id parent : Uuid}

theorem byId_eq_some {node : EntryNode} (h : byId nodes id = some node) : node ∈ nodes ∧ node.id = id :=
  ⟨List.mem_of_find?_eq_some h, by simpa using List.find?_some h⟩

theorem isSome_byId : (byId nodes id).isSome ↔ id ∈ nodes.map EntryNode.id := by
  simp [byId, List.find?_isSome]

theorem namedParent_eq_some :
    namedParent nodes id = some parent ↔
      (byId nodes id).bind EntryNode.parentId = some parent ∧ (byId nodes parent).isSome := by
  rw [namedParent, Option.filter_eq_some_iff]

/-- The walk's loop answers whether it reaches the end of the chain in time without coming back. -/
theorem walkEnds_iff (hid : (byId nodes id).isSome) (left : Nat) (cursor : Uuid) :
    walkEnds nodes id left cursor = true ↔
      ∃ k ≤ left, climb (namedParent nodes) (k + 1) cursor = none ∧
        ∀ i < k, climb (namedParent nodes) (i + 1) cursor ≠ some id := by
  induction left generalizing cursor with
  | zero =>
      unfold walkEnds
      cases hparent : (byId nodes cursor).bind EntryNode.parentId with
      | none => simp [climb, namedParent, hparent]
      | some next =>
          by_cases hnext : next = id
          · simp [climb, namedParent, hparent, hnext, hid]
          · cases hin : (byId nodes next).isSome <;> simp [climb, namedParent, hparent, hnext, hin]
  | succ left ih =>
      unfold walkEnds
      cases hparent : (byId nodes cursor).bind EntryNode.parentId with
      | none =>
          have hnone : namedParent nodes cursor = none := by rw [namedParent, hparent, Option.filter_none]
          exact iff_of_true rfl ⟨0, Nat.zero_le _, by rw [climb, hnone, Option.bind_none], by simp⟩
      | some next =>
          cases hin : (byId nodes next).isSome with
          | false =>
              have hne : next ≠ id := by
                rintro rfl
                rw [hin] at hid
                cases hid
              have hnone : namedParent nodes cursor = none := by
                rw [namedParent, hparent, Option.filter_some, hin]
                rfl
              refine iff_of_true (by simp [hne, hin]) ⟨0, Nat.zero_le _, ?_, by simp⟩
              rw [climb, hnone, Option.bind_none]
          | true =>
              have hsome : namedParent nodes cursor = some next := namedParent_eq_some.mpr ⟨hparent, hin⟩
              have hstep (k : Nat) : climb (namedParent nodes) (k + 1) cursor =
                  climb (namedParent nodes) k next := by rw [climb, hsome, Option.bind_some]
              by_cases hne : next = id
              · subst hne
                refine iff_of_false (by simp) ?_
                rintro ⟨k, -, hend, hback⟩
                cases k with
                | zero => rw [hstep] at hend; cases hend
                | succ k => exact hback 0 (Nat.succ_pos k) (hstep 0)
              · simp only [hne, if_false, hin, if_true, ih]
                constructor
                · rintro ⟨k, hk, hend, hback⟩
                  refine ⟨k + 1, Nat.succ_le_succ hk, by rw [hstep, hend], fun i hi => ?_⟩
                  rw [hstep]
                  cases i with
                  | zero => exact fun h => hne (Option.some.inj h)
                  | succ i => exact hback i (Nat.lt_of_succ_lt_succ hi)
                · rintro ⟨k, hk, hend, hback⟩
                  rw [hstep] at hend
                  cases k with
                  | zero => cases hend
                  | succ k =>
                      refine ⟨k, Nat.le_of_succ_le_succ hk, hend, fun i hi => ?_⟩
                      rw [← hstep]
                      exact hback (i + 1) (Nat.succ_lt_succ hi)

theorem namedParent_closed : ∀ id parent, namedParent nodes id = some parent → parent ∈ nodes.map EntryNode.id :=
  fun _ _ h => isSome_byId.mp (namedParent_eq_some.mp h).2

/-- An entry keeps the parent it names exactly when the walk up from it ends. -/
theorem resolveParents_eq_some :
    resolveParents nodes id = some parent ↔
      namedParent nodes id = some parent ∧ Ends (namedParent nodes) id := by
  unfold resolveParents
  rw [Option.bind_eq_some_iff]
  constructor
  · rintro ⟨node, hnode, hkept⟩
    obtain ⟨-, rfl⟩ := byId_eq_some hnode
    rw [Option.filter_eq_some_iff] at hkept
    obtain ⟨hparent, hkept⟩ := hkept
    simp only [Bool.and_eq_true, decide_eq_true_eq] at hkept
    obtain ⟨⟨-, hin⟩, hwalk⟩ := hkept
    have hnamed : namedParent nodes node.id = some parent :=
      namedParent_eq_some.mpr ⟨by rw [hnode, Option.bind_some, hparent], hin⟩
    obtain ⟨k, -, hend, -⟩ := (walkEnds_iff (by rw [hnode]; rfl) _ _).mp hwalk
    exact ⟨hnamed, k + 2, by rw [climb, hnamed, Option.bind_some, hend]⟩
  · rintro ⟨hnamed, hends⟩
    obtain ⟨hparent, hin⟩ := namedParent_eq_some.mp hnamed
    obtain ⟨node, hnode, hown⟩ := Option.bind_eq_some_iff.mp hparent
    obtain ⟨hmem, rfl⟩ := byId_eq_some hnode
    have hup (k : Nat) : climb (namedParent nodes) (k + 1) node.id = climb (namedParent nodes) k parent := by
      rw [climb, hnamed, Option.bind_some]
    have hback (i : Nat) : climb (namedParent nodes) i parent ≠ some node.id := by
      rw [← hup]
      exact climb_ne hends (Nat.succ_pos i) rfl
    have hlength := climb_length hends (List.mem_map_of_mem hmem) namedParent_closed
    refine ⟨node, hnode, Option.filter_eq_some_iff.mpr ⟨hown, ?_⟩⟩
    simp only [Bool.and_eq_true, decide_eq_true_eq]
    refine ⟨⟨fun heq => hback 0 (congrArg some heq), hin⟩, ?_⟩
    refine (walkEnds_iff (by rw [hnode]; rfl) _ _).mpr ⟨nodes.length, le_rfl, ?_, fun i _ => hback (i + 1)⟩
    rw [← hup]
    exact climb_mono hlength (by rw [List.length_map]; omega)

/-- Walking up by the parents that count always ends, within as many steps as there are entries. -/
theorem climb_resolveParents (hid : id ∈ nodes.map EntryNode.id) :
    climb (resolveParents nodes) nodes.length id = none := by
  have hends (k : Nat) (id : Uuid) (h : climb (namedParent nodes) k id = none) :
      climb (resolveParents nodes) k id = none := by
    induction k generalizing id with
    | zero => cases h
    | succ k ih =>
        rw [climb]
        cases hparent : resolveParents nodes id with
        | none => rfl
        | some parent =>
            rw [climb, (resolveParents_eq_some.mp hparent).1, Option.bind_some] at h
            exact ih parent h
  have hend : Ends (resolveParents nodes) id := by
    cases hparent : resolveParents nodes id with
    | none => exact ⟨1, by rw [climb, hparent, Option.bind_none]⟩
    | some parent =>
        obtain ⟨k, hk⟩ := (resolveParents_eq_some.mp hparent).2
        exact ⟨k, hends k id hk⟩
  have hlength := climb_length hend hid fun b c h => namedParent_closed b c (resolveParents_eq_some.mp h).1
  rwa [List.length_map] at hlength

/-- The chain of `depth_of` is the whole chain: more fuel makes no difference. -/
theorem chainTo_of_climb {parents : Uuid → Option Uuid} (memo : Uuid → Option Nat) {fuel : Nat}
    (h : climb parents fuel id = none) (extra : Nat) :
    chainTo parents memo (fuel + extra) id = chainTo parents memo fuel id := by
  induction fuel generalizing id with
  | zero => cases h
  | succ fuel ih =>
      rw [Nat.succ_add, chainTo, chainTo]
      cases memo id with
      | some depth => rfl
      | none =>
          cases hparent : parents id with
          | none => rfl
          | some parent =>
              rw [climb, hparent, Option.bind_some] at h
              simp only [ih h]

theorem chainTo_complete (memo : Uuid → Option Nat) (hid : id ∈ nodes.map EntryNode.id) (extra : Nat) :
    chainTo (resolveParents nodes) memo (nodes.length + extra) id =
      chainTo (resolveParents nodes) memo nodes.length id :=
  chainTo_of_climb memo (climb_resolveParents hid) extra

end ThunderForge.Mirror
