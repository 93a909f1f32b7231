import ThunderForge.Mirror.Parents

/-! The depths that `depth_of` numbers. An entry asked about once its parent's depth is known gets that very
depth, not the next: a depth tells that no entry is above its parent, and how much deeper it is counted depends
on the order of the list. -/

namespace ThunderForge.Mirror

open Forest

section

variable {parents : Uuid → Option Uuid} {memo : Uuid → Option Nat} {fuel : Nat} {id parent : Uuid} {depth : Nat}

/-! One question. -/

theorem depthOf_known (h : memo id = some depth) : depthOf fuel parents memo id = memo := by
  rw [depthOf, if_pos (by rw [h]; rfl)]

/-- A chain is numbered from its top, the entry that was asked about last. -/
def number (base : Nat) (memo : Uuid → Option Nat) (chain : List Uuid) : Uuid → Option Nat :=
  chain.reverse.zipIdx.foldl (fun memo entry => Function.update memo entry.1 (some (base + entry.2))) memo

theorem number_cons (base : Nat) (memo : Uuid → Option Nat) (chain : List Uuid) :
    number base memo (id :: chain) = Function.update (number base memo chain) id (some (base + chain.length)) := by
  rw [number, List.reverse_cons, List.zipIdx_append, List.foldl_append, List.length_reverse]
  simp only [List.zipIdx_singleton, List.foldl_cons, List.foldl_nil, Nat.zero_add]
  rfl

theorem depthOf_unknown (h : memo id = none) {chain : List Uuid} {base : Nat}
    (hchain : chainTo parents memo fuel id = (chain, base)) :
    depthOf fuel parents memo id = number base memo chain := by
  rw [depthOf, if_neg (by rw [h]; decide), hchain]
  rfl

theorem depthOf_root (hend : climb parents fuel id = none) (hmemo : memo id = none) (hparent : parents id = none) :
    depthOf fuel parents memo id = Function.update memo id (some 0) := by
  cases fuel with
  | zero => cases hend
  | succ fuel =>
      have hchain : chainTo parents memo (fuel + 1) id = ([id], 0) := by simp only [chainTo, hmemo, hparent]
      rw [depthOf_unknown hmemo hchain]
      exact number_cons 0 memo []

theorem depthOf_child_known (hend : climb parents fuel id = none) (hmemo : memo id = none)
    (hparent : parents id = some parent) (hknown : memo parent = some depth) :
    depthOf fuel parents memo id = Function.update memo id (some depth) := by
  cases fuel with
  | zero => cases hend
  | succ fuel =>
      rw [climb, hparent, Option.bind_some] at hend
      have habove : chainTo parents memo fuel parent = ([], depth) := by
        cases fuel with
        | zero => cases hend
        | succ fuel => simp only [chainTo, hknown]
      have hchain : chainTo parents memo (fuel + 1) id = ([id], depth) := by
        simp only [chainTo, hmemo, hparent, habove]
      rw [depthOf_unknown hmemo hchain]
      exact number_cons depth memo []

variable (memo) in
theorem depthOf_child (hend : climb parents fuel id = none) (hmemo : memo id = none)
    (hparent : parents id = some parent) (hunknown : memo parent = none) :
    ∃ depth, depthOf fuel parents memo parent parent = some depth ∧
      depthOf fuel parents memo id = Function.update (depthOf fuel parents memo parent) id (some (depth + 1)) := by
  cases fuel with
  | zero => cases hend
  | succ fuel =>
      rw [climb, hparent, Option.bind_some] at hend
      obtain ⟨chain, base, habove⟩ : ∃ chain base, chainTo parents memo fuel parent = (parent :: chain, base) := by
        cases fuel with
        | zero => cases hend
        | succ fuel =>
            rw [chainTo, hunknown]
            cases parents parent with
            | none => exact ⟨[], 0, rfl⟩
            | some above => exact ⟨_, _, rfl⟩
      have hchain : chainTo parents memo (fuel + 1) id = (id :: parent :: chain, base) := by
        simp only [chainTo, hmemo, hparent, habove]
      have hown : depthOf (fuel + 1) parents memo parent = number base memo (parent :: chain) :=
        depthOf_unknown hunknown ((chainTo_of_climb memo hend 1).trans habove)
      refine ⟨base + chain.length, by rw [hown, number_cons, Function.update_self], ?_⟩
      rw [depthOf_unknown hmemo hchain, number_cons, hown, List.length_cons, Nat.add_assoc]

theorem not_reaches_of_parent (hend : Ends parents id) (hparent : parents id = some parent) :
    ¬Reaches parents parent id := by
  intro h
  obtain ⟨k, hk⟩ := reaches_iff_climb.mp h
  refine climb_ne hend (Nat.succ_pos k) rfl ?_
  rw [climb, hparent, Option.bind_some, hk]

/-- A question changes what is known of the entries on the way up alone. -/
theorem depthOf_of_not_reaches (hend : climb parents fuel id = none) {other : Uuid}
    (h : ¬Reaches parents id other) : depthOf fuel parents memo id other = memo other := by
  have hwalk (k : Nat) (id : Uuid) (hk : climb parents k id = none) (hle : k ≤ fuel) (h : ¬Reaches parents id other) :
      depthOf fuel parents memo id other = memo other := by
    induction k generalizing id with
    | zero => cases hk
    | succ k ih =>
        have hend := climb_mono hk hle
        have hne : other ≠ id := by
          rintro rfl
          exact h .refl
        cases hmemo : memo id with
        | some depth => rw [depthOf_known hmemo]
        | none =>
            cases hparent : parents id with
            | none => rw [depthOf_root hend hmemo hparent, Function.update_of_ne hne]
            | some parent =>
                rw [climb, hparent, Option.bind_some] at hk
                cases hknown : memo parent with
                | some depth => rw [depthOf_child_known hend hmemo hparent hknown, Function.update_of_ne hne]
                | none =>
                    obtain ⟨depth, -, hstep⟩ := depthOf_child memo hend hmemo hparent hknown
                    rw [hstep, Function.update_of_ne hne]
                    exact ih parent hk (Nat.le_of_succ_le hle) fun hreaches => h (.head hparent hreaches)
  exact hwalk fuel id hend le_rfl h

/-- What a question keeps when the numbering of each entry on the way does: of a root with zero, of a child with
its parent's depth or the next. -/
theorem depthOf_induction {I : (Uuid → Option Nat) → Prop} (hend : climb parents fuel id = none) (hinit : I memo)
    (hroot : ∀ memo id, I memo → memo id = none → parents id = none → I (Function.update memo id (some 0)))
    (hchild : ∀ memo id parent depth, I memo → memo id = none → parents id = some parent →
      memo parent = some depth → ∀ next, depth ≤ next → I (Function.update memo id (some next))) :
    I (depthOf fuel parents memo id) := by
  have hwalk (k : Nat) (id : Uuid) (hk : climb parents k id = none) (hle : k ≤ fuel) :
      I (depthOf fuel parents memo id) := by
    induction k generalizing id with
    | zero => cases hk
    | succ k ih =>
        have hend := climb_mono hk hle
        cases hmemo : memo id with
        | some depth => rwa [depthOf_known hmemo]
        | none =>
            cases hparent : parents id with
            | none =>
                rw [depthOf_root hend hmemo hparent]
                exact hroot memo id hinit hmemo hparent
            | some parent =>
                have habove := not_reaches_of_parent ⟨k + 1, hk⟩ hparent
                rw [climb, hparent, Option.bind_some] at hk
                cases hknown : memo parent with
                | some depth =>
                    rw [depthOf_child_known hend hmemo hparent hknown]
                    exact hchild memo id parent depth hinit hmemo hparent hknown depth le_rfl
                | none =>
                    obtain ⟨depth, hown, hstep⟩ := depthOf_child memo hend hmemo hparent hknown
                    have hfresh : depthOf fuel parents memo parent id = none := by
                      rw [depthOf_of_not_reaches (climb_mono hk (Nat.le_of_succ_le hle)) habove, hmemo]
                    rw [hstep]
                    exact hchild _ id parent depth (ih parent hk (Nat.le_of_succ_le hle)) hfresh hparent hown
                      (depth + 1) (Nat.le_succ depth)
  exact hwalk fuel id hend le_rfl

theorem depthOf_kept (hend : climb parents fuel id = none) {other : Uuid} (h : memo other = some depth) :
    depthOf fuel parents memo id other = some depth := by
  have hne {memo : Uuid → Option Nat} {id : Uuid} (hother : memo other = some depth) (hid : memo id = none) :
      other ≠ id := by
    rintro rfl
    rw [hid] at hother
    cases hother
  refine depthOf_induction (I := fun memo => memo other = some depth) hend h ?_ ?_
  · intro memo id hother hid _
    rwa [Function.update_of_ne (hne hother hid)]
  · intro memo id _ _ hother hid _ _ _ _
    rwa [Function.update_of_ne (hne hother hid)]

variable (memo) in
theorem isSome_depthOf (hend : climb parents fuel id = none) : (depthOf fuel parents memo id id).isSome := by
  cases hmemo : memo id with
  | some depth =>
      rw [depthOf_known hmemo, hmemo]
      rfl
  | none =>
      cases hparent : parents id with
      | none =>
          rw [depthOf_root hend hmemo hparent, Function.update_self]
          rfl
      | some parent =>
          cases hknown : memo parent with
          | some depth =>
              rw [depthOf_child_known hend hmemo hparent hknown, Function.update_self]
              rfl
          | none =>
              obtain ⟨depth, -, hstep⟩ := depthOf_child memo hend hmemo hparent hknown
              rw [hstep, Function.update_self]
              rfl

end

/-! The questions about all entries, one after the other. -/

section

variable {nodes : List EntryNode} {memo : Uuid → Option Nat} {ids : List Uuid} {id parent : Uuid} {depth : Nat}

/-- What is known once these entries have been asked about. -/
def asked (nodes : List EntryNode) (memo : Uuid → Option Nat) (ids : List Uuid) : Uuid → Option Nat :=
  ids.foldl (depthOf nodes.length (resolveParents nodes)) memo

theorem asked_cons (memo : Uuid → Option Nat) (id : Uuid) (ids : List Uuid) :
    asked nodes memo (id :: ids) = asked nodes (depthOf nodes.length (resolveParents nodes) memo id) ids := rfl

theorem asked_induction {I : (Uuid → Option Nat) → Prop} (hids : ids ⊆ nodes.map EntryNode.id) (hinit : I memo)
    (hroot : ∀ memo id, I memo → memo id = none → resolveParents nodes id = none →
      I (Function.update memo id (some 0)))
    (hchild : ∀ memo id parent depth, I memo → memo id = none → resolveParents nodes id = some parent →
      memo parent = some depth → ∀ next, depth ≤ next → I (Function.update memo id (some next))) :
    I (asked nodes memo ids) := by
  induction ids generalizing memo with
  | nil => exact hinit
  | cons id ids ih =>
      obtain ⟨hid, hrest⟩ := List.cons_subset.mp hids
      rw [asked_cons]
      exact ih hrest (depthOf_induction (climb_resolveParents hid) hinit hroot hchild)

theorem asked_kept (hids : ids ⊆ nodes.map EntryNode.id) (h : memo id = some depth) :
    asked nodes memo ids id = some depth := by
  induction ids generalizing memo with
  | nil => exact h
  | cons other ids ih =>
      obtain ⟨hother, hrest⟩ := List.cons_subset.mp hids
      rw [asked_cons]
      exact ih hrest (depthOf_kept (climb_resolveParents hother) h)

variable (memo) in
theorem isSome_asked (hids : ids ⊆ nodes.map EntryNode.id) (hid : id ∈ ids) : (asked nodes memo ids id).isSome := by
  induction ids generalizing memo with
  | nil => cases hid
  | cons other ids ih =>
      obtain ⟨hother, hrest⟩ := List.cons_subset.mp hids
      rw [asked_cons]
      rcases List.mem_cons.mp hid with rfl | hid
      · obtain ⟨depth, hdepth⟩ := Option.isSome_iff_exists.mp
          (isSome_depthOf memo (climb_resolveParents hother))
        rw [asked_kept hrest hdepth]
        rfl
      · exact ih _ hrest hid

/-- The depth an entry is counted as. -/
def depthIn (nodes : List EntryNode) (id : Uuid) : Nat := (depths nodes id).getD 0

theorem depths_eq_some (hid : id ∈ nodes.map EntryNode.id) : depths nodes id = some (depthIn nodes id) := by
  obtain ⟨depth, hdepth⟩ := Option.isSome_iff_exists.mp
    (isSome_asked (fun _ => none) (List.Subset.refl _) hid)
  have hsome : depths nodes id = some depth := hdepth
  rw [depthIn, hsome, Option.getD_some]

/-- A root is at the top. -/
theorem depthIn_root (hid : id ∈ nodes.map EntryNode.id) (hroot : resolveParents nodes id = none) :
    depthIn nodes id = 0 := by
  have hzero : ∀ depth, depths nodes id = some depth → depth = 0 := by
    refine asked_induction (I := fun memo => ∀ depth, memo id = some depth → depth = 0) (List.Subset.refl _)
      (fun _ h => nomatch h) ?_ ?_
    · intro memo other hmemo _ _ depth hdepth
      by_cases hother : id = other
      · rw [hother, Function.update_self] at hdepth
        exact (Option.some.inj hdepth).symm
      · rw [Function.update_of_ne hother] at hdepth
        exact hmemo depth hdepth
    · intro memo other above _ hmemo _ habove _ _ _ depth hdepth
      have hother : id ≠ other := by
        rintro rfl
        rw [hroot] at habove
        cases habove
      rw [Function.update_of_ne hother] at hdepth
      exact hmemo depth hdepth
  exact hzero _ (depths_eq_some hid)

/-- No entry is counted above its parent. -/
theorem depthIn_parent_le (hid : id ∈ nodes.map EntryNode.id) (hparent : resolveParents nodes id = some parent) :
    depthIn nodes parent ≤ depthIn nodes id := by
  have hbelow : ∀ depth, depths nodes id = some depth → ∃ above, depths nodes parent = some above ∧ above ≤ depth := by
    refine asked_induction
      (I := fun memo => ∀ depth, memo id = some depth → ∃ above, memo parent = some above ∧ above ≤ depth)
      (List.Subset.refl _) (fun _ h => nomatch h) ?_ ?_
    · intro memo other hmemo hfresh hroot depth hdepth
      have hother : id ≠ other := by
        rintro rfl
        rw [hroot] at hparent
        cases hparent
      rw [Function.update_of_ne hother] at hdepth
      obtain ⟨above, habove, hle⟩ := hmemo depth hdepth
      have hne : parent ≠ other := by
        rintro rfl
        rw [hfresh] at habove
        cases habove
      exact ⟨above, by rwa [Function.update_of_ne hne], hle⟩
    · intro memo other above known hmemo hfresh habove hknown next hnext depth hdepth
      have hne {id : Uuid} {depth : Nat} (h : memo id = some depth) : id ≠ other := by
        rintro rfl
        rw [hfresh] at h
        cases h
      by_cases hother : id = other
      · subst hother
        rw [hparent, Option.some.injEq] at habove
        subst habove
        rw [Function.update_self, Option.some.injEq] at hdepth
        exact ⟨known, by rwa [Function.update_of_ne (hne hknown)], hdepth ▸ hnext⟩
      · rw [Function.update_of_ne hother] at hdepth
        obtain ⟨above', habove', hle⟩ := hmemo depth hdepth
        exact ⟨above', by rwa [Function.update_of_ne (hne habove')], hle⟩
  obtain ⟨above, habove, hle⟩ := hbelow _ (depths_eq_some hid)
  rwa [depthIn, habove, Option.getD_some]

/-! Two orders to list the entries in. -/

theorem ends_resolveParents (hid : id ∈ nodes.map EntryNode.id) : Ends (resolveParents nodes) id :=
  ⟨nodes.length, climb_resolveParents hid⟩

/-- A child listed right after its parent is counted as deep as the parent. -/
theorem depthIn_after_parent {above below : EntryNode} {rest : List EntryNode}
    (hparent : resolveParents (above :: below :: rest) below.id = some above.id) :
    depthIn (above :: below :: rest) below.id = depthIn (above :: below :: rest) above.id := by
  set nodes := above :: below :: rest with hnodes
  have habove : above.id ∈ nodes.map EntryNode.id := by simp [hnodes]
  have hbelow : below.id ∈ nodes.map EntryNode.id := by simp [hnodes]
  have hrest : rest.map EntryNode.id ⊆ nodes.map EntryNode.id := by simp [hnodes]
  have hne : above.id ≠ below.id := by
    intro heq
    exact not_reaches_of_parent (ends_resolveParents hbelow) hparent (heq ▸ .refl)
  obtain ⟨depth, hdepth⟩ := Option.isSome_iff_exists.mp
    (isSome_depthOf (fun _ => none) (climb_resolveParents habove))
  have hfresh : depthOf nodes.length (resolveParents nodes) (fun _ => none) above.id below.id = none :=
    depthOf_of_not_reaches (climb_resolveParents habove)
      (not_reaches_of_parent (ends_resolveParents hbelow) hparent)
  have hasked : depths nodes = asked nodes (Function.update
      (depthOf nodes.length (resolveParents nodes) (fun _ => none) above.id) below.id (some depth))
      (rest.map EntryNode.id) := by
    rw [← depthOf_child_known (climb_resolveParents hbelow) hfresh hparent hdepth]
    rfl
  have hdeep : depths nodes below.id = some depth := by
    rw [hasked]
    exact asked_kept hrest (Function.update_self _ _ _)
  have hhigh : depths nodes above.id = some depth := by
    rw [hasked]
    exact asked_kept hrest (by rwa [Function.update_of_ne hne])
  rw [depthIn, depthIn, hdeep, hhigh]

/-- In this order every parent comes before its children, or has been seen. -/
def ParentsFirst (parents : Uuid → Option Uuid) : List Uuid → List Uuid → Prop
  | _, [] => True
  | seen, id :: ids => (∀ parent, parents id = some parent → parent ∈ seen) ∧ ParentsFirst parents (id :: seen) ids

/-- Asking about one entry of the unknown numbers its way up, from zero. -/
theorem depthOf_first (hid : id ∈ nodes.map EntryNode.id) :
    ∃ depth, depthOf nodes.length (resolveParents nodes) (fun _ => none) id id = some depth ∧
      (resolveParents nodes id = none ↔ depth = 0) ∧
      ∀ other above, depthOf nodes.length (resolveParents nodes) (fun _ => none) id other = some above →
        other = id ∨ above < depth := by
  have hwalk (k : Nat) (id : Uuid) (hk : climb (resolveParents nodes) k id = none) (hle : k ≤ nodes.length) :
      ∃ depth, depthOf nodes.length (resolveParents nodes) (fun _ => none) id id = some depth ∧
        (resolveParents nodes id = none ↔ depth = 0) ∧
        ∀ other above, depthOf nodes.length (resolveParents nodes) (fun _ => none) id other = some above →
          other = id ∨ above < depth := by
    induction k generalizing id with
    | zero => cases hk
    | succ k ih =>
        have hend := climb_mono hk hle
        cases hparent : resolveParents nodes id with
        | none =>
            rw [depthOf_root hend rfl hparent]
            refine ⟨0, Function.update_self _ _ _, by simp, fun other above hother => ?_⟩
            by_cases hsame : other = id
            · exact Or.inl hsame
            · rw [Function.update_of_ne hsame] at hother
              cases hother
        | some parent =>
            rw [climb, hparent, Option.bind_some] at hk
            obtain ⟨depth, hdepth, -, hbelow⟩ := ih parent hk (Nat.le_of_succ_le hle)
            obtain ⟨depth', hdepth', hstep⟩ := depthOf_child (fun _ => none) hend rfl hparent rfl
            rw [hdepth, Option.some.injEq] at hdepth'
            subst hdepth'
            rw [hstep]
            refine ⟨depth + 1, Function.update_self _ _ _, by simp, fun other above hother => ?_⟩
            by_cases hsame : other = id
            · exact Or.inl hsame
            · rw [Function.update_of_ne hsame] at hother
              rcases hbelow other above hother with rfl | hlt
              · rw [hdepth, Option.some.injEq] at hother
                exact Or.inr (hother ▸ Nat.lt_succ_self above)
              · exact Or.inr (Nat.lt_succ_of_lt hlt)
  exact hwalk nodes.length id (climb_resolveParents hid) le_rfl

/-- With one entry asked about first and the others from the top, only those below the first are counted as
deep as it, unless it is a root. -/
theorem asked_parentsFirst {first : Uuid} {deepest : Nat} {seen : List Uuid} (hids : ids ⊆ nodes.map EntryNode.id)
    (horder : ParentsFirst (resolveParents nodes) seen ids) (hseen : ∀ id ∈ seen, (memo id).isSome)
    (hmemo : ∀ id depth, memo id = some depth →
      Reaches (resolveParents nodes) id first ∨ depth < deepest ∨ depth = 0 ∧ deepest = 0) :
    ∀ id depth, asked nodes memo ids id = some depth →
      Reaches (resolveParents nodes) id first ∨ depth < deepest ∨ depth = 0 ∧ deepest = 0 := by
  induction ids generalizing memo seen with
  | nil => exact hmemo
  | cons id ids ih =>
      obtain ⟨hid, hrest⟩ := List.cons_subset.mp hids
      obtain ⟨hparentSeen, hlater⟩ := horder
      have hend := climb_resolveParents hid
      rw [asked_cons]
      refine ih hrest hlater ?_ ?_
      · intro other hother
        rcases List.mem_cons.mp hother with rfl | hother
        · exact isSome_depthOf _ hend
        · obtain ⟨depth, hdepth⟩ := Option.isSome_iff_exists.mp (hseen other hother)
          rw [depthOf_kept hend hdepth]
          rfl
      · cases hknown : memo id with
        | some depth =>
            rw [depthOf_known hknown]
            exact hmemo
        | none =>
            intro other depth hdepth
            cases hparent : resolveParents nodes id with
            | none =>
                rw [depthOf_root hend hknown hparent] at hdepth
                by_cases hsame : other = id
                · rw [hsame, Function.update_self, Option.some.injEq] at hdepth
                  rw [← hdepth]
                  rcases Nat.eq_zero_or_pos deepest with hzero | hpos
                  · exact Or.inr (Or.inr ⟨rfl, hzero⟩)
                  · exact Or.inr (Or.inl hpos)
                · rw [Function.update_of_ne hsame] at hdepth
                  exact hmemo other depth hdepth
            | some parent =>
                obtain ⟨above, habove⟩ := Option.isSome_iff_exists.mp (hseen parent (hparentSeen parent hparent))
                rw [depthOf_child_known hend hknown hparent habove] at hdepth
                by_cases hsame : other = id
                · rw [hsame, Function.update_self, Option.some.injEq] at hdepth
                  rw [hsame, ← hdepth]
                  exact (hmemo parent above habove).imp_left fun hreaches => .head hparent hreaches
                · rw [Function.update_of_ne hsame] at hdepth
                  exact hmemo other depth hdepth

/-- An entry that is not below the first of such a list is counted less deep than it, or as deep when it is a
root. -/
theorem depthIn_parentsFirst {first : EntryNode} {rest : List EntryNode}
    (horder : ParentsFirst (resolveParents (first :: rest)) [first.id] (rest.map EntryNode.id))
    (hid : id ∈ (first :: rest).map EntryNode.id)
    (hbelow : ¬Reaches (resolveParents (first :: rest)) id first.id) :
    depthIn (first :: rest) id < depthIn (first :: rest) first.id ∨
      resolveParents (first :: rest) first.id = none ∧ depthIn (first :: rest) id = 0 := by
  have hfirst : first.id ∈ (first :: rest).map EntryNode.id := by simp
  have hrest : rest.map EntryNode.id ⊆ (first :: rest).map EntryNode.id := by simp
  obtain ⟨deepest, hdeepest, hroot, hway⟩ := depthOf_first hfirst
  have hasked : depths (first :: rest) = asked (first :: rest)
      (depthOf (first :: rest).length (resolveParents (first :: rest)) (fun _ => none) first.id)
      (rest.map EntryNode.id) := rfl
  have hall : ∀ id depth, depths (first :: rest) id = some depth →
      Reaches (resolveParents (first :: rest)) id first.id ∨ depth < deepest ∨ depth = 0 ∧ deepest = 0 := by
    rw [hasked]
    have hseen : ∀ id ∈ [first.id], (depthOf (first :: rest).length (resolveParents (first :: rest))
        (fun _ => none) first.id id).isSome := by
      intro id hmem
      rw [List.mem_singleton.mp hmem, hdeepest]
      rfl
    refine asked_parentsFirst hrest horder hseen fun other depth hother => ?_
    rcases hway other depth hother with rfl | hlt
    · exact Or.inl .refl
    · exact Or.inr (Or.inl hlt)
  have hown : depths (first :: rest) first.id = some deepest := by
    rw [hasked]
    exact asked_kept hrest hdeepest
  have hdepth : depthIn (first :: rest) first.id = deepest := by rw [depthIn, hown, Option.getD_some]
  rw [hdepth]
  rcases hall id _ (depths_eq_some hid) with hreaches | hlt | ⟨hzero, htop⟩
  · exact absurd hreaches hbelow
  · exact Or.inl hlt
  · exact Or.inr ⟨hroot.mpr htop, hzero⟩

end

end ThunderForge.Mirror
