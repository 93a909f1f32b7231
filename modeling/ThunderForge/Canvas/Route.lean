import Mathlib.Data.Set.Card
import Mathlib.Tactic.Linarith
import ThunderForge.Canvas.Pathfinding

/-! The walk over cells that the search finds: every step of it is open, and none is cheaper. -/

namespace ThunderForge.Canvas

open AStar Pathfinding

/-! The steps of the search. -/

section passage

variable (grid : GridSpec ℝ) (walls : List (Wall ℝ)) (options : PathOptions) (goal : Cell ℤ)

/-- A cell beside a diagonal step is open, and the way through it. -/
structure OpenBeside (cell next side : Cell ℤ) : Prop where
  inside : options.inside side = true
  unblocked : side ∉ options.blocked
  clearTo : movementBlockedBy (grid.cellCenter cell) (grid.cellCenter side) walls = none
  clearFrom : movementBlockedBy (grid.cellCenter side) (grid.cellCenter next) walls = none

/-- A step of the search: to one of the eight cells around, that may be entered and that no wall is in the way of. -/
structure Passage (cell next : Cell ℤ) : Prop where
  step : ∃ d ∈ steps, next = ⟨cell.q + d.1, cell.r + d.2⟩
  enters : next = goal ∨ options.inside next = true ∧ next ∉ options.blocked
  clear : movementBlockedBy (grid.cellCenter cell) (grid.cellCenter next) walls = none
  corners : next.q ≠ cell.q ∧ next.r ≠ cell.r →
    OpenBeside grid walls options cell next ⟨next.q, cell.r⟩ ∧ OpenBeside grid walls options cell next ⟨cell.q, next.r⟩

/-- What a step costs. -/
noncomputable def stepCost (cell next : Cell ℤ) : ℝ :=
  if next.q ≠ cell.q ∧ next.r ≠ cell.r then Real.sqrt 2 else 1

variable {grid walls options goal}

theorem around_iff {cell next side : Cell ℤ} :
    around grid walls options cell next side = true ↔ OpenBeside grid walls options cell next side := by
  rw [around, decide_eq_true_iff, clear, clear, Option.isNone_iff_eq_none, Option.isNone_iff_eq_none]
  exact ⟨fun ⟨ha, hb, hc, hd⟩ => ⟨ha, hb, hc, hd⟩, fun ⟨ha, hb, hc, hd⟩ => ⟨ha, hb, hc, hd⟩⟩

theorem passage_iff {cell : Cell ℤ} {d : ℤ × ℤ} (hd : d ∈ steps) :
    Passage grid walls options goal cell ⟨cell.q + d.1, cell.r + d.2⟩ ↔
      free options goal ⟨cell.q + d.1, cell.r + d.2⟩ = true ∧
      clear grid walls cell ⟨cell.q + d.1, cell.r + d.2⟩ = true ∧
      (d.1 ≠ 0 ∧ d.2 ≠ 0 →
        around grid walls options cell ⟨cell.q + d.1, cell.r + d.2⟩ ⟨cell.q + d.1, cell.r⟩ = true ∧
        around grid walls options cell ⟨cell.q + d.1, cell.r + d.2⟩ ⟨cell.q, cell.r + d.2⟩ = true) := by
  simp only [around_iff, free, clear, decide_eq_true_iff, Option.isNone_iff_eq_none]
  have hdiagonal : d.1 ≠ 0 ∧ d.2 ≠ 0 ↔ cell.q + d.1 ≠ cell.q ∧ cell.r + d.2 ≠ cell.r := by
    simp
  rw [hdiagonal]
  exact ⟨fun ⟨_, ha, hb, hc⟩ => ⟨ha, hb, hc⟩, fun ⟨ha, hb, hc⟩ => ⟨⟨d, hd, rfl⟩, ha, hb, hc⟩⟩

/-- What one of the eight steps does: it is passed over for a reason, or the cell it leads to is come to more cheaply. -/
theorem visit_cases {cell : Cell ℤ} {here : ℝ} {s : State (Cell ℤ) ℝ} {d : ℤ × ℤ} (hd : d ∈ steps) :
    let next : Cell ℤ := ⟨cell.q + d.1, cell.r + d.2⟩
    (visit grid walls options goal cell here s d = s ∧
      (¬ Passage grid walls options goal cell next ∨ next ∈ s.done ∨
        ∃ known, s.cost next = some known ∧ known ≤ here + stepCost cell next)) ∨
    (visit grid walls options goal cell here s d =
        s.relax cell next (here + stepCost cell next) (octile next goal) ∧
      Passage grid walls options goal cell next ∧ next ∉ s.done ∧
      ∀ known, s.cost next = some known → here + stepCost cell next < known) := by
  intro next
  have hcost : (if d.1 ≠ 0 ∧ d.2 ≠ 0 then HasSqrt.sqrt (2 : ℝ) else 1) = stepCost cell next := by
    simp [stepCost, next, HasSqrt.sqrt]
  rw [passage_iff hd]
  simp only [visit]
  rw [hcost]
  split_ifs with hskip hcorner hknown
  · refine .inl ⟨rfl, ?_⟩
    tauto
  · refine .inl ⟨rfl, .inl ?_⟩
    tauto
  · obtain ⟨known, hknown, hle⟩ := (Option.any_eq_true _ _).mp hknown
    exact .inl ⟨rfl, .inr (.inr ⟨known, hknown, of_decide_eq_true hle⟩)⟩
  · refine .inr ⟨rfl, by tauto, by tauto, fun known hknown' => ?_⟩
    by_contra hle
    exact hknown ((Option.any_eq_true _ _).mpr ⟨known, hknown', decide_eq_true (not_lt.mp hle)⟩)

/-! The estimate. -/

theorem one_le_sqrt_two : 1 ≤ Real.sqrt 2 := Real.one_le_sqrt.mpr (by norm_num)

theorem sqrt_two_le_two : Real.sqrt 2 ≤ 2 := by
  rw [Real.sqrt_le_left (by norm_num)]
  norm_num

/-- Whichever of the two distances is the longer is walked, and the shorter one adds what a diagonal costs more. -/
theorem octile_eq_max (a b : Cell ℤ) : (octile a b : ℝ) =
    max (|(a.q - b.q : ℝ)| + (Real.sqrt 2 - 1) * |(a.r - b.r : ℝ)|)
      (|(a.r - b.r : ℝ)| + (Real.sqrt 2 - 1) * |(a.q - b.q : ℝ)|) := by
  have hcast : ∀ m n : ℤ, (((m - n).natAbs : ℕ) : ℝ) = |(m - n : ℝ)| := by
    intro m n
    rw [Nat.cast_natAbs, Int.cast_abs, Int.cast_sub]
  have hlow := one_le_sqrt_two
  have hhigh := sqrt_two_le_two
  simp only [octile, HasSqrt.sqrt, hcast]
  rcases le_total |(a.q - b.q : ℝ)| |(a.r - b.r : ℝ)| with hle | hle
  · rw [max_eq_right hle, min_eq_left hle, max_eq_right]
    nlinarith
  · rw [max_eq_left hle, min_eq_right hle, max_eq_left]
    nlinarith

theorem stepCost_pos (a b : Cell ℤ) : 0 < stepCost a b := by
  unfold stepCost
  split_ifs
  · exact zero_lt_one.trans_le one_le_sqrt_two
  · exact zero_lt_one

theorem steps_abs {d : ℤ × ℤ} (hd : d ∈ steps) : |d.1| ≤ 1 ∧ |d.2| ≤ 1 ∧ (d.1 ≠ 0 ∨ d.2 ≠ 0) := by
  revert d
  decide

/-- What the two distances of a step add to an estimate. -/
theorem stepCost_le {a : Cell ℤ} {d : ℤ × ℤ} (hd : d ∈ steps) :
    |(d.1 : ℝ)| + (Real.sqrt 2 - 1) * |(d.2 : ℝ)| ≤ stepCost a ⟨a.q + d.1, a.r + d.2⟩ ∧
      |(d.2 : ℝ)| + (Real.sqrt 2 - 1) * |(d.1 : ℝ)| ≤ stepCost a ⟨a.q + d.1, a.r + d.2⟩ := by
  obtain ⟨hq, hr, -⟩ := steps_abs hd
  have hq' : |(d.1 : ℝ)| ≤ 1 := by exact_mod_cast hq
  have hr' : |(d.2 : ℝ)| ≤ 1 := by exact_mod_cast hr
  have hlow := one_le_sqrt_two
  have hhigh := sqrt_two_le_two
  simp only [stepCost, ne_eq, add_eq_left]
  split_ifs with hdiagonal
  · constructor <;> nlinarith
  · rw [not_and_or, not_not, not_not] at hdiagonal
    rcases hdiagonal with hzero | hzero <;> rw [hzero, Int.cast_zero, abs_zero] <;> constructor <;> nlinarith

theorem abs_le_add_abs_step (x d goal : ℤ) : |(x - goal : ℝ)| ≤ |((x + d : ℤ) : ℝ) - goal| + |(d : ℝ)| := by
  have habs := abs_sub_abs_le_abs_sub (x - goal : ℝ) (((x + d : ℤ) : ℝ) - goal)
  rw [show (x - goal : ℝ) - (((x + d : ℤ) : ℝ) - goal) = -d by push_cast; ring, abs_neg] at habs
  linarith

/-- No step brings the estimate down by more than it costs. -/
theorem octile_consistent {a b : Cell ℤ} (hab : Passage grid walls options goal a b) :
    (octile a goal : ℝ) ≤ stepCost a b + octile b goal := by
  obtain ⟨d, hd, rfl⟩ := hab.step
  obtain ⟨hfirst, hsecond⟩ := stepCost_le (a := a) hd
  have hq := abs_le_add_abs_step a.q d.1 goal.q
  have hr := abs_le_add_abs_step a.r d.2 goal.r
  have hlow := one_le_sqrt_two
  rw [octile_eq_max, octile_eq_max]
  apply max_le
  · refine le_trans ?_ (add_le_add_right (le_max_left _ _) _)
    nlinarith
  · refine le_trans ?_ (add_le_add_right (le_max_right _ _) _)
    nlinarith

variable (grid walls options goal)

/-- What the search solves. -/
noncomputable def problem (start : Cell ℤ) : Problem (Cell ℤ) ℝ where
  start
  arc := Passage grid walls options goal
  weight := stepCost
  estimate c := octile c goal
  weight_pos _ := stepCost_pos _ _
  consistent := octile_consistent

/-! The search. -/

variable {grid walls options goal} {start : Cell ℤ}

/-- Expanding a cell relaxes its steps one by one. -/
theorem foldl_visit_knows {cell : Cell ℤ} {here : ℝ} (directions : List (ℤ × ℤ)) (hsub : ∀ d ∈ directions, d ∈ steps)
    {s : State (Cell ℤ) ℝ} (hdone : cell ∈ s.done) (hhere : s.cost cell = some here)
    (hknows : Knows (problem grid walls options goal start)
      (fun v u => v = cell ∧ ∃ d ∈ directions, u = ⟨cell.q + d.1, cell.r + d.2⟩) s) :
    Knows (problem grid walls options goal start) (fun _ _ => False)
      (directions.foldl (visit grid walls options goal cell here) s) := by
  induction directions generalizing s with
  | nil => exact hknows.mono fun _ _ _ _ ⟨_, _, hd, _⟩ => absurd hd List.not_mem_nil
  | cons d directions ih =>
    have hsteps : d ∈ steps := hsub d List.mem_cons_self
    have hsub' : ∀ d ∈ directions, d ∈ steps := fun d hd => hsub d (List.mem_cons_of_mem _ hd)
    -- What is left of the pending steps once this one is dealt with.
    have hrest : ∀ v u : Cell ℤ, ((v = cell ∧ ∃ d' ∈ d :: directions, u = ⟨cell.q + d'.1, cell.r + d'.2⟩) ∧
        ¬ (v = cell ∧ u = ⟨cell.q + d.1, cell.r + d.2⟩)) →
        v = cell ∧ ∃ d' ∈ directions, u = ⟨cell.q + d'.1, cell.r + d'.2⟩ := by
      rintro v u ⟨⟨hv, d', hd', hu⟩, hother⟩
      rcases List.mem_cons.mp hd' with rfl | hd'
      · exact absurd ⟨hv, hu⟩ hother
      · exact ⟨hv, d', hd', hu⟩
    rw [List.foldl_cons]
    rcases @visit_cases grid walls options goal cell here s d hsteps with
      ⟨hvisit, hreason⟩ | ⟨hvisit, hpassage, hnew, hcheaper⟩
    · rw [hvisit]
      apply ih hsub' hdone hhere
      by_cases hpassage : Passage grid walls options goal cell ⟨cell.q + d.1, cell.r + d.2⟩
      · exact (hknows.keep hdone hhere hpassage (hreason.resolve_left (not_not_intro hpassage))).mono
          fun v u _ _ => hrest v u
      · refine hknows.mono fun v u _ harc hpending => hrest v u ⟨hpending, ?_⟩
        rintro ⟨rfl, rfl⟩
        exact hpassage harc
    · rw [hvisit]
      have hne : cell ≠ ⟨cell.q + d.1, cell.r + d.2⟩ := fun heq => hnew (heq ▸ hdone)
      have hknows' := (hknows.relax hdone hhere hpassage hnew hcheaper).mono fun v u _ _ => hrest v u
      exact ih hsub' hdone ((Function.update_of_ne hne ..).trans hhere) hknows'

/-- The heap's order goes by the estimate first. -/
theorem pops_of_popLeast {open' : List (Open (Cell ℤ) ℝ)} {entry : Open (Cell ℤ) ℝ} {rest : List (Open (Cell ℤ) ℝ)}
    (h : popLeast before open' = some (entry, rest)) : Pops open' entry rest := by
  apply popLeast_pops _ _ h
  · intro a b hbefore
    rcases of_decide_eq_true hbefore with hlt | ⟨heq, -⟩
    · exact hlt.le
    · exact heq.le
  · intro a b hbefore
    have hnot := of_decide_eq_false hbefore
    exact not_lt.mp fun hlt => hnot (.inl hlt)

/-- What the search answers: it has taken the goal, or the goal is not to be reached, or more cells are than it may
expand. -/
structure Searches (P : Problem (Cell ℤ) ℝ) (goal : Cell ℤ) (maxNodes : ℕ)
    (answer : Except Fault (Option (State (Cell ℤ) ℝ))) : Prop where
  answers : ∃ found, answer = .ok found
  takes : ∀ {s}, answer = .ok (some s) → goal ∈ s.done ∧ ∃ pending, Knows P pending s
  givesUp : answer = .ok none →
    ¬ Relation.ReflTransGen P.arc P.start goal ∨ maxNodes < {c | Relation.ReflTransGen P.arc P.start c}.encard

theorem search_searches (s : State (Cell ℤ) ℝ) (hgoal : goal ∉ s.done)
    (hknows : Knows (problem grid walls options goal start) (fun _ _ => False) s) :
    Searches (problem grid walls options goal start) goal options.maxNodes (search grid walls options goal s) := by
  fun_induction search grid walls options goal s with
  | case1 s hpop =>
    refine ⟨⟨none, rfl⟩, nofun, fun _ => .inl fun hreach => hgoal ?_⟩
    exact hknows.mem_done_of_nil (popLeast_eq_none hpop) hreach
  | case2 s entry rest hpop hdone ih => exact ih hgoal (hknows.discard (pops_of_popLeast hpop) hdone)
  | case3 s entry rest hpop hnew closed heq =>
    refine ⟨⟨_, rfl⟩, ?_, nofun⟩
    rintro _ ⟨⟩
    exact ⟨heq ▸ Finset.mem_insert_self .., _, hknows.close (pops_of_popLeast hpop) hnew⟩
  | case4 s entry rest hpop hnew closed hne hbudget =>
    refine ⟨⟨none, rfl⟩, nofun, fun _ => .inr ?_⟩
    have hclosed := hknows.close (pops_of_popLeast hpop) hnew
    have hsub : (closed.done : Set (Cell ℤ)) ⊆
        {c | Relation.ReflTransGen (problem grid walls options goal start).arc start c} :=
      fun c hc => hclosed.reachable hc
    refine lt_of_lt_of_le ?_ (Set.encard_le_encard hsub)
    rw [Set.encard_coe_eq_coe_finsetCard]
    exact_mod_cast hbudget
  | case5 s entry rest hpop hnew closed hne hbudget hcost =>
    obtain ⟨c, hc⟩ := (hknows.close (pops_of_popLeast hpop) hnew).closed (Finset.mem_insert_self ..)
    exact absurd (hc.symm.trans hcost) nofun
  | case6 s entry rest hpop hnew closed hne hbudget here hcost ih =>
    have hclosed := hknows.close (pops_of_popLeast hpop) hnew
    apply ih
    · rw [foldl_visit_done]
      exact fun hmem => (Finset.mem_insert.mp hmem).elim (fun heq => hne heq.symm) hgoal
    · refine foldl_visit_knows steps (fun d hd => hd) (Finset.mem_insert_self ..) hcost ?_
      refine hclosed.mono fun v u _ harc hv => ⟨hv, ?_⟩
      obtain ⟨d, hd, hu⟩ := Passage.step harc
      exact ⟨d, hd, hv ▸ hu⟩

/-- What the search finds: a walk of the least cost over the cells, or none when the goal is not to be reached or more
cells are than it may expand. -/
structure Routes (P : Problem (Cell ℤ) ℝ) (goal : Cell ℤ) (maxNodes : ℕ)
    (answer : Except Fault (Option (List (Cell ℤ)))) : Prop where
  answers : ∃ found, answer = .ok found
  walks : ∀ {cells}, answer = .ok (some cells) → IsWalk P.arc P.start goal cells ∧
    ∀ other, IsWalk P.arc P.start goal other → walkCost P.weight cells ≤ walkCost P.weight other
  givesUp : answer = .ok none →
    ¬ Relation.ReflTransGen P.arc P.start goal ∨ maxNodes < {c | Relation.ReflTransGen P.arc P.start c}.encard

variable (grid walls options goal start)

theorem findRoute_routes : Routes (problem grid walls options goal start) goal options.maxNodes
    (findRoute grid walls options goal start) := by
  have hsearch : Searches (problem grid walls options goal start) goal options.maxNodes
      (search grid walls options goal (.first start (octile start goal))) :=
    search_searches _ (Finset.notMem_empty goal) Knows.first
  obtain ⟨found, hfound⟩ := hsearch.answers
  unfold findRoute
  rw [hfound]
  cases found with
  | none => exact ⟨⟨none, rfl⟩, nofun, fun _ => hsearch.givesUp hfound⟩
  | some s =>
    obtain ⟨hdone, pending, hknows⟩ := hsearch.takes hfound
    obtain ⟨cells, hback, hwalk⟩ := hknows.backtrack_least hdone
    simp only [hback]
    refine ⟨⟨some cells, rfl⟩, ?_, nofun⟩
    rintro _ ⟨⟩
    exact hwalk

end passage

end ThunderForge.Canvas
