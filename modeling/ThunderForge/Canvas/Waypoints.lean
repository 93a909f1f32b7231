import ThunderForge.Canvas.Plane
import ThunderForge.Canvas.Route

/-! The waypoints of a path: the walk over cells is pulled taut, and no wall is in the way of what is left of it. -/

namespace ThunderForge.Canvas

open AStar Pathfinding

/-! Lengths. -/

/-- How long a path is. -/
noncomputable def pathLength : List (Vec2 ℝ) → ℝ := walkCost fun a b => (b - a).length

/-! Pulling taut. -/

section taut

variable {P : Type} {seen : P → P → Bool}

theorem farthest_eq_some {sees : P → Bool} {points later : List P} {c : P} (h : farthest sees points = some (c, later)) :
    sees c = true ∧ ∃ skipped, points = skipped ++ c :: later := by
  induction points with
  | nil => cases h
  | cons b points ih =>
    rw [farthest, Option.or_eq_some_iff] at h
    rcases h with h | ⟨-, h⟩
    · obtain ⟨hsees, skipped, rfl⟩ := ih h
      exact ⟨hsees, b :: skipped, rfl⟩
    · split at h
      · next hsees =>
        cases h
        exact ⟨hsees, [], rfl⟩
      · cases h

/-- Each leg that is kept is a leg there was, or one that is seen along. -/
theorem keptAfter_isChain {R : P → P → Prop} (hseen : ∀ a b, seen a b = true → R a b) (a : P) (points : List P)
    (hchain : (a :: points).IsChain R) : (a :: keptAfter seen a points).IsChain R := by
  fun_induction keptAfter seen a points with
  | case1 a => exact hchain
  | case2 a b later hfar ih =>
    rw [List.isChain_cons_cons] at hchain ⊢
    exact ⟨hchain.1, ih hchain.2⟩
  | case3 a b later c rest hfar ih =>
    obtain ⟨hsees, skipped, rfl⟩ := farthest_eq_some hfar
    rw [List.isChain_cons_cons]
    refine ⟨hseen a c hsees, ih ?_⟩
    have hsuffix : (c :: rest) <:+ a :: b :: (skipped ++ c :: rest) := ⟨a :: b :: skipped, by simp⟩
    exact hchain.suffix hsuffix

theorem keptAfter_getLast? (a : P) (points : List P) : (a :: keptAfter seen a points).getLast? = (a :: points).getLast? := by
  fun_induction keptAfter seen a points with
  | case1 a => rfl
  | case2 a b later hfar ih => rw [List.getLast?_cons_cons, List.getLast?_cons_cons, ih]
  | case3 a b later c rest hfar ih =>
    obtain ⟨-, skipped, rfl⟩ := farthest_eq_some hfar
    rw [List.getLast?_cons_cons, ih, List.getLast?_cons_cons, ← List.cons_append,
      List.getLast?_append_of_ne_nil _ (by simp)]

variable {d : P → P → ℝ} (htriangle : ∀ a b c, d a c ≤ d a b + d b c)

include htriangle

/-- Going straight to a later point is no longer than going over those between. -/
theorem walkCost_skip (a c : P) (skipped rest : List P) :
    d a c + walkCost d (c :: rest) ≤ walkCost d (a :: (skipped ++ c :: rest)) := by
  induction skipped generalizing a with
  | nil => exact le_rfl
  | cons b skipped ih =>
    calc d a c + walkCost d (c :: rest) ≤ d a b + d b c + walkCost d (c :: rest) := by
          gcongr
          exact htriangle a b c
      _ = d a b + (d b c + walkCost d (c :: rest)) := add_assoc ..
      _ ≤ d a b + walkCost d (b :: (skipped ++ c :: rest)) := by
          gcongr
          exact ih b

theorem keptAfter_walkCost_le (a : P) (points : List P) :
    walkCost d (a :: keptAfter seen a points) ≤ walkCost d (a :: points) := by
  fun_induction keptAfter seen a points with
  | case1 a => exact le_rfl
  | case2 a b later hfar ih => exact add_le_add_right ih _
  | case3 a b later c rest hfar ih =>
    obtain ⟨-, skipped, rfl⟩ := farthest_eq_some hfar
    calc walkCost d (a :: c :: keptAfter seen c rest) ≤ d a c + walkCost d (c :: rest) := add_le_add_right ih _
      _ ≤ walkCost d (a :: (b :: skipped ++ c :: rest)) := walkCost_skip htriangle a c (b :: skipped) rest

end taut

/-! The points that are pulled. -/

section dedup

variable {P : Type} [DecidableEq P]

/-- Of a point that is repeated the repetitions go, and with them legs that lead nowhere. -/
theorem destutter_cons (a : P) (points : List P) : ∃ rest, (a :: points).destutter (· ≠ ·) = a :: rest ∧
    (a :: rest).getLast? = (a :: points).getLast? ∧
    (∀ R : P → P → Prop, (a :: points).IsChain R → (a :: rest).IsChain R) ∧
    ∀ d : P → P → ℝ, (∀ a, d a a = 0) → walkCost d (a :: rest) = walkCost d (a :: points) := by
  rw [List.destutter]
  induction points generalizing a with
  | nil => exact ⟨[], rfl, rfl, fun _ h => h, fun _ _ => rfl⟩
  | cons b points ih =>
    by_cases hab : a = b
    · subst hab
      obtain ⟨rest, hrest, hlast, hchain, hcost⟩ := ih a
      refine ⟨rest, ?_, ?_, fun R h => hchain R (List.isChain_cons_cons.mp h).2, fun d hd => ?_⟩
      · rw [List.destutter'_cons_neg _ (not_not_intro rfl), hrest]
      · rw [List.getLast?_cons_cons, hlast]
      · rw [hcost d hd, walkCost, hd, zero_add]
    · obtain ⟨rest, hrest, hlast, hchain, hcost⟩ := ih b
      refine ⟨b :: rest, ?_, ?_, fun R h => ?_, fun d hd => ?_⟩
      · rw [List.destutter'_cons_pos _ hab, hrest]
      · rw [List.getLast?_cons_cons, List.getLast?_cons_cons, hlast]
      · rw [List.isChain_cons_cons] at h ⊢
        exact ⟨h.1, hchain R h.2⟩
      · rw [walkCost, walkCost, hcost d hd]

end dedup

/-! What is found. -/

section path

variable {grid : GridSpec ℝ} {from' to' : Vec2 ℝ} {walls : List (Wall ℝ)} {options : PathOptions}

theorem movementBlockedBy_self (a : Vec2 ℝ) : movementBlockedBy a a walls = none := if_pos rfl

/-- Along a leg that is seen no wall is in the way: the middle one of its three lanes is the leg. -/
theorem sees_unblocked {blocked : Finset (Cell ℤ)} {goal : Cell ℤ} {a b : Vec2 ℝ}
    (h : sees grid a b walls blocked goal = true) : movementBlockedBy a b walls = none := by
  simp only [sees] at h
  split_ifs at h with hlength hlanes
  · have hzero : (b - a).lengthSquared ≤ 0 := Real.sqrt_eq_zero'.mp hlength
    rw [Vec2.eq_of_lengthSquared_sub hzero]
    exact movementBlockedBy_self a
  all_goals
    rw [List.any_eq_true] at hlanes
    have hlane : ¬ (movementBlockedBy (a + 0) (b + 0) walls).isSome = true :=
      fun hsome => hlanes ⟨0, List.mem_cons_self, hsome⟩
    rw [Vec2.add_zero, Vec2.add_zero, Option.not_isSome_iff_eq_none] at hlane
    exact hlane

/-- The walk with the points to go from and to at its ends is one that no wall is in the way of. -/
theorem raw_isChain {start goal : Cell ℤ} {cells : List (Cell ℤ)}
    (hwalk : IsWalk (Passage grid walls options goal) start goal cells)
    (hfrom : movementBlockedBy from' (grid.cellCenter start) walls = none)
    (hto : movementBlockedBy (grid.cellCenter goal) to' walls = none) :
    (from' :: (cells.map grid.cellCenter ++ [to'])).IsChain fun a b => movementBlockedBy a b walls = none := by
  obtain ⟨hhead, hlast, hchain⟩ := hwalk
  have hcentres : (cells.map grid.cellCenter).IsChain fun a b => movementBlockedBy a b walls = none :=
    (List.isChain_map _).mpr (hchain.imp fun _ _ hpassage => hpassage.clear)
  rw [← List.cons_append, List.isChain_append]
  refine ⟨?_, .singleton to', ?_⟩
  · rw [List.isChain_cons]
    refine ⟨fun first hfirst => ?_, hcentres⟩
    rw [List.head?_map, hhead] at hfirst
    cases hfirst
    exact hfrom
  · intro last hlast' next hnext
    cases hnext
    have hgoal : (from' :: cells.map grid.cellCenter).getLast? = some (grid.cellCenter goal) := by
      rw [List.getLast?_cons, List.getLast?_map, hlast]
      rfl
    rw [hgoal] at hlast'
    cases hlast'
    exact hto

/-- A path as it is found. -/
structure FoundPath (grid : GridSpec ℝ) (from' to' : Vec2 ℝ) (walls : List (Wall ℝ)) (options : PathOptions)
    (path : List (Vec2 ℝ)) : Prop where
  first : path.head? = some from'
  last : path.getLast? = some to'
  unblocked : path.IsChain fun a b => movementBlockedBy a b walls = none
  route : ∃ cells,
    IsWalk (Passage grid walls options (grid.worldToCell to')) (grid.worldToCell from') (grid.worldToCell to') cells ∧
    pathLength path ≤ pathLength (from' :: (cells.map grid.cellCenter ++ [to'])) ∧
    (path = pullTaut grid (rawPath grid from' to' cells) walls options.blocked (grid.worldToCell to') ∨
      grid.worldToCell from' = grid.worldToCell to' ∧ path = [from', to'])

/-- In one cell the path is straight, when no wall is in the way. -/
theorem straight_foundPath (heq : grid.worldToCell from' = grid.worldToCell to')
    (hclear : movementBlockedBy from' to' walls = none) : FoundPath grid from' to' walls options [from', to'] where
  first := rfl
  last := rfl
  unblocked := List.isChain_pair.mpr hclear
  route := by
    refine ⟨[grid.worldToCell from'], heq ▸ .single _, ?_, .inr ⟨heq, rfl⟩⟩
    exact walkCost_skip Vec2.length_sub_le from' to' [grid.cellCenter (grid.worldToCell from')] []

/-- The walk that is found is pulled taut. -/
theorem pulled_foundPath {cells : List (Cell ℤ)}
    (hwalk : IsWalk (Passage grid walls options (grid.worldToCell to')) (grid.worldToCell from') (grid.worldToCell to')
      cells)
    (hfrom : movementBlockedBy from' (grid.cellCenter (grid.worldToCell from')) walls = none)
    (hto : movementBlockedBy (grid.cellCenter (grid.worldToCell to')) to' walls = none) :
    FoundPath grid from' to' walls options
      (pullTaut grid (rawPath grid from' to' cells) walls options.blocked (grid.worldToCell to')) := by
  have hraw := raw_isChain hwalk hfrom hto
  obtain ⟨rest, hrest, hlast, hchain, hlength⟩ :=
    destutter_cons from' (cells.map grid.cellCenter ++ [to'])
  have hpull : pullTaut grid (rawPath grid from' to' cells) walls options.blocked (grid.worldToCell to') =
      from' :: keptAfter (fun a b => sees grid a b walls options.blocked (grid.worldToCell to')) from' rest := by
    rw [rawPath, hrest, pullTaut]
  refine ⟨by rw [hpull]; rfl, ?_, ?_, cells, hwalk, ?_, .inl rfl⟩
  · rw [hpull, keptAfter_getLast?, hlast, ← List.cons_append, List.getLast?_concat]
  · rw [hpull]
    exact keptAfter_isChain (fun _ _ => sees_unblocked) from' rest (hchain _ hraw)
  · rw [hpull]
    have hself : ∀ a : Vec2 ℝ, (a - a).length = 0 := by
      intro a
      rw [Vec2.length, Vec2.lengthSquared_sub_self]
      exact Real.sqrt_zero
    exact (keptAfter_walkCost_le Vec2.length_sub_le from' rest).trans_eq (hlength _ hself)

variable (grid from' to' walls options)

theorem movementBlockedBy_nil (a b : Vec2 ℝ) : movementBlockedBy a b [] = none := by simp [movementBlockedBy]

noncomputable def plainGrid : GridSpec ℝ := ⟨.square, 100, 0⟩

theorem plainGrid_kind : plainGrid.kind = .square := rfl

theorem plainGrid_worldToCell (x y : ℝ) : plainGrid.worldToCell ⟨x, y⟩ = ⟨⌊x / 100⌋, ⌊y / 100⌋⟩ := by
  have hsize : plainGrid.safeSize = 100 := if_pos (by norm_num [plainGrid])
  have horigin : plainGrid.origin = 0 := rfl
  simp only [GridSpec.worldToCell, plainGrid_kind, hsize, horigin, Vec2.sub_x, Vec2.sub_y, Vec2.zero_x, Vec2.zero_y,
    sub_zero]

/-- The way round is found when there is one, and no other walk over cells is cheaper; when there is none, no path is
answered. -/
theorem findPath_shortest (hkind : grid.kind = .square)
    (hfrom : movementBlockedBy from' (grid.cellCenter (grid.worldToCell from')) walls = none)
    (hto : movementBlockedBy (grid.cellCenter (grid.worldToCell to')) to' walls = none)
    (hne : grid.worldToCell from' ≠ grid.worldToCell to') :
    let start := grid.worldToCell from'
    let goal := grid.worldToCell to'
    let passage := Passage grid walls options goal
    ((∃ cells, IsWalk passage start goal cells) →
      {c | Relation.ReflTransGen passage start c}.encard < options.maxNodes →
      ∃ cells, findPath grid from' to' walls options =
          .ok (some (pullTaut grid (rawPath grid from' to' cells) walls options.blocked goal)) ∧
        IsWalk passage start goal cells ∧
        ∀ other, IsWalk passage start goal other → walkCost stepCost cells ≤ walkCost stepCost other) ∧
    ((¬ ∃ cells, IsWalk passage start goal cells) → findPath grid from' to' walls options = .ok none) := by
  intro start goal passage
  have hroutes : Routes (problem grid walls options goal start) goal options.maxNodes
      (findRoute grid walls options goal start) := findRoute_routes ..
  have hstraight : ¬ (start = goal ∧ (movementBlockedBy from' to' walls).isNone = true) := fun h => hne h.1
  have hends : ¬ ((movementBlockedBy from' (grid.cellCenter start) walls).isSome = true ∨
      (movementBlockedBy (grid.cellCenter goal) to' walls).isSome = true) := by
    simp only [start, goal, hfrom, hto]
    simp
  obtain ⟨found, hanswer⟩ := hroutes.answers
  simp only [findPath]
  rw [if_neg (not_not_intro hkind), if_neg hstraight, if_neg hends, hanswer]
  cases found with
  | none =>
    refine ⟨fun hexists hfew => ?_, fun _ => rfl⟩
    rcases hroutes.givesUp hanswer with hunreachable | hmany
    · exact absurd (exists_isWalk_iff.mp hexists) hunreachable
    · exact absurd hfew hmany.not_gt
  | some cells =>
    obtain ⟨hwalk, hleast⟩ := hroutes.walks hanswer
    exact ⟨fun _ _ => ⟨cells, rfl, hwalk, hleast⟩, fun hnone => absurd ⟨cells, hwalk⟩ hnone⟩

end path

/-- Two cells beside each other, and no others. -/
def twoCells : PathOptions := { bounds := some (⟨0, 0⟩, ⟨1, 0⟩), blocked := ∅, maxNodes := 3 }

theorem twoCells_reachable {c : Cell ℤ}
    (hreach : Relation.ReflTransGen (Passage plainGrid [] twoCells ⟨1, 0⟩) ⟨0, 0⟩ c) : c = ⟨0, 0⟩ ∨ c = ⟨1, 0⟩ := by
  cases hreach with
  | refl => exact .inl rfl
  | tail _ hpassage =>
    rcases hpassage.enters with rfl | ⟨hinside, -⟩
    · exact .inr rfl
    · obtain ⟨hq, hq', hr, hr'⟩ := of_decide_eq_true hinside
      simp only at hq hq' hr hr'
      simp only [Cell.ext_iff]
      omega

theorem next_cell_shortest : ∃ cells, findPath plainGrid ⟨50, 50⟩ ⟨150, 50⟩ [] twoCells =
    .ok (some (pullTaut plainGrid (rawPath plainGrid ⟨50, 50⟩ ⟨150, 50⟩ cells) [] ∅ ⟨1, 0⟩)) := by
  have hstart : plainGrid.worldToCell ⟨50, 50⟩ = ⟨0, 0⟩ := by
    rw [plainGrid_worldToCell]
    norm_num
  have hgoal : plainGrid.worldToCell ⟨150, 50⟩ = ⟨1, 0⟩ := by
    rw [plainGrid_worldToCell]
    norm_num
  have hstep : Passage plainGrid [] twoCells ⟨1, 0⟩ ⟨0, 0⟩ ⟨1, 0⟩ :=
    ⟨⟨(1, 0), by decide, rfl⟩, .inl rfl, movementBlockedBy_nil .., fun h => absurd rfl h.2⟩
  have hfew : {c | Relation.ReflTransGen (Passage plainGrid [] twoCells ⟨1, 0⟩) ⟨0, 0⟩ c}.encard < twoCells.maxNodes :=
    calc _ ≤ ({⟨0, 0⟩, ⟨1, 0⟩} : Set (Cell ℤ)).encard := Set.encard_le_encard fun c hc => twoCells_reachable hc
      _ = 2 := Set.encard_pair (by decide)
      _ < twoCells.maxNodes := by norm_num [twoCells]
  have hshortest := (findPath_shortest plainGrid ⟨50, 50⟩ ⟨150, 50⟩ [] twoCells rfl (movementBlockedBy_nil ..)
    (movementBlockedBy_nil ..) (by rw [hstart, hgoal]; decide)).1
  rw [hstart, hgoal] at hshortest
  obtain ⟨cells, hpath, -⟩ := hshortest ⟨_, (IsWalk.single _).concat hstep⟩ hfew
  exact ⟨cells, hpath⟩

end ThunderForge.Canvas
