import Mathlib.Algebra.Order.Group.Defs
import Mathlib.Algebra.Group.Int.Defs
import Mathlib.Data.Finset.Card
import Mathlib.Data.List.Chain
import Mathlib.Logic.Relation

/-! Searching for a shortest walk by an estimate of what is left (A*), with a queue whose outdated entries stay in it
and vertices that are closed once they are taken. What a search has found out is kept by each of its steps: dropping an
outdated entry, closing a vertex, and relaxing one of its arcs. -/

namespace AStar

/-- Where to search: the arcs, which cost something, and an estimate that no arc brings down by more than it costs. -/
structure Problem (V K : Type) [AddCommGroup K] [LinearOrder K] where
  start : V
  arc : V → V → Prop
  weight : V → V → K
  estimate : V → K
  weight_pos : ∀ {x y}, arc x y → 0 < weight x y
  consistent : ∀ {x y}, arc x y → estimate x ≤ weight x y + estimate y

/-- A vertex that waits to be expanded. -/
structure Open (V K : Type) where
  f : K
  h : K
  cell : V
  deriving DecidableEq

/-- What a search knows. -/
structure State (V K : Type) where
  open' : List (Open V K)
  cost : V → Option K
  came : V → Option V
  done : Finset V

/-! Walks. -/

/-- What the arcs of a walk cost. -/
def walkCost {V K : Type} [AddCommGroup K] (weight : V → V → K) : List V → K
  | x :: y :: cells => weight x y + walkCost weight (y :: cells)
  | _ => 0

/-- A walk over arcs, by the vertices on it. -/
structure IsWalk {V : Type} (arc : V → V → Prop) (x y : V) (cells : List V) : Prop where
  head : cells.head? = some x
  last : cells.getLast? = some y
  chain : cells.IsChain arc

section walks

variable {V K : Type} [AddCommGroup K] {arc : V → V → Prop} {weight : V → V → K}

/-- What it costs to get from one vertex to another by some walk. -/
inductive Costs (arc : V → V → Prop) (weight : V → V → K) (x : V) : V → K → Prop where
  | start : Costs arc weight x x 0
  | step {y z c} : Costs arc weight x y c → arc y z → Costs arc weight x z (c + weight y z)

theorem IsWalk.single (x : V) : IsWalk arc x x [x] := ⟨rfl, rfl, .singleton x⟩

theorem walkCost_concat (cells : List V) {y : V} (hlast : cells.getLast? = some y) (z : V) :
    walkCost weight (cells ++ [z]) = walkCost weight cells + weight y z := by
  induction cells with
  | nil => cases hlast
  | cons x cells ih =>
    cases cells with
    | nil =>
      obtain rfl : x = y := by simpa using hlast
      simp [walkCost]
    | cons next cells =>
      rw [List.getLast?_cons_cons] at hlast
      show weight x next + walkCost weight (next :: cells ++ [z]) = weight x next + walkCost weight (next :: cells) + _
      rw [ih hlast, add_assoc]

theorem IsWalk.concat {x y z : V} {cells : List V} (h : IsWalk arc x y cells) (harc : arc y z) :
    IsWalk arc x z (cells ++ [z]) := by
  refine ⟨?_, by simp, ?_⟩
  · rw [List.head?_append, h.head]
    rfl
  · refine List.isChain_append.mpr ⟨h.chain, .singleton z, ?_⟩
    intro last hlast next hnext
    rw [h.last] at hlast
    cases hlast
    cases hnext
    exact harc

theorem Costs.of_chain {x : V} (cells : List V) {y z : V} {c : K} (h : Costs arc weight x y c)
    (hchain : (y :: cells).IsChain arc) (hlast : (y :: cells).getLast? = some z) :
    Costs arc weight x z (c + walkCost weight (y :: cells)) := by
  induction cells generalizing y c with
  | nil =>
    obtain rfl : y = z := by simpa using hlast
    simpa [walkCost] using h
  | cons next cells ih =>
    rw [List.isChain_cons_cons] at hchain
    rw [List.getLast?_cons_cons] at hlast
    have hrest := ih (h.step hchain.1) hchain.2 hlast
    rwa [add_assoc] at hrest

/-- The cost of a walk. -/
theorem IsWalk.costs {x y : V} {cells : List V} (h : IsWalk arc x y cells) :
    Costs arc weight x y (walkCost weight cells) := by
  obtain ⟨hhead, hlast, hchain⟩ := h
  cases cells with
  | nil => cases hhead
  | cons first cells =>
    obtain rfl : first = x := by simpa using hhead
    have hcosts : Costs arc weight first y (0 + walkCost weight (first :: cells)) :=
      Costs.start.of_chain cells hchain hlast
    rwa [zero_add] at hcosts

theorem Costs.reachable {x y : V} {c : K} (h : Costs arc weight x y c) : Relation.ReflTransGen arc x y := by
  induction h with
  | start => exact .refl
  | step _ harc ih => exact ih.tail harc

theorem exists_isWalk_iff {x y : V} : (∃ cells, IsWalk arc x y cells) ↔ Relation.ReflTransGen arc x y := by
  constructor
  · rintro ⟨cells, hwalk⟩
    have hcosts : Costs arc (fun _ _ => (0 : ℤ)) x y _ := hwalk.costs
    exact hcosts.reachable
  · intro hreach
    induction hreach with
    | refl => exact ⟨[x], .single x⟩
    | tail _ harc ih =>
      obtain ⟨cells, hwalk⟩ := ih
      exact ⟨cells ++ [_], hwalk.concat harc⟩

theorem Costs.nonneg [LinearOrder K] [IsOrderedAddMonoid K] (hpos : ∀ {x y}, arc x y → 0 ≤ weight x y) {x y : V} {c : K}
    (h : Costs arc weight x y c) : 0 ≤ c := by
  induction h with
  | start => exact le_rfl
  | step _ harc ih => exact add_nonneg ih (hpos harc)

end walks

/-! The queue. -/

section queue

variable {V K : Type}

/-- Taking an entry with a least estimate. -/
structure Pops [LinearOrder K] (open' : List (Open V K)) (entry : Open V K) (rest : List (Open V K)) : Prop where
  mem_iff : ∀ other, other ∈ open' ↔ other = entry ∨ other ∈ rest
  least : ∀ other ∈ open', entry.f ≤ other.f

/-- Takes the entry that is before all others. -/
def popLeast (before : Open V K → Open V K → Bool) : List (Open V K) → Option (Open V K × List (Open V K))
  | [] => none
  | entry :: open' =>
    match popLeast before open' with
    | none => some (entry, [])
    | some (least, rest) => if before least entry then some (least, entry :: rest) else some (entry, least :: rest)

variable {before : Open V K → Open V K → Bool}

theorem popLeast_eq_none {open' : List (Open V K)} (h : popLeast before open' = none) : open' = [] := by
  cases open' with
  | nil => rfl
  | cons entry open' =>
    rw [popLeast] at h
    split at h
    · cases h
    · split at h <;> cases h

theorem popLeast_length {open' : List (Open V K)} {entry : Open V K} {rest : List (Open V K)}
    (h : popLeast before open' = some (entry, rest)) : open'.length = rest.length + 1 := by
  induction open' generalizing entry rest with
  | nil => cases h
  | cons first open' ih =>
    rw [popLeast] at h
    split at h
    · next hnone =>
      cases h
      rw [popLeast_eq_none hnone]
      rfl
    · next least others hsome =>
      have hlength := ih hsome
      split at h <;> cases h <;> simp [hlength]

/-- An order that goes by the estimate first takes a least one. -/
theorem popLeast_pops [LinearOrder K] (hbefore : ∀ a b, before a b = true → a.f ≤ b.f) (hafter : ∀ a b, before a b = false → b.f ≤ a.f)
    {open' : List (Open V K)} {entry : Open V K} {rest : List (Open V K)}
    (h : popLeast before open' = some (entry, rest)) : Pops open' entry rest := by
  induction open' generalizing entry rest with
  | nil => cases h
  | cons first open' ih =>
    rw [popLeast] at h
    split at h
    · next hnone =>
      cases h
      rw [popLeast_eq_none hnone]
      exact ⟨by simp, by simp⟩
    · next least others hsome =>
      obtain ⟨hmem, hleast⟩ := ih hsome
      split at h
      · next hfirst =>
        cases h
        refine ⟨fun other => ?_, fun other hother => ?_⟩
        · rw [List.mem_cons, List.mem_cons, hmem]
          tauto
        · rcases List.mem_cons.mp hother with rfl | hother
          · exact hbefore _ _ hfirst
          · exact hleast other hother
      · next hfirst =>
        cases h
        have hle := hafter _ _ (Bool.eq_false_iff.mpr hfirst)
        refine ⟨fun other => ?_, fun other hother => ?_⟩
        · rw [List.mem_cons, List.mem_cons, hmem]
        · rcases List.mem_cons.mp hother with rfl | hother
          · exact le_rfl
          · exact hle.trans (hleast other hother)

end queue

/-! What a search knows. -/

section search

variable {V K : Type} [DecidableEq V] [AddCommGroup K] [LinearOrder K]

/-- A search that has only its start to expand. -/
def State.first (x : V) (h : K) : State V K where
  open' := [⟨h, h, x⟩]
  cost := Function.update (fun _ => none) x (some 0)
  came _ := none
  done := ∅

/-- Takes an outdated entry off the queue. -/
def State.discard (s : State V K) (rest : List (Open V K)) : State V K := { s with open' := rest }

/-- Takes a vertex to expand. -/
def State.close (s : State V K) (x : V) (rest : List (Open V K)) : State V K :=
  { s with open' := rest, done := insert x s.done }

/-- Comes to a vertex from another, at a cost. -/
def State.relax (s : State V K) (x y : V) (g h : K) : State V K :=
  { s with
    open' := ⟨g + h, h, y⟩ :: s.open'
    cost := Function.update s.cost y (some g)
    came := Function.update s.came y (some x) }

/-- Of the arcs from closed vertices all but the pending ones are relaxed, and the costs of closed vertices are
least. -/
structure Knows (P : Problem V K) (pending : V → V → Prop) (s : State V K) : Prop where
  start : s.cost P.start = some 0
  startCame : s.came P.start = none
  costs : ∀ {v c}, s.cost v = some c → Costs P.arc P.weight P.start v c
  found : ∀ {v c}, s.cost v = some c → v = P.start ∨ ∃ p, s.came v = some p
  came : ∀ {v p}, s.came v = some p →
    p ∈ s.done ∧ P.arc p v ∧ ∃ c, s.cost p = some c ∧ s.cost v = some (c + P.weight p v)
  closed : ∀ {v}, v ∈ s.done → ∃ c, s.cost v = some c
  least : ∀ {v c total}, v ∈ s.done → s.cost v = some c → Costs P.arc P.weight P.start v total → c ≤ total
  relaxed : ∀ {v u c}, v ∈ s.done → s.cost v = some c → P.arc v u → ¬ pending v u →
    ∃ d, s.cost u = some d ∧ d ≤ c + P.weight v u
  waits : ∀ {v c}, s.cost v = some c → v ∉ s.done → ∃ entry ∈ s.open', entry.cell = v ∧ entry.f = c + P.estimate v
  entries : ∀ {entry}, entry ∈ s.open' → ∃ c, s.cost entry.cell = some c ∧ c + P.estimate entry.cell ≤ entry.f

variable {P : Problem V K} {pending : V → V → Prop} {s : State V K}

omit [LinearOrder K] in
theorem State.first_cost {x v : V} {h : K} : (State.first x h).cost v = if v = x then some 0 else none :=
  Function.update_apply (fun _ => none) x (some 0) v

theorem Knows.first : Knows P (fun _ _ => False) (State.first P.start (P.estimate P.start)) where
  start := by rw [State.first_cost, if_pos rfl]
  startCame := rfl
  costs {v c} h := by
    rw [State.first_cost] at h
    split at h
    · next heq =>
      cases h
      rw [heq]
      exact .start
    · cases h
  found {v c} h := by
    rw [State.first_cost] at h
    split at h
    · next heq => exact .inl heq
    · cases h
  came h := by cases h
  closed h := by simp [State.first] at h
  least h := by simp [State.first] at h
  relaxed h := by simp [State.first] at h
  waits {v c} h _ := by
    rw [State.first_cost] at h
    split at h
    · next heq =>
      cases h
      exact ⟨_, List.mem_singleton_self _, heq.symm, by rw [zero_add, heq]⟩
    · cases h
  entries {entry} h := by
    rw [State.first, List.mem_singleton] at h
    rw [h]
    exact ⟨0, by rw [State.first_cost, if_pos rfl], (zero_add _).le⟩

omit [DecidableEq V] in
/-- What is pending may be said of more arcs, or of fewer where there are none. -/
theorem Knows.mono {pending' : V → V → Prop} (h : Knows P pending s)
    (hpending : ∀ v u, v ∈ s.done → P.arc v u → pending v u → pending' v u) : Knows P pending' s :=
  { h with relaxed := fun hdone hcost harc hnot => h.relaxed hdone hcost harc fun hp => hnot (hpending _ _ hdone harc hp) }

omit [DecidableEq V] in
/-- A closed vertex's outdated entry is not missed. -/
theorem Knows.discard {entry : Open V K} {rest : List (Open V K)} (h : Knows P pending s)
    (hpops : Pops s.open' entry rest) (hdone : entry.cell ∈ s.done) : Knows P pending (s.discard rest) :=
  { h with
    waits := by
      intro v c hcost hv
      obtain ⟨other, hother, hcell, hf⟩ := h.waits hcost hv
      refine ⟨other, ?_, hcell, hf⟩
      rcases (hpops.mem_iff other).mp hother with rfl | hrest
      · rw [hcell] at hdone
        exact absurd hdone hv
      · exact hrest
    entries := fun hentry => h.entries ((hpops.mem_iff _).mpr (.inr hentry)) }

variable [IsOrderedAddMonoid K]

/-- A walk that leaves the closed vertices leaves them over one that waits, with an estimate no larger than the walk's
own. -/
theorem Knows.frontier (h : Knows P (fun _ _ => False) s) {y : V} {total : K}
    (hwalk : Costs P.arc P.weight P.start y total) :
    y ∈ s.done ∨ ∃ z c, z ∉ s.done ∧ s.cost z = some c ∧ c + P.estimate z ≤ total + P.estimate y := by
  induction hwalk with
  | start =>
    by_cases hdone : P.start ∈ s.done
    · exact .inl hdone
    · exact .inr ⟨P.start, 0, hdone, h.start, le_rfl⟩
  | @step x y total hwalk harc ih =>
    rcases ih with hdone | ⟨z, c, hz, hcost, hle⟩
    · by_cases hy : y ∈ s.done
      · exact .inl hy
      · obtain ⟨c, hcost⟩ := h.closed hdone
        obtain ⟨d, hd, hle⟩ := h.relaxed hdone hcost harc not_false
        have hleast : c ≤ total := h.least hdone hcost hwalk
        have htotal : d ≤ total + P.weight x y := hle.trans (by gcongr)
        exact .inr ⟨y, d, hy, hd, by gcongr⟩
    · refine .inr ⟨z, c, hz, hcost, ?_⟩
      calc c + P.estimate z ≤ total + P.estimate x := hle
        _ ≤ total + (P.weight x y + P.estimate y) := by
          gcongr
          exact P.consistent harc
        _ = total + P.weight x y + P.estimate y := (add_assoc ..).symm

/-- The vertex whose estimate is least is come to at the least cost. -/
theorem Knows.least_of_pops {entry : Open V K} {rest : List (Open V K)} (h : Knows P (fun _ _ => False) s)
    (hpops : Pops s.open' entry rest) (hnew : entry.cell ∉ s.done) {c total : K} (hcost : s.cost entry.cell = some c)
    (hwalk : Costs P.arc P.weight P.start entry.cell total) : c ≤ total := by
  obtain ⟨z, d, hz, hd, hle⟩ := (h.frontier hwalk).resolve_left hnew
  obtain ⟨other, hother, -, hf⟩ := h.waits hd hz
  obtain ⟨c', hc', hentry⟩ := h.entries ((hpops.mem_iff entry).mpr (.inl rfl))
  obtain rfl : c = c' := Option.some.inj (hcost.symm.trans hc')
  have hestimate : c + P.estimate entry.cell ≤ total + P.estimate entry.cell :=
    calc c + P.estimate entry.cell ≤ entry.f := hentry
      _ ≤ other.f := hpops.least other hother
      _ = d + P.estimate z := hf
      _ ≤ total + P.estimate entry.cell := hle
  exact le_of_add_le_add_right hestimate

theorem Knows.close {entry : Open V K} {rest : List (Open V K)} (h : Knows P (fun _ _ => False) s)
    (hpops : Pops s.open' entry rest) (hnew : entry.cell ∉ s.done) :
    Knows P (fun v _ => v = entry.cell) (s.close entry.cell rest) where
  start := h.start
  startCame := h.startCame
  costs := h.costs
  found := h.found
  came hcame := by
    obtain ⟨hdone, hrest⟩ := h.came hcame
    exact ⟨Finset.mem_insert_of_mem hdone, hrest⟩
  closed hdone := by
    rcases Finset.mem_insert.mp hdone with rfl | hdone
    · obtain ⟨c, hcost, -⟩ := h.entries ((hpops.mem_iff entry).mpr (.inl rfl))
      exact ⟨c, hcost⟩
    · exact h.closed hdone
  least hdone hcost hwalk := by
    rcases Finset.mem_insert.mp hdone with rfl | hdone
    · exact h.least_of_pops hpops hnew hcost hwalk
    · exact h.least hdone hcost hwalk
  relaxed hdone hcost harc hpending := h.relaxed (Finset.mem_of_mem_insert_of_ne hdone hpending) hcost harc not_false
  waits {v c} hcost hv := by
    rw [State.close, Finset.mem_insert, not_or] at hv
    obtain ⟨other, hother, hcell, hf⟩ := h.waits hcost hv.2
    refine ⟨other, ?_, hcell, hf⟩
    rcases (hpops.mem_iff other).mp hother with rfl | hrest
    · exact absurd hcell.symm hv.1
    · exact hrest
  entries hentry := h.entries ((hpops.mem_iff _).mpr (.inr hentry))

omit [IsOrderedAddMonoid K] in
/-- An arc to a vertex that is closed, or that is come to at no more, needs nothing. -/
theorem Knows.keep {x y : V} {c : K} (h : Knows P pending s) (hx : x ∈ s.done) (hc : s.cost x = some c)
    (harc : P.arc x y) (hy : y ∈ s.done ∨ ∃ d, s.cost y = some d ∧ d ≤ c + P.weight x y) :
    Knows P (fun v u => pending v u ∧ ¬ (v = x ∧ u = y)) s :=
  { h with
    relaxed := by
      intro v u c' hv hc' hvu hpending
      by_cases hvx : v = x ∧ u = y
      · obtain ⟨rfl, rfl⟩ := hvx
        obtain rfl : c = c' := Option.some.inj (hc.symm.trans hc')
        rcases hy with hdone | hcheap
        · obtain ⟨d, hd⟩ := h.closed hdone
          exact ⟨d, hd, h.least hdone hd ((h.costs hc).step harc)⟩
        · exact hcheap
      · exact h.relaxed hv hc' hvu fun hp => hpending ⟨hp, hvx⟩ }

theorem Knows.relax {x y : V} {c : K} (h : Knows P pending s) (hx : x ∈ s.done) (hc : s.cost x = some c)
    (harc : P.arc x y) (hy : y ∉ s.done) (hcheaper : ∀ d, s.cost y = some d → c + P.weight x y < d) :
    Knows P (fun v u => pending v u ∧ ¬ (v = x ∧ u = y)) (s.relax x y (c + P.weight x y) (P.estimate y)) := by
  have hcosts : Costs P.arc P.weight P.start x c := h.costs hc
  have hnonneg : 0 ≤ c := hcosts.nonneg fun harc => (P.weight_pos harc).le
  have hstart : P.start ≠ y := by
    rintro rfl
    exact absurd (hcheaper 0 h.start) (add_nonneg hnonneg (P.weight_pos harc).le).not_gt
  have hne : ∀ {v}, v ∈ s.done → v ≠ y := fun hv heq => hy (heq ▸ hv)
  -- Only the cost of the vertex that is come to changes, and to a lower one.
  have hold : ∀ {v}, v ≠ y → (s.relax x y (c + P.weight x y) (P.estimate y)).cost v = s.cost v :=
    fun hv => Function.update_of_ne hv ..
  have hnew : (s.relax x y (c + P.weight x y) (P.estimate y)).cost y = some (c + P.weight x y) :=
    Function.update_self ..
  have hcameOld : ∀ {v}, v ≠ y → (s.relax x y (c + P.weight x y) (P.estimate y)).came v = s.came v :=
    fun hv => Function.update_of_ne hv ..
  have hcameNew : (s.relax x y (c + P.weight x y) (P.estimate y)).came y = some x := Function.update_self ..
  constructor
  case start => rw [hold hstart]; exact h.start
  case startCame => rw [hcameOld hstart]; exact h.startCame
  case costs =>
    intro v d hd
    by_cases hv : v = y
    · subst hv
      obtain rfl : c + P.weight x v = d := Option.some.inj (hnew.symm.trans hd)
      exact hcosts.step harc
    · rw [hold hv] at hd
      exact h.costs hd
  case found =>
    intro v d hd
    by_cases hv : v = y
    · subst hv
      exact .inr ⟨x, hcameNew⟩
    · rw [hold hv] at hd
      rw [hcameOld hv]
      exact h.found hd
  case came =>
    intro v p hp
    by_cases hv : v = y
    · subst hv
      obtain rfl : x = p := Option.some.inj (hcameNew.symm.trans hp)
      exact ⟨hx, harc, c, (hold (hne hx)).trans hc, hnew⟩
    · rw [hcameOld hv] at hp
      obtain ⟨hdone, hpv, d, hd, hdv⟩ := h.came hp
      exact ⟨hdone, hpv, d, (hold (hne hdone)).trans hd, (hold hv).trans hdv⟩
  case closed =>
    intro v hv
    rw [hold (hne hv)]
    exact h.closed hv
  case least =>
    intro v d total hv hd hwalk
    rw [hold (hne hv)] at hd
    exact h.least hv hd hwalk
  case relaxed =>
    intro v u d hv hd hvu hpending
    rw [hold (hne hv)] at hd
    by_cases hu : u = y
    · subst hu
      refine ⟨c + P.weight x u, hnew, ?_⟩
      by_cases hvx : v = x
      · subst hvx
        obtain rfl : c = d := Option.some.inj (hc.symm.trans hd)
        exact le_rfl
      · obtain ⟨known, hknown, hle⟩ := h.relaxed hv hd hvu fun hp => hpending ⟨hp, fun heq => hvx heq.1⟩
        exact (hcheaper known hknown).le.trans hle
    · rw [hold hu]
      exact h.relaxed hv hd hvu fun hp => hpending ⟨hp, fun heq => hu heq.2⟩
  case waits =>
    intro v d hd hv
    by_cases heq : v = y
    · subst heq
      obtain rfl : c + P.weight x v = d := Option.some.inj (hnew.symm.trans hd)
      exact ⟨_, List.mem_cons_self, rfl, rfl⟩
    · rw [hold heq] at hd
      obtain ⟨entry, hentry, hrest⟩ := h.waits hd hv
      exact ⟨entry, List.mem_cons_of_mem _ hentry, hrest⟩
  case entries =>
    intro entry hentry
    rcases List.mem_cons.mp hentry with rfl | hentry
    · exact ⟨c + P.weight x y, hnew, le_rfl⟩
    · obtain ⟨d, hd, hle⟩ := h.entries hentry
      by_cases heq : entry.cell = y
      · rw [heq] at hd hle ⊢
        refine ⟨c + P.weight x y, hnew, le_trans ?_ hle⟩
        have hlt := hcheaper d hd
        gcongr
      · rw [hold heq]
        exact ⟨d, hd, hle⟩

omit [IsOrderedAddMonoid K] in
/-- When nothing waits, what is reachable is closed. -/
theorem Knows.mem_done_of_nil (h : Knows P (fun _ _ => False) s) (hnil : s.open' = []) {y : V}
    (hreach : Relation.ReflTransGen P.arc P.start y) : y ∈ s.done := by
  have hcosted : ∀ {v c}, s.cost v = some c → v ∈ s.done := by
    intro v c hc
    by_contra hv
    obtain ⟨entry, hentry, -⟩ := h.waits hc hv
    rw [hnil] at hentry
    cases hentry
  induction hreach with
  | refl => exact hcosted h.start
  | tail _ harc ih =>
    obtain ⟨c, hc⟩ := h.closed ih
    obtain ⟨d, hd, -⟩ := h.relaxed ih hc harc not_false
    exact hcosted hd

omit [DecidableEq V] [IsOrderedAddMonoid K] in
/-- What is closed is reachable. -/
theorem Knows.reachable (h : Knows P pending s) {v : V} (hv : v ∈ s.done) : Relation.ReflTransGen P.arc P.start v := by
  obtain ⟨c, hc⟩ := h.closed hv
  exact (h.costs hc).reachable

/-! The walk that was found. -/

/-- Goes back from a vertex over those it was come to from, to one that has none, in so many steps. -/
def backtrack (came : V → Option V) : ℕ → V → List V → Option (List V)
  | 0, _, _ => none
  | n + 1, v, cells =>
    match came v with
    | none => some (v :: cells)
    | some p => backtrack came n p (v :: cells)

omit [DecidableEq V] in
/-- The closed vertices that are come to at less than so much. -/
def State.cheaper (s : State V K) (c : K) : Finset V := s.done.filter fun u => ∃ d ∈ s.cost u, d < c

omit [DecidableEq V] [AddCommGroup K] [IsOrderedAddMonoid K] in
theorem State.card_cheaper_lt {p : V} {c d : K} (hp : p ∈ s.done) (hd : s.cost p = some d) (hlt : d < c) :
    (s.cheaper d).card < (s.cheaper c).card := by
  apply Finset.card_lt_card
  refine ⟨fun u hu => ?_, fun hsub => ?_⟩
  · obtain ⟨hdone, e, he, hed⟩ := Finset.mem_filter.mp hu
    exact Finset.mem_filter.mpr ⟨hdone, e, he, hed.trans hlt⟩
  · obtain ⟨-, e, he, hed⟩ := Finset.mem_filter.mp (hsub (Finset.mem_filter.mpr ⟨hp, d, hd, hlt⟩))
    rw [hd] at he
    cases he
    exact lt_irrefl _ hed

omit [DecidableEq V] in
/-- The way back from a vertex ends at the start, over closed vertices that cost less and less. -/
theorem Knows.backtrack_eq (h : Knows P pending s) (n : ℕ) {v : V} {c : K} (hc : s.cost v = some c)
    (hn : (s.cheaper c).card < n) (cells : List V) :
    ∃ walk, backtrack s.came n v cells = some (walk ++ cells) ∧ IsWalk P.arc P.start v walk ∧
      walkCost P.weight walk = c := by
  induction n generalizing v c cells with
  | zero => exact absurd hn (Nat.not_lt_zero _)
  | succ n ih =>
    rw [backtrack]
    cases hcame : s.came v with
    | none =>
      rcases h.found hc with rfl | ⟨p, hp⟩
      · obtain rfl : 0 = c := Option.some.inj (h.start.symm.trans hc)
        exact ⟨[P.start], rfl, .single _, rfl⟩
      · rw [hcame] at hp
        cases hp
    | some p =>
      obtain ⟨hdone, harc, d, hd, hv⟩ := h.came hcame
      obtain rfl : c = d + P.weight p v := Option.some.inj (hc.symm.trans hv)
      have hlt := State.card_cheaper_lt hdone hd (lt_add_of_pos_right d (P.weight_pos harc))
      obtain ⟨walk, hback, hwalk, hcost⟩ := ih hd (by omega) (v :: cells)
      refine ⟨walk ++ [v], ?_, hwalk.concat harc, ?_⟩
      · rw [List.append_assoc]
        exact hback
      · rw [walkCost_concat walk hwalk.last, hcost]

omit [DecidableEq V] in
/-- What was found is a walk of the least cost. -/
theorem Knows.backtrack_least (h : Knows P pending s) {v : V} (hv : v ∈ s.done) :
    ∃ walk, backtrack s.came (s.done.card + 1) v [] = some walk ∧ IsWalk P.arc P.start v walk ∧
      ∀ other, IsWalk P.arc P.start v other → walkCost P.weight walk ≤ walkCost P.weight other := by
  obtain ⟨c, hc⟩ := h.closed hv
  have hcard : (s.cheaper c).card < s.done.card + 1 := Nat.lt_succ_of_le (Finset.card_filter_le ..)
  obtain ⟨walk, hback, hwalk, rfl⟩ := h.backtrack_eq _ hc hcard []
  rw [List.append_nil] at hback
  exact ⟨walk, hback, hwalk, fun other hother => h.least hv hc hother.costs⟩

end search

end AStar
