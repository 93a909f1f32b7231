import Mathlib.Algebra.Order.Field.Basic
import Mathlib.Algebra.Order.Ring.Int
import Mathlib.Data.Int.Cast.Lemmas
import Mathlib.Tactic.Linarith
import Mathlib.Tactic.NormNum
import Mathlib.Tactic.Ring

/-! The hexagonal lattice in axial coordinates: how many steps it is from one lattice point to another, and which
lattice point is nearest. -/

namespace HexLattice

/-- The square of a vector's length, where a step is as long as one. -/
def normSq {R : Type*} [Semiring R] (x y : R) : R := x ^ 2 + x * y + y ^ 2

/-! Steps between lattice points. -/

/-- The six steps to the neighbours that share an edge. -/
def Step (q r : ℤ) : Prop :=
  (q = 1 ∧ r = 0) ∨ (q = -1 ∧ r = 0) ∨ (q = 0 ∧ r = 1) ∨ (q = 0 ∧ r = -1) ∨ (q = 1 ∧ r = -1) ∨ (q = -1 ∧ r = 1)

/-- How many steps a vector takes. -/
def steps (q r : ℤ) : ℤ := (|q| + |r| + |q + r|) / 2

theorem steps_eq_max (q r : ℤ) : steps q r = max (max |q| |r|) |q + r| := by
  unfold steps
  simp only [abs_eq_max_neg]
  omega

theorem steps_nonneg (q r : ℤ) : 0 ≤ steps q r := by
  rw [steps_eq_max]
  exact le_max_of_le_right (abs_nonneg _)

theorem steps_eq_zero_iff {q r : ℤ} : steps q r = 0 ↔ q = 0 ∧ r = 0 := by
  rw [steps_eq_max]
  simp only [abs_eq_max_neg]
  omega

/-- One step leads nearer by one at most. -/
theorem steps_le_of_step {a b q r : ℤ} (h : Step a b) : steps q r ≤ steps (q - a) (r - b) + 1 := by
  have hstep : |a| ≤ 1 ∧ |b| ≤ 1 ∧ |a + b| ≤ 1 := by
    rcases h with h | h | h | h | h | h <;> obtain ⟨rfl, rfl⟩ := h <;> decide
  have hq : |q| ≤ |q - a| + |a| := by simpa using abs_add_le (q - a) a
  have hr : |r| ≤ |r - b| + |b| := by simpa using abs_add_le (r - b) b
  have hqr : |q + r| ≤ |q - a + (r - b)| + |a + b| := by
    rw [sub_add_sub_comm]
    simpa using abs_add_le (q + r - (a + b)) (a + b)
  rw [steps_eq_max, steps_eq_max]
  omega

theorem steps_neg (q r : ℤ) : steps (-q) (-r) = steps q r := by
  unfold steps
  rw [← neg_add, abs_neg, abs_neg, abs_neg]

theorem steps_of_nonneg {q r : ℤ} (hq : 0 ≤ q) (hr : 0 ≤ r) : steps q r = q + r := by
  rw [steps_eq_max, abs_of_nonneg hq, abs_of_nonneg hr, abs_of_nonneg (add_nonneg hq hr)]
  omega

theorem steps_of_opposite {q r : ℤ} (hq : 0 ≤ q) (hr : r ≤ 0) : steps q r = max q (-r) := by
  rw [steps_eq_max, abs_of_nonneg hq, abs_of_nonpos hr, abs_eq_max_neg]
  omega

theorem exists_step_of_pos {q r : ℤ} (h : 0 < q ∨ q = 0 ∧ 0 < r) :
    ∃ a b, Step a b ∧ steps (q - a) (r - b) = steps q r - 1 := by
  rcases h with hq | ⟨rfl, hr⟩
  · rcases lt_or_ge r 0 with hr | hr
    · refine ⟨1, -1, by simp [Step], ?_⟩
      rw [steps_of_opposite (by omega) (by omega), steps_of_opposite hq.le hr.le]
      omega
    · refine ⟨1, 0, by simp [Step], ?_⟩
      rw [steps_of_nonneg (by omega) (by omega), steps_of_nonneg hq.le hr]
      omega
  · refine ⟨0, 1, by simp [Step], ?_⟩
    rw [steps_of_nonneg (by omega) (by omega), steps_of_nonneg le_rfl hr.le]
    omega

/-- As long as there is a way to go, some step leads nearer. -/
theorem exists_step {q r : ℤ} (h : steps q r ≠ 0) : ∃ a b, Step a b ∧ steps (q - a) (r - b) = steps q r - 1 := by
  rw [Ne, steps_eq_zero_iff] at h
  by_cases hpos : 0 < q ∨ q = 0 ∧ 0 < r
  · exact exists_step_of_pos hpos
  · -- The opposite vector has a step, and the opposite step is one, too.
    have hneg : 0 < -q ∨ -q = 0 ∧ 0 < -r := by omega
    obtain ⟨a, b, hstep, hnear⟩ := exists_step_of_pos hneg
    refine ⟨-a, -b, ?_, ?_⟩
    · unfold Step at hstep ⊢
      omega
    · rw [steps_neg, ← steps_neg] at hnear
      rw [← hnear]
      congr 1 <;> ring

/-! Lengths of lattice vectors. -/

theorem abs_le_normSq (a b : ℤ) : |a| ≤ normSq a b := by
  unfold normSq
  rcases le_or_gt 2 |a| with ha | ha
  · have hsq : |a| ^ 2 = a ^ 2 := sq_abs a
    nlinarith [sq_nonneg (a + 2 * b)]
  · have hcases : a = 0 ∨ a = 1 ∨ a = -1 := by
      rw [abs_lt] at ha
      omega
    -- What is left of the square, `b * (b ± 1)`, is negative between its roots only, where no integer is.
    rcases hcases with rfl | rfl | rfl
    · simp [sq_nonneg]
    · rcases le_or_gt 0 b with hb | hb
      · norm_num
        nlinarith
      · norm_num
        nlinarith
    · rcases le_or_gt b 0 with hb | hb
      · norm_num
        nlinarith
      · norm_num
        nlinarith

theorem normSq_comm {R : Type*} [CommRing R] (x y : R) : normSq x y = normSq y x := by
  unfold normSq
  ring

theorem steps_le_normSq (a b : ℤ) : steps a b ≤ normSq a b := by
  have hsecond : |b| ≤ normSq a b := by
    rw [normSq_comm]
    exact abs_le_normSq b a
  have hthird : |a + b| ≤ normSq a b := by
    rw [show normSq a b = normSq (a + b) (-b) by unfold normSq; ring]
    exact abs_le_normSq (a + b) (-b)
  rw [steps_eq_max]
  exact max_le (max_le (abs_le_normSq a b) hsecond) hthird

/-- The steps to the neighbours are the vectors of length one. -/
theorem step_iff_normSq {q r : ℤ} : Step q r ↔ normSq q r = 1 := by
  constructor
  · rintro (h | h | h | h | h | h) <;> obtain ⟨rfl, rfl⟩ := h <;> rfl
  · intro h
    have hq := abs_le_normSq q r
    have hr := abs_le_normSq r q
    rw [normSq_comm r q, h, abs_le] at hr
    rw [h, abs_le] at hq
    have hqcases : q = -1 ∨ q = 0 ∨ q = 1 := by omega
    have hrcases : r = -1 ∨ r = 0 ∨ r = 1 := by omega
    rcases hqcases with rfl | rfl | rfl <;> rcases hrcases with rfl | rfl | rfl <;> simp [normSq, Step] at h ⊢

/-! The nearest lattice point. -/

section nearest

variable {K : Type*} [Field K] [LinearOrder K] [IsStrictOrderedRing K]

theorem eq_zero_of_normSq {x y : K} (h : normSq x y = 0) : x = 0 := by
  have hsquares : (x + 2 * y) ^ 2 + 3 * x ^ 2 = 4 * normSq x y := by
    unfold normSq
    ring
  rw [h, mul_zero] at hsquares
  have hx : x ^ 2 = 0 := le_antisymm (by linarith [sq_nonneg (x + 2 * y)]) (sq_nonneg x)
  exact pow_eq_zero_iff two_ne_zero |>.mp hx

/-- A point inside the hexagon around the lattice point it is measured from: the three differences of its cube
coordinates are no more than one. -/
def Inside (x y : K) : Prop := |x - y| ≤ 1 ∧ |y - (-x - y)| ≤ 1 ∧ |x - (-x - y)| ≤ 1

/-- The hexagon's support function: a lattice vector projects to no more than the steps it takes. -/
theorem projection_le_steps {u v : K} (hu : |u| ≤ 1) (hv : |v| ≤ 1) (huv : |u - v| ≤ 1) (a b : ℤ) :
    a * u + b * v ≤ steps a b := by
  obtain ⟨hul, huu⟩ := abs_le.mp hu
  obtain ⟨hvl, hvu⟩ := abs_le.mp hv
  obtain ⟨hdl, hdu⟩ := abs_le.mp huv
  have hcast : ((steps a b : ℤ) : K) = max (max |(a : K)| |(b : K)|) |(a : K) + b| := by
    rw [steps_eq_max]
    push_cast
    rfl
  rw [hcast]
  generalize (a : K) = a
  generalize (b : K) = b
  -- The vertex that is furthest along the vector decides which of the three axes bounds it.
  rcases le_total 0 a with ha | ha <;> rcases le_total 0 b with hb | hb
  · apply le_max_of_le_right
    rw [abs_of_nonneg (add_nonneg ha hb)]
    nlinarith
  · rcases le_total 0 (a + b) with hab | hab
    · apply le_max_of_le_left (le_max_of_le_left _)
      rw [abs_of_nonneg ha]
      nlinarith
    · apply le_max_of_le_left (le_max_of_le_right _)
      rw [abs_of_nonpos hb]
      nlinarith
  · rcases le_total 0 (a + b) with hab | hab
    · apply le_max_of_le_left (le_max_of_le_right _)
      rw [abs_of_nonneg hb]
      nlinarith
    · apply le_max_of_le_left (le_max_of_le_left _)
      rw [abs_of_nonpos ha]
      nlinarith
  · apply le_max_of_le_right
    rw [abs_of_nonpos (add_nonpos ha hb)]
    nlinarith

/-- From inside the hexagon no other lattice point is nearer. -/
theorem Inside.normSq_le {x y : K} (h : Inside x y) (a b : ℤ) : normSq x y ≤ normSq (x - a) (y - b) := by
  obtain ⟨hxy, hyz, hxz⟩ := h
  have hu : |2 * x + y| ≤ 1 := by
    rw [show 2 * x + y = x - (-x - y) by ring]
    exact hxz
  have hv : |2 * y + x| ≤ 1 := by
    rw [show 2 * y + x = y - (-x - y) by ring]
    exact hyz
  have huv : |2 * x + y - (2 * y + x)| ≤ 1 := by
    rw [show 2 * x + y - (2 * y + x) = x - y by ring]
    exact hxy
  have hprojection := projection_le_steps hu hv huv a b
  have hsteps : ((steps a b : ℤ) : K) ≤ ((normSq a b : ℤ) : K) := Int.cast_le.mpr (steps_le_normSq a b)
  unfold normSq at hsteps ⊢
  push_cast at hsteps
  linarith

/-- Of the errors of three coordinates that are rounded the largest is replaced by the sum of the other two: the point
is inside the hexagon then. -/
theorem inside_of_drift {u v w : K} {t : ℤ} (hsum : u + v + w = t) (hu : |u| ≤ 1 / 2) (hv : |v| ≤ |u|) (hw : |w| ≤ |u|) :
    Inside (-v - w) v := by
  have hv' := abs_le.mp (hv.trans hu)
  have hw' := abs_le.mp (hw.trans hu)
  have hu' := abs_le.mp hu
  have ht : t = 0 ∨ t = 1 ∨ t = -1 := by
    have hupper : (t : K) < 2 := by rw [← hsum]; linarith
    have hlower : (-2 : K) < t := by rw [← hsum]; linarith
    have hupper' : t < 2 := by exact_mod_cast hupper
    have hlower' : -2 < t := by exact_mod_cast hlower
    omega
  rw [abs_le] at hu
  unfold Inside
  simp only [abs_le]
  rcases abs_cases u with ⟨hus, hsu⟩ | ⟨hus, hsu⟩ <;> rw [hus, abs_le] at hv hw <;>
    rcases ht with rfl | rfl | rfl <;> push_cast at hsum <;> refine ⟨⟨?_, ?_⟩, ⟨?_, ?_⟩, ⟨?_, ?_⟩⟩ <;> linarith

omit [IsStrictOrderedRing K] in
/-- The hexagon is the same from each of its three axes. -/
theorem Inside.rotate {x y : K} (h : Inside x y) : Inside y (-x - y) := by
  obtain ⟨hxy, hyz, hxz⟩ := h
  refine ⟨hyz, ?_, ?_⟩
  · rw [show -x - y - (-y - (-x - y)) = -(x - (-x - y)) by ring, abs_neg]
    exact hxz
  · rw [show y - (-y - (-x - y)) = -(x - y) by ring, abs_neg]
    exact hxy

end nearest

end HexLattice
