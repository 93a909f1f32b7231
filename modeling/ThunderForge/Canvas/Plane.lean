import Mathlib.Analysis.Complex.Norm
import Mathlib.Tactic.Linarith
import ThunderForge.Canvas.Grid

/-! Lengths in the plane, which is the complex one. -/

namespace ThunderForge.Canvas

namespace Vec2

theorem lengthSquared_nonneg (v : Vec2 ℝ) : 0 ≤ v.lengthSquared := add_nonneg (mul_self_nonneg _) (mul_self_nonneg _)

theorem lengthSquared_sub_self (v : Vec2 ℝ) : (v - v).lengthSquared = 0 := by simp [lengthSquared]

theorem eq_of_lengthSquared_sub {v w : Vec2 ℝ} (h : (v - w).lengthSquared ≤ 0) : v = w := by
  simp only [lengthSquared, sub_x, sub_y] at h
  have hx := mul_self_nonneg (v.x - w.x)
  have hy := mul_self_nonneg (v.y - w.y)
  have hx0 : (v.x - w.x) * (v.x - w.x) = 0 := by linarith
  have hy0 : (v.y - w.y) * (v.y - w.y) = 0 := by linarith
  exact Vec2.ext (sub_eq_zero.mp (mul_self_eq_zero.mp hx0)) (sub_eq_zero.mp (mul_self_eq_zero.mp hy0))

theorem lengthSquared_sub_comm (v w : Vec2 ℝ) : (v - w).lengthSquared = (w - v).lengthSquared := by
  simp only [lengthSquared, sub_x, sub_y]
  ring

theorem length_le_length_iff {v w : Vec2 ℝ} : v.length ≤ w.length ↔ v.lengthSquared ≤ w.lengthSquared :=
  Real.sqrt_le_sqrt_iff w.lengthSquared_nonneg

theorem length_eq_iff {v : Vec2 ℝ} {d : ℝ} (hd : 0 < d) : v.length = d ↔ v.lengthSquared = d ^ 2 :=
  (Real.sqrt_eq_iff_mul_self_eq_of_pos hd).trans (by rw [eq_comm, sq])

theorem add_zero (v : Vec2 ℝ) : v + 0 = v := by ext <;> simp

theorem length_eq_norm (v : Vec2 ℝ) : v.length = ‖(⟨v.x, v.y⟩ : ℂ)‖ := by
  rw [Complex.norm_def, Complex.normSq_apply]
  rfl

theorem length_sub_le (a b c : Vec2 ℝ) : (c - a).length ≤ (b - a).length + (c - b).length := by
  rw [length_eq_norm, length_eq_norm, length_eq_norm]
  refine le_of_eq_of_le (congrArg _ ?_) (norm_add_le _ _)
  apply Complex.ext <;> simp

end Vec2

end ThunderForge.Canvas
