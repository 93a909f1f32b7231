import Mathlib.Data.Fintype.Card
import Mathlib.Logic.Function.Basic
import Mathlib.Logic.Relation
import Mathlib.Order.Nat

/-! Forests given by the parent of each element. Taking an element out from between its children and its
parent, or hanging it somewhere that is not below it, closes no cycle. Walking up by a number of steps, and
how long a walk that ends can be. -/

namespace Forest

variable {α : Type*}

/-- One step up. -/
def Up (parent : α → Option α) (a b : α) : Prop := parent a = some b

/-- Nothing is above itself. -/
def Acyclic (parent : α → Option α) : Prop := ∀ a, ¬Relation.TransGen (Up parent) a a

/-- `b` is `a` or above it. -/
def Reaches (parent : α → Option α) : α → α → Prop := Relation.ReflTransGen (Up parent)

variable {parent parent' : α → Option α} {a b c : α}

theorem Reaches.cases (h : Reaches parent a b) : a = b ∨ ∃ c, parent a = some c ∧ Reaches parent c b :=
  h.cases_head

/-- Parents of lower rank than their children close no cycle. -/
theorem Acyclic.of_rank (rank : α → ℕ) (hrank : ∀ a b, parent a = some b → rank b < rank a) :
    Acyclic parent := by
  intro a hcycle
  have hbelow (b : α) (hpath : Relation.TransGen (Up parent) a b) : rank b < rank a := by
    induction hpath with
    | single hstep => exact hrank _ _ hstep
    | tail _ hstep ih => exact (hrank _ _ hstep).trans ih
  exact lt_irrefl _ (hbelow a hcycle)

/-- Steps that were above already close no cycle. -/
theorem Acyclic.of_transGen (h : Acyclic parent)
    (hsteps : ∀ a b, parent' a = some b → Relation.TransGen (Up parent) a b) : Acyclic parent' := by
  intro a hcycle
  refine h a ?_
  have hlift (b : α) (hpath : Relation.TransGen (Up parent') a b) : Relation.TransGen (Up parent) a b := by
    induction hpath with
    | single hstep => exact hsteps _ _ hstep
    | tail _ hstep ih => exact ih.trans (hsteps _ _ hstep)
  exact hlift a hcycle

/-- The children of an element are handed to its parent. -/
theorem Acyclic.bypass (h : Acyclic parent) (a : α)
    (hsteps : ∀ b c, parent' b = some c → parent b = some c ∨ parent b = some a ∧ parent a = some c) :
    Acyclic parent' := by
  refine h.of_transGen fun b c hbc => ?_
  rcases hsteps b c hbc with hsame | ⟨hchild, hparent⟩
  · exact .single hsame
  · exact .tail (.single hchild) hparent

/-- An element is hung under one that is not below it. -/
theorem Acyclic.hang [DecidableEq α] (h : Acyclic parent) (hab : ¬Reaches parent b a) :
    Acyclic (Function.update parent a (some b)) := by
  -- a path that uses the new step goes up to it, and on from `b`
  have hpath (x y : α) (hxy : Relation.TransGen (Up (Function.update parent a (some b))) x y) :
      Relation.TransGen (Up parent) x y ∨ Reaches parent x a ∧ Reaches parent b y := by
    have hstep (y z : α) (hyz : Up (Function.update parent a (some b)) y z) :
        (y = a ∧ z = b) ∨ Up parent y z := by
      by_cases hy : y = a
      · subst hy
        exact .inl ⟨rfl, by simpa [Up] using hyz.symm⟩
      · exact .inr (by simpa [Up, hy] using hyz)
    induction hxy with
    | single hxy =>
        rcases hstep _ _ hxy with ⟨rfl, rfl⟩ | hold
        · exact .inr ⟨.refl, .refl⟩
        · exact .inl (.single hold)
    | tail _ hyz ih =>
        rcases hstep _ _ hyz with ⟨rfl, rfl⟩ | hold
        · rcases ih with hbefore | ⟨hbefore, -⟩
          · exact .inr ⟨hbefore.to_reflTransGen, .refl⟩
          · exact .inr ⟨hbefore, .refl⟩
        · rcases ih with hbefore | ⟨hbefore, hafter⟩
          · exact .inl (hbefore.tail hold)
          · exact .inr ⟨hbefore, hafter.tail hold⟩
  intro x hcycle
  rcases hpath x x hcycle with hold | ⟨hup, hdown⟩
  · exact h x hold
  · exact hab (hdown.trans hup)

/-- An element hung under one that is below it closes a cycle. -/
theorem Acyclic.hang_iff [DecidableEq α] (h : Acyclic parent) :
    Acyclic (Function.update parent a (some b)) ↔ ¬Reaches parent b a := by
  refine ⟨fun hhung hreaches => ?_, h.hang⟩
  -- the way up to `a` is still there, as far as where it first meets it
  have hkept (x : α) (hx : Reaches parent x a) : Reaches (Function.update parent a (some b)) x a := by
    induction hx using Relation.ReflTransGen.head_induction_on with
    | refl => exact .refl
    | @head x y hxy _ ih =>
        by_cases hself : x = a
        · subst hself
          exact .refl
        · exact .head ((Function.update_of_ne hself _ _).trans hxy) ih
  exact hhung a (.head' (Function.update_self _ _ _) (hkept b hreaches))

/-- So many steps up, while there is a parent. -/
def climb (parent : α → Option α) : ℕ → α → Option α
  | 0, a => some a
  | k + 1, a => (parent a).bind (climb parent k)

/-- Walking up comes to an end. -/
def Ends (parent : α → Option α) (a : α) : Prop := ∃ k, climb parent k a = none

theorem climb_add (i j : ℕ) (a : α) : climb parent (i + j) a = (climb parent i a).bind (climb parent j) := by
  induction i generalizing a with
  | zero => simp [climb]
  | succ i ih =>
      rw [Nat.succ_add, climb, climb, Option.bind_assoc]
      exact congrArg _ (funext ih)

theorem reaches_iff_climb : Reaches parent a b ↔ ∃ k, climb parent k a = some b := by
  constructor
  · intro h
    induction h with
    | refl => exact ⟨0, rfl⟩
    | tail _ hstep ih =>
        obtain ⟨k, hk⟩ := ih
        exact ⟨k + 1, by rw [climb_add, hk, Option.bind_some, climb, hstep, Option.bind_some, climb]⟩
  · rintro ⟨k, hk⟩
    induction k generalizing a with
    | zero =>
        obtain rfl : a = b := Option.some.inj hk
        exact .refl
    | succ k ih =>
        obtain ⟨c, hc, hcb⟩ := Option.bind_eq_some_iff.mp hk
        exact .head hc (ih hcb)

theorem climb_mono {i j : ℕ} (h : climb parent i a = none) (hle : i ≤ j) : climb parent j a = none := by
  obtain ⟨k, rfl⟩ := Nat.exists_eq_add_of_le hle
  rw [climb_add, h, Option.bind_none]

/-- A walk that ends visits nothing twice. -/
theorem climb_ne {i j : ℕ} (h : Ends parent a) (hlt : i < j) (hi : climb parent i a = some b) :
    climb parent j a ≠ some b := by
  classical
  intro hj
  have hend := Nat.find_spec h
  have hbound : j < Nat.find h := by
    by_contra hle
    rw [climb_mono hend (not_lt.mp hle)] at hj
    cases hj
  have hshort : climb parent (i + (Nat.find h - j)) a = none := by
    rw [climb_add, hi, Option.bind_some]
    have hsplit : climb parent (j + (Nat.find h - j)) a = _ := climb_add j (Nat.find h - j) a
    rw [Nat.add_sub_cancel' hbound.le, hend, hj, Option.bind_some] at hsplit
    exact hsplit.symm
  exact Nat.find_min h (by omega) hshort

/-- A walk that ends, and stays among some elements, is no longer than they are many. -/
theorem climb_length {among : List α} (hend : Ends parent a) (ha : a ∈ among)
    (hclosed : ∀ b c, parent b = some c → c ∈ among) : climb parent among.length a = none := by
  classical
  by_contra hlong
  have hsome (i : Fin (among.length + 1)) : ∃ b, climb parent i a = some b := by
    refine Option.ne_none_iff_exists'.mp fun hnone => hlong (climb_mono hnone ?_)
    omega
  choose visit hvisit using hsome
  have hmem (k : ℕ) (b : α) (hk : climb parent k a = some b) : b ∈ among := by
    cases k with
    | zero => exact Option.some.inj hk ▸ ha
    | succ k =>
        rw [climb_add, Option.bind_eq_some_iff] at hk
        obtain ⟨c, -, hc⟩ := hk
        simp only [climb, Option.bind_eq_some_iff] at hc
        obtain ⟨d, hd, hdb⟩ := hc
        exact Option.some.inj hdb ▸ hclosed c d hd
  have hinj : Function.Injective visit := by
    intro i j hij
    by_contra hne
    rcases lt_or_gt_of_ne hne with hlt | hlt
    · exact climb_ne hend hlt (hvisit i) (hij ▸ hvisit j)
    · exact climb_ne hend hlt (hvisit j) (hij ▸ hvisit i)
  have hsubset : Finset.univ.image visit ⊆ among.toFinset := by
    intro b hb
    obtain ⟨i, -, rfl⟩ := Finset.mem_image.mp hb
    exact List.mem_toFinset.mpr (hmem i _ (hvisit i))
  have hcard := Finset.card_le_card hsubset
  rw [Finset.card_image_of_injective _ hinj, Finset.card_univ, Fintype.card_fin] at hcard
  exact absurd (hcard.trans among.toFinset_card_le) (by omega)

end Forest
