import Mathlib.Data.List.Sort

/-! Stable sorting by a key, and lists that are strictly ordered by a key: such a list is determined by
its elements, so whatever order they were gathered in does not show. -/

namespace SortBy

variable {α κ : Type*} [LinearOrder κ] (key : α → κ)

/-- Insert before the first element with a key that is not smaller. -/
def insert (x : α) : List α → List α
  | [] => [x]
  | y :: ys => if key x ≤ key y then x :: y :: ys else y :: insert x ys

/-- Sort by the key; elements with one key keep their order. -/
def sortBy (xs : List α) : List α := xs.foldr (insert key) []

theorem insert_perm (x : α) (xs : List α) : (insert key x xs).Perm (x :: xs) := by
  induction xs with
  | nil => exact .refl _
  | cons y ys ih =>
      unfold insert
      split_ifs
      · exact .refl _
      · exact (ih.cons y).trans (.swap x y ys)

theorem sortBy_perm (xs : List α) : (sortBy key xs).Perm xs := by
  induction xs with
  | nil => exact .refl _
  | cons x xs ih => exact (insert_perm key x _).trans (ih.cons x)

@[simp] theorem mem_sortBy {x : α} {xs : List α} : x ∈ sortBy key xs ↔ x ∈ xs :=
  (sortBy_perm key xs).mem_iff

theorem pairwise_insert {x : α} {xs : List α} (h : xs.Pairwise fun a b => key a ≤ key b) :
    (insert key x xs).Pairwise fun a b => key a ≤ key b := by
  induction xs with
  | nil => simp [insert]
  | cons y ys ih =>
      obtain ⟨hy, hys⟩ := List.pairwise_cons.mp h
      unfold insert
      split_ifs with hle
      · refine List.pairwise_cons.mpr ⟨fun z hz => ?_, h⟩
        rcases List.mem_cons.mp hz with rfl | hz
        · exact hle
        · exact hle.trans (hy z hz)
      · refine List.pairwise_cons.mpr ⟨fun z hz => ?_, ih hys⟩
        rcases List.mem_cons.mp ((insert_perm key x ys).mem_iff.mp hz) with rfl | hz
        · exact (not_le.mp hle).le
        · exact hy z hz

theorem pairwise_le_sortBy (xs : List α) : (sortBy key xs).Pairwise fun a b => key a ≤ key b := by
  induction xs with
  | nil => exact .nil
  | cons x xs ih => exact pairwise_insert key ih

/-- With all keys different the order is strict. -/
theorem pairwise_lt_sortBy {xs : List α} (h : (xs.map key).Nodup) :
    (sortBy key xs).Pairwise fun a b => key a < key b := by
  have hne : (sortBy key xs).Pairwise fun a b => key a ≠ key b :=
    List.pairwise_map.mp (((sortBy_perm key xs).map key).nodup_iff.mpr h)
  exact ((pairwise_le_sortBy key xs).and hne).imp fun hboth => hboth.1.lt_of_ne hboth.2

theorem filter_insert [DecidableEq κ] (k : κ) (x : α) (xs : List α) :
    ((insert key x xs).filter fun y => key y = k) = (x :: xs).filter fun y => key y = k := by
  induction xs with
  | nil => rfl
  | cons y ys ih =>
      unfold insert
      split_ifs with hle
      · rfl
      · have hne : key x ≠ key y := fun heq => hle heq.le
        rw [List.filter_cons, ih]
        by_cases hx : key x = k
        · have hy : key y ≠ k := fun hy => hne (hx.trans hy.symm)
          simp [hx, hy]
        · simp [List.filter_cons, hx]

/-- The elements with one key keep their order. -/
theorem filter_sortBy [DecidableEq κ] (k : κ) (xs : List α) :
    ((sortBy key xs).filter fun x => key x = k) = xs.filter fun x => key x = k := by
  induction xs with
  | nil => rfl
  | cons x xs ih =>
      show ((insert key x (sortBy key xs)).filter fun y => key y = k) = _
      rw [filter_insert, List.filter_cons, List.filter_cons, ih]

variable {key}

theorem nodup_of_pairwise_lt {xs : List α} (h : xs.Pairwise fun a b => key a < key b) : xs.Nodup :=
  h.imp fun hlt => ne_of_apply_ne key hlt.ne

/-- A strictly ordered list is determined by its elements. -/
theorem eq_of_pairwise_lt {xs ys : List α} (hxs : xs.Pairwise fun a b => key a < key b)
    (hys : ys.Pairwise fun a b => key a < key b) (h : ∀ x, x ∈ xs ↔ x ∈ ys) : xs = ys := by
  refine List.Perm.eq_of_pairwise (fun a b _ _ hab hba => absurd hab hba.asymm) hxs hys ?_
  exact (List.perm_ext_iff_of_nodup (nodup_of_pairwise_lt hxs) (nodup_of_pairwise_lt hys)).mpr h

/-- An ordered list is determined by what it holds under each key. -/
theorem eq_of_filter_eq [DecidableEq κ] {xs ys : List α} (hxs : xs.Pairwise fun a b => key a ≤ key b)
    (hys : ys.Pairwise fun a b => key a ≤ key b)
    (h : ∀ k, (xs.filter fun x => key x = k) = ys.filter fun y => key y = k) : xs = ys := by
  induction xs generalizing ys with
  | nil =>
      cases ys with
      | nil => rfl
      | cons y ys => simpa using h (key y)
  | cons x xs ih =>
      cases ys with
      | nil => simpa using h (key x)
      | cons y ys =>
          obtain ⟨hx, hxtail⟩ := List.pairwise_cons.mp hxs
          obtain ⟨hy, hytail⟩ := List.pairwise_cons.mp hys
          have hle {a b : α} {as bs : List α} (hbs : ∀ c ∈ bs, key b ≤ key c)
              (hsame : ((a :: as).filter fun c => key c = key a) = (b :: bs).filter fun c => key c = key a) :
              key b ≤ key a := by
            have hmem : a ∈ (b :: bs).filter fun c => key c = key a := by simp [← hsame]
            obtain ⟨hmem, -⟩ := List.mem_filter.mp hmem
            rcases List.mem_cons.mp hmem with rfl | hmem
            · exact le_refl _
            · exact hbs a hmem
          have hkey : key x = key y := le_antisymm (hle hx (h (key y)).symm) (hle hy (h (key x)))
          have hhead := h (key x)
          simp only [List.filter_cons, hkey, decide_true, if_true, List.cons.injEq] at hhead
          obtain ⟨rfl, -⟩ := hhead
          refine congrArg (x :: ·) (ih hxtail hytail fun k => ?_)
          by_cases hk : key x = k
          · simpa [hk] using h k
          · simpa [hk] using h k

theorem eq_of_key_eq {xs : List α} (hxs : xs.Pairwise fun a b => key a < key b) {x y : α}
    (hx : x ∈ xs) (hy : y ∈ xs) (h : key x = key y) : x = y := by
  by_contra hne
  have hkeys : (xs.map key).Nodup := List.pairwise_map.mpr (hxs.imp fun hlt => hlt.ne)
  exact hne (List.inj_on_of_nodup_map hkeys hx hy h)

/-- Sorted by the key or against it, the keys come in one order or the other. -/
theorem map_sortBy_toDual (key : α → κ) (xs : List α) :
    (sortBy (fun x => OrderDual.toDual (key x)) xs).map key = ((sortBy key xs).map key).reverse := by
  have hdown : ((sortBy (fun x => OrderDual.toDual (key x)) xs).map key).Pairwise fun a b => b ≤ a :=
    List.pairwise_map.mpr (pairwise_le_sortBy (fun x => OrderDual.toDual (key x)) xs)
  have hup : ((sortBy key xs).map key).Pairwise fun a b => a ≤ b := List.pairwise_map.mpr (pairwise_le_sortBy key xs)
  have hperm : ((sortBy (fun x => OrderDual.toDual (key x)) xs).map key).Perm ((sortBy key xs).map key).reverse :=
    (((sortBy_perm _ xs).trans (sortBy_perm key xs).symm).map key).trans (List.reverse_perm _).symm
  exact hperm.eq_of_pairwise (fun a b _ _ hab hba => le_antisymm hba hab) hdown (List.pairwise_reverse.mpr hup)

/-- Each run of equal elements once. -/
def dedup {α : Type*} [DecidableEq α] : List α → List α
  | [] => []
  | [x] => [x]
  | x :: y :: rest => if x = y then dedup (y :: rest) else x :: dedup (y :: rest)

@[simp] theorem mem_dedup {α : Type*} [DecidableEq α] {x : α} {xs : List α} : x ∈ dedup xs ↔ x ∈ xs := by
  induction xs using dedup.induct with
  | case1 => simp [dedup]
  | case2 y => simp [dedup]
  | case3 y rest ih =>
      rw [dedup, if_pos rfl, ih]
      simp
  | case4 y z rest hne ih =>
      rw [dedup, if_neg hne, List.mem_cons, ih]
      simp only [List.mem_cons]

end SortBy
