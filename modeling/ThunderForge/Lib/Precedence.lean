import Mathlib.Data.List.Chain
import Mathlib.Order.Lattice

/-! A value guarded by the mark of whoever wrote it last: a write stands unless that mark comes first in
the order of owners. What a sequence of writes leaves, and when every one of them stands. -/

namespace Precedence

variable {κ β : Type*} [LinearOrder κ]

/-- A value and the mark on it. -/
@[ext] structure Register (κ β : Type*) where
  mark : Option κ
  value : β

/-- A write on an owner's behalf; it may not be possible. -/
structure Offer (κ β : Type*) where
  owner : κ
  write : β → Option β

namespace Register

variable (r : Register κ β)

/-- The mark left behind comes before the owner, or is the owner's own. -/
def Blocks (owner : κ) : Prop := r.mark.any (decide <| · ≤ owner)

instance (owner : κ) : Decidable (r.Blocks owner) := inferInstanceAs (Decidable (_ = true))

theorem blocks_iff {r : Register κ β} {owner : κ} :
    r.Blocks owner ↔ ∃ mark, r.mark = some mark ∧ mark ≤ owner := by
  unfold Blocks
  rw [Option.any_eq_true]
  simp

/-- One write, and whether it stood. -/
def offer (o : Offer κ β) : Register κ β × Bool :=
  if r.Blocks o.owner then (r, false)
  else match o.write r.value with
    | none => (r, false)
    | some value => ({ mark := some o.owner, value }, true)

/-- Writes one after the other. -/
def offers (r : Register κ β) : List (Offer κ β) → Register κ β × List Bool
  | [] => (r, [])
  | o :: os => (((r.offer o).1.offers os).1, (r.offer o).2 :: ((r.offer o).1.offers os).2)

variable {r}

theorem offers_append (left right : List (Offer κ β)) : r.offers (left ++ right) =
    (((r.offers left).1.offers right).1, (r.offers left).2 ++ ((r.offers left).1.offers right).2) := by
  induction left generalizing r with
  | nil => rfl
  | cons o left ih => simp only [List.cons_append, offers, ih]

theorem offer_of_blocks {o : Offer κ β} (h : r.Blocks o.owner) : r.offer o = (r, false) := if_pos h

theorem offer_of_write {o : Offer κ β} {value : β} (h : ¬r.Blocks o.owner) (hwrite : o.write r.value = some value) :
    r.offer o = ({ mark := some o.owner, value }, true) := by
  rw [offer, if_neg h, hwrite]

theorem offer_of_write_none {o : Offer κ β} (hwrite : o.write r.value = none) : r.offer o = (r, false) := by
  by_cases h : r.Blocks o.owner
  · exact offer_of_blocks h
  · rw [offer, if_neg h, hwrite]

/-- A mark blocks its own owner. -/
theorem blocks_self (owner : κ) (value : β) : Register.Blocks { mark := some owner, value } owner :=
  blocks_iff.mpr ⟨owner, rfl, le_rfl⟩

/-- Whom the mark blocks, it goes on blocking. -/
theorem offers_of_blocks {owner : κ} (h : r.Blocks owner) {os : List (Offer κ β)}
    (howner : ∀ o ∈ os, o.owner = owner) : (r.offers os).1 = r := by
  induction os with
  | nil => rfl
  | cons o os ih =>
      have hblocked : r.Blocks o.owner := howner o List.mem_cons_self ▸ h
      have hrest := ih fun o' ho' => howner o' (List.mem_cons_of_mem o ho')
      simp only [offers, offer_of_blocks hblocked, hrest]

/-- Of one owner's writes only the first that is possible can stand. -/
theorem offers_of_owner {owner : κ} (h : ¬r.Blocks owner) {os : List (Offer κ β)}
    (howner : ∀ o ∈ os, o.owner = owner) :
    (r.offers os).1 = match os.findSome? (fun o => o.write r.value) with
      | none => r
      | some value => { mark := some owner, value } := by
  induction os with
  | nil => rfl
  | cons o os ih =>
      have ho : o.owner = owner := howner o List.mem_cons_self
      have hos : ∀ o' ∈ os, o'.owner = owner := fun o' ho' => howner o' (List.mem_cons_of_mem o ho')
      cases hwrite : o.write r.value with
      | none => simp only [offers, offer_of_write_none hwrite, List.findSome?_cons, hwrite, ih hos]
      | some value =>
          have hfirst := offer_of_write (ho ▸ h) hwrite
          have hrest := offers_of_blocks (blocks_self owner value) hos
          simp only [offers, hfirst, List.findSome?_cons, hwrite, ho, hrest]

/-- Writes that a value is always fit for all stand exactly when each owner comes before the one before it,
and the first before the mark. -/
theorem offers_all_stand {fit : β → Prop} {os : List (Offer κ β)}
    (hwrite : ∀ o ∈ os, ∀ value, fit value → ∃ value', o.write value = some value' ∧ fit value')
    (hfit : fit r.value) :
    (∀ stood ∈ (r.offers os).2, stood = true) ↔
      (∀ o ∈ os.head?, ¬r.Blocks o.owner) ∧ (os.map Offer.owner).IsChain (· > ·) := by
  induction os generalizing r with
  | nil => simp [offers]
  | cons o os ih =>
      by_cases hblocks : r.Blocks o.owner
      · simp [offers, offer_of_blocks hblocks, hblocks]
      · obtain ⟨value, hvalue, hfit'⟩ := hwrite o List.mem_cons_self r.value hfit
        have hrest := ih (r := { mark := some o.owner, value })
          (fun o' ho' => hwrite o' (List.mem_cons_of_mem o ho')) hfit'
        rw [offers, offer_of_write hblocks hvalue]
        simp only [List.mem_cons, forall_eq_or_imp, true_and, hrest, List.head?_cons, Option.mem_def,
          Option.some.injEq, forall_eq', hblocks, not_false_eq_true, List.map_cons]
        cases os with
        | nil => simp
        | cons next os => simp [blocks_iff]

/-- What writes that all stand leave: every one of them applied, in order. -/
theorem value_of_all_stand {γ : Type*} {offer : γ → Offer κ β} {write : γ → β → β} {xs : List γ}
    (hwrite : ∀ x ∈ xs, ∀ value value', (offer x).write value = some value' → value' = write x value)
    (hstand : ∀ stood ∈ (r.offers (xs.map offer)).2, stood = true) :
    (r.offers (xs.map offer)).1.value = xs.foldl (fun value x => write x value) r.value := by
  induction xs generalizing r with
  | nil => rfl
  | cons x xs ih =>
      have hfirst : (r.offer (offer x)).2 = true := hstand _ List.mem_cons_self
      have hrest := ih (r := (r.offer (offer x)).1) (fun x' hx' => hwrite x' (List.mem_cons_of_mem x hx'))
        fun stood hstood => hstand stood (List.mem_cons_of_mem _ hstood)
      have hvalue : (r.offer (offer x)).1.value = write x r.value := by
        by_cases hblocks : r.Blocks (offer x).owner
        · simp [offer_of_blocks hblocks] at hfirst
        cases hwritten : (offer x).write r.value with
        | none => simp [offer_of_write_none hwritten] at hfirst
        | some value =>
            rw [offer_of_write hblocks hwritten]
            exact hwrite x List.mem_cons_self r.value value hwritten
      rw [List.map_cons, offers, hrest, hvalue, List.foldl_cons]

end Register

end Precedence
