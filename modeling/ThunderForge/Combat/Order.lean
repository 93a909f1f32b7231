import Mathlib.Data.List.Range
import Mathlib.Data.Prod.Lex
import Mathlib.Order.Compare
import ThunderForge.Lib.RoundRobin
import ThunderForge.Lib.SortBy

/-! Turn order (`thunderforge-combat/src/order.rs`): who goes first, and who goes next. -/

namespace ThunderForge.Combat

open OrderDual (toDual)

/-- What turn order reads of a combatant. -/
structure Seat (Id : Type) where
  id : Id
  initiative : ℤ
  tiebreak : ℤ
  /-- False for a combatant that is downed or out of the fight. -/
  active : Bool
  deriving DecidableEq

variable {Id : Type} [LinearOrder Id]

/-- The single comparison turn order is. -/
def turnOrder (a b : Seat Id) : Ordering :=
  (compare b.initiative a.initiative).then ((compare b.tiebreak a.tiebreak).then (compare a.id b.id))

/-- Where a combatant is in turn order: initiative descending, then `tiebreak` descending, then id. -/
def Seat.place (seat : Seat Id) : ℤᵒᵈ ×ₗ ℤᵒᵈ ×ₗ Id :=
  toLex (toDual seat.initiative, toLex (toDual seat.tiebreak, seat.id))

theorem turnOrder_eq_lt (a b : Seat Id) : turnOrder a b = .lt ↔ a.place < b.place := by
  unfold turnOrder Seat.place
  rw [Ordering.then_eq_lt, Ordering.then_eq_lt, compare_lt_iff_lt, compare_lt_iff_lt, compare_lt_iff_lt,
    compare_eq_iff_eq, compare_eq_iff_eq, Prod.Lex.toLex_lt_toLex, Prod.Lex.toLex_lt_toLex]
  simp only [OrderDual.toDual_lt_toDual, OrderDual.toDual_inj, eq_comm]

/-- Sort into turn order; the sort is stable. -/
def sortSeats (seats : List (Seat Id)) : List (Seat Id) := SortBy.sortBy Seat.place seats

/-- Index of the combatant that takes the turn after `activeId`, and whether the turn passed the end of the order. -/
def nextTurn (ordered : List (Seat Id)) (activeId : Option Id) : Option (ℕ × Bool) :=
  if ordered.isEmpty then none
  else
    let current := activeId.bind fun id => ordered.findIdx? fun seat => seat.id = id
    let len := ordered.length
    let (start, firstOffset) :=
      match current with
      | some index => (index, 1)
      | none => (0, 0)
    let taken := (List.range' firstOffset len).find? fun offset =>
      ordered[(start + offset) % len]?.any Seat.active
    taken.map fun offset => ((start + offset) % len, current.isSome && decide (len ≤ start + offset))

/-! The ring from a holder on, and from the top. -/

/-- The search past the combatant at an index. -/
theorem nextTurn_past {ordered : List (Seat Id)} {id : Id} {index : ℕ}
    (h : (ordered.findIdx? fun seat => seat.id = id) = some index) :
    nextTurn ordered (some id) =
      ((List.range' 1 ordered.length).find? fun offset =>
        ordered[(index + offset) % ordered.length]?.any Seat.active).map
          fun offset => ((index + offset) % ordered.length, decide (ordered.length ≤ index + offset)) := by
  have hne : ordered.isEmpty = false := by
    cases ordered with
    | nil => simp at h
    | cons seat rest => rfl
  simp only [nextTurn, hne, Bool.false_eq_true, if_false, Option.bind_some, h, Option.isSome_some, Bool.true_and]

/-- The search from the top, when nobody that is in the order holds the turn. -/
theorem nextTurn_enter {ordered : List (Seat Id)} {activeId : Option Id} (hne : ordered ≠ [])
    (h : (activeId.bind fun id => ordered.findIdx? fun seat => seat.id = id) = none) :
    nextTurn ordered activeId =
      ((List.range' 0 ordered.length).find? fun offset => ordered[offset % ordered.length]?.any Seat.active).map
          fun offset => (offset % ordered.length, false) := by
  have hempty : ordered.isEmpty = false := by simpa using hne
  simp only [nextTurn, hempty, Bool.false_eq_true, if_false, h, Option.isSome_none, Bool.false_and, Nat.zero_add]

/-- Every place of a ring is some way past each other one, itself last. -/
theorem exists_offset {index j len : ℕ} (hindex : index < len) (hj : j < len) :
    ∃ offset, 1 ≤ offset ∧ offset < 1 + len ∧ (index + offset) % len = j := by
  by_cases hlt : index < j
  · refine ⟨j - index, by omega, by omega, ?_⟩
    rw [Nat.add_sub_cancel' hlt.le, Nat.mod_eq_of_lt hj]
  · refine ⟨j + len - index, by omega, by omega, ?_⟩
    rw [show index + (j + len - index) = j + len by omega, Nat.add_mod_right, Nat.mod_eq_of_lt hj]

theorem index_lt {ordered : List (Seat Id)} {id : Id} {index : ℕ}
    (h : (ordered.findIdx? fun seat => seat.id = id) = some index) : index < ordered.length := by
  rw [List.findIdx?_eq_some_iff_getElem] at h
  exact h.choose

theorem nextTurn_eq_none_iff {ordered : List (Seat Id)} {activeId : Option Id} :
    nextTurn ordered activeId = none ↔ ∀ seat ∈ ordered, seat.active = false := by
  by_cases hempty : ordered = []
  · subst hempty
    simp [nextTurn]
  have hinactive : (∀ seat ∈ ordered, seat.active = false) ↔ ∀ j < ordered.length, ordered[j]?.any Seat.active = false := by
    rw [List.forall_mem_iff_getElem]
    refine forall₂_congr fun j hj => ?_
    rw [List.getElem?_eq_getElem hj, Option.any_some]
  cases hcurrent : activeId.bind fun id => ordered.findIdx? fun seat => seat.id = id with
  | none =>
      rw [nextTurn_enter hempty hcurrent, Option.map_eq_none_iff, List.find?_range'_eq_none, hinactive]
      simp only [Bool.not_eq_true']
      constructor
      · intro h j hj
        simpa [Nat.mod_eq_of_lt hj] using h j (Nat.zero_le j) (by omega)
      · intro h offset _ _
        exact h _ (Nat.mod_lt _ (List.length_pos_iff.mpr hempty))
  | some index =>
      obtain ⟨id, rfl, hfind⟩ := Option.bind_eq_some_iff.mp hcurrent
      rw [nextTurn_past hfind, Option.map_eq_none_iff, List.find?_range'_eq_none, hinactive]
      simp only [Bool.not_eq_true']
      constructor
      · intro h j hj
        obtain ⟨offset, hfirst, hlast, hoffset⟩ := exists_offset (index_lt hfind) hj
        simpa [hoffset] using h offset hfirst hlast
      · intro h offset _ _
        exact h _ (Nat.mod_lt _ (List.length_pos_iff.mpr hempty))

/-- The turn taken from the top goes to the first who is active. -/
theorem nextTurn_enter_spec {ordered : List (Seat Id)} {activeId : Option Id} {idx : ℕ} {wrapped : Bool}
    (hcurrent : (activeId.bind fun id => ordered.findIdx? fun seat => seat.id = id) = none)
    (h : nextTurn ordered activeId = some (idx, wrapped)) :
    wrapped = false ∧ (∃ seat, ordered[idx]? = some seat ∧ seat.active = true) ∧
      ∀ (j : ℕ) (seat : Seat Id), ordered[j]? = some seat → seat.active = true → idx ≤ j := by
  have hne : ordered ≠ [] := by
    rintro rfl
    simp [nextTurn] at h
  rw [nextTurn_enter hne hcurrent, Option.map_eq_some_iff] at h
  obtain ⟨offset, hfind, heq⟩ := h
  obtain ⟨rfl, rfl⟩ := Prod.mk.inj heq
  obtain ⟨htaken, hrange, hbefore⟩ := List.find?_range'_eq_some.mp hfind
  have hlt : offset < ordered.length := by simpa using hrange
  rw [Nat.mod_eq_of_lt hlt] at htaken ⊢
  refine ⟨rfl, (Option.any_eq_true _ _).mp htaken, fun j seat hj hactive => ?_⟩
  by_contra hearlier
  have hskipped := hbefore j (Nat.zero_le j) (by omega)
  rw [Nat.mod_eq_of_lt (by omega), hj] at hskipped
  simp [hactive] at hskipped

/-- The turn taken past a combatant goes to the next who is active, or when there is none to the first. -/
theorem nextTurn_past_spec {ordered : List (Seat Id)} {id : Id} {index idx : ℕ} {wrapped : Bool}
    (hcurrent : (ordered.findIdx? fun seat => seat.id = id) = some index)
    (h : nextTurn ordered (some id) = some (idx, wrapped)) :
    (∃ seat, ordered[idx]? = some seat ∧ seat.active = true) ∧
      ((wrapped = false ∧ index < idx ∧
        ∀ (j : ℕ) (seat : Seat Id), ordered[j]? = some seat → seat.active = true → index < j → idx ≤ j) ∨
      (wrapped = true ∧
        ∀ (j : ℕ) (seat : Seat Id), ordered[j]? = some seat → seat.active = true → j ≤ index ∧ idx ≤ j)) := by
  have hindex := index_lt hcurrent
  rw [nextTurn_past hcurrent, Option.map_eq_some_iff] at h
  obtain ⟨offset, hfind, heq⟩ := h
  obtain ⟨hidx, hwrapped⟩ := Prod.mk.inj heq
  obtain ⟨htaken, hrange, hbefore⟩ := List.find?_range'_eq_some.mp hfind
  obtain ⟨hfirst, hlast⟩ := List.mem_range'_1.mp hrange
  rw [hidx] at htaken
  refine ⟨(Option.any_eq_true _ _).mp htaken, ?_⟩
  -- Nobody that is active is passed over.
  have hskip {j : ℕ} {seat : Seat Id} (hj : ordered[j]? = some seat) (hactive : seat.active = true) (passed : ℕ)
      (hpassed : 1 ≤ passed) (hat : (index + passed) % ordered.length = j) : offset ≤ passed := by
    by_contra hearlier
    have hskipped := hbefore passed hpassed (by omega)
    rw [hat, hj] at hskipped
    simp [hactive] at hskipped
  by_cases hend : ordered.length ≤ index + offset
  · refine .inr ⟨by simpa [hend] using hwrapped.symm, fun j seat hj hactive => ?_⟩
    have hjlt := (List.getElem?_eq_some_iff.mp hj).1
    have hidx' : idx = index + offset - ordered.length := by
      rw [← hidx, Nat.mod_eq_sub_mod hend, Nat.mod_eq_of_lt (by omega)]
    have hnotlater : j ≤ index := by
      by_contra hlater
      have := hskip hj hactive (j - index) (by omega)
        (by rw [Nat.add_sub_cancel' (by omega), Nat.mod_eq_of_lt hjlt])
      omega
    have hround := hskip hj hactive (j + ordered.length - index) (by omega)
      (by rw [show index + (j + ordered.length - index) = j + ordered.length by omega, Nat.add_mod_right,
        Nat.mod_eq_of_lt hjlt])
    exact ⟨hnotlater, by omega⟩
  · have hidx' : idx = index + offset := by rw [← hidx, Nat.mod_eq_of_lt (by omega)]
    refine .inl ⟨by simpa [hend] using hwrapped.symm, by omega, fun j seat hj hactive hlater => ?_⟩
    have hjlt := (List.getElem?_eq_some_iff.mp hj).1
    have := hskip hj hactive (j - index) (by omega)
      (by rw [Nat.add_sub_cancel' (by omega), Nat.mod_eq_of_lt hjlt])
    omega

theorem exists_taker {ordered : List (Seat Id)} {activeId : Option Id} {idx : ℕ} {wrapped : Bool}
    (h : nextTurn ordered activeId = some (idx, wrapped)) : ∃ seat, ordered[idx]? = some seat ∧ seat.active = true := by
  cases hcurrent : activeId.bind fun id => ordered.findIdx? fun seat => seat.id = id with
  | none => exact (nextTurn_enter_spec hcurrent h).2.1
  | some index =>
      obtain ⟨id, rfl, hfind⟩ := Option.bind_eq_some_iff.mp hcurrent
      exact (nextTurn_past_spec hfind h).1

/-! Places in the order, for combatants that are sorted. -/

theorem place_lt_place_iff {ordered : List (Seat Id)} (hsorted : ordered.Pairwise fun a b => a.place < b.place)
    {i j : ℕ} {a b : Seat Id} (hi : ordered[i]? = some a) (hj : ordered[j]? = some b) : a.place < b.place ↔ i < j := by
  obtain ⟨hilt, rfl⟩ := List.getElem?_eq_some_iff.mp hi
  obtain ⟨hjlt, rfl⟩ := List.getElem?_eq_some_iff.mp hj
  have hmono {i j : ℕ} (hi : i < ordered.length) (hj : j < ordered.length) (h : i < j) :
      ordered[i].place < ordered[j].place := List.pairwise_iff_getElem.mp hsorted i j hi hj h
  rcases lt_trichotomy i j with h | rfl | h
  · exact iff_of_true (hmono hilt hjlt h) h
  · exact iff_of_false (lt_irrefl _) (lt_irrefl _)
  · exact iff_of_false (hmono hjlt hilt h).asymm h.asymm

theorem place_le_place_iff {ordered : List (Seat Id)} (hsorted : ordered.Pairwise fun a b => a.place < b.place)
    {i j : ℕ} {a b : Seat Id} (hi : ordered[i]? = some a) (hj : ordered[j]? = some b) : a.place ≤ b.place ↔ i ≤ j := by
  rw [← not_lt, place_lt_place_iff hsorted hj hi, not_lt]

/-- A combatant of the order is found by its id. -/
theorem exists_index {ordered : List (Seat Id)} (hids : (ordered.map Seat.id).Nodup) {seat : Seat Id}
    (h : seat ∈ ordered) :
    ∃ index, (ordered.findIdx? fun other => other.id = seat.id) = some index ∧ ordered[index]? = some seat := by
  cases hfind : ordered.findIdx? fun other => other.id = seat.id with
  | none =>
      have := List.findIdx?_eq_none_iff.mp hfind seat h
      simp at this
  | some index =>
      obtain ⟨hlt, hid, -⟩ := List.findIdx?_eq_some_iff_getElem.mp hfind
      refine ⟨index, rfl, ?_⟩
      rw [List.getElem?_eq_getElem hlt, Option.some_inj]
      exact List.inj_on_of_nodup_map hids (List.getElem_mem hlt) h (by simpa using hid)

end ThunderForge.Combat
