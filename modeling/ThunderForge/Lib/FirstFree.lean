import Mathlib

/-! Names given out in an order: each element tries its names one after the other and takes the first
that no element before it holds. The names an element tries may depend on what the elements before it
hold. Two orders give the same names exactly when no element meets a difference. -/

namespace FirstFree

variable {α β : Type*} [DecidableEq α]

/-- `name` is the first of `names` that is not taken. -/
def IsFirst (taken : List β) (names : ℕ → β) (name : β) : Prop :=
  ∃ i, names i = name ∧ name ∉ taken ∧ ∀ j < i, names j ∈ taken

/-- `other` is tried before `name`. -/
def TriedBefore (names : ℕ → β) (name other : β) : Prop := ∃ j, names j = other ∧ ∀ i ≤ j, names i ≠ name

/-- What is known of the names when some elements hold theirs. -/
def known (slot : α → β) (before : List α) (a : α) : Option β := if a ∈ before then some (slot a) else none

/-- The elements before `a`. -/
def before (order : List α) (a : α) : List α := order.take (order.idxOf a)

variable (tries : α → (α → Option β) → ℕ → β)

/-- Every element of the order holds the first free of the names it tries. -/
def Allocation (order : List α) (slot : α → β) : Prop :=
  ∀ a ∈ order, IsFirst ((before order a).map slot) (tries a (known slot (before order a))) (slot a)

variable {tries} {taken taken' : List β} {names : ℕ → β} {name name' : β} {order part : List α}
  {slot slot' : α → β} {a b : α}

theorem IsFirst.unique (h : IsFirst taken names name) (h' : IsFirst taken names name') : name = name' := by
  obtain ⟨i, rfl, hfree, hskipped⟩ := h
  obtain ⟨j, rfl, hfree', hskipped'⟩ := h'
  rcases lt_trichotomy i j with hlt | rfl | hlt
  · exact absurd (hskipped' i hlt) hfree
  · rfl
  · exact absurd (hskipped j hlt) hfree'

/-- A name that was tried before the first free one was taken. -/
theorem IsFirst.taken_of_tried (h : IsFirst taken names name) (htried : TriedBefore names name name') :
    name' ∈ taken := by
  obtain ⟨i, hname, -, hskipped⟩ := h
  obtain ⟨j, rfl, hbefore⟩ := htried
  refine hskipped j (not_le.mp fun hle => ?_)
  exact hbefore i hle hname

/-- What is tried before the first free name is what is passed over. -/
theorem IsFirst.triedBefore_iff (h : IsFirst taken names name) :
    TriedBefore names name name' ↔ ∃ k, names k = name' ∧ ∀ j ≤ k, names j ∈ taken := by
  obtain ⟨i, hname, hfree, hskipped⟩ := h
  constructor
  · rintro ⟨k, hk, hbefore⟩
    have hlt : k < i := not_le.mp fun hle => hbefore i hle hname
    exact ⟨k, hk, fun j hj => hskipped j (lt_of_le_of_lt hj hlt)⟩
  · rintro ⟨k, hk, htaken⟩
    refine ⟨k, hk, fun j hj hsame => hfree ?_⟩
    rw [← hsame]
    exact htaken j hj

/-- The first free name stays so when what was tried before it stays taken and it stays free. -/
theorem IsFirst.of_tried (h : IsFirst taken names name) (hfree : name ∉ taken')
    (htried : ∀ other ∈ taken, TriedBefore names name other → other ∈ taken') :
    IsFirst taken' names name := by
  obtain ⟨i, hname, hfree₀, hskipped⟩ := h
  refine ⟨i, hname, hfree, fun j hj => htried _ (hskipped j hj) ⟨j, rfl, fun k hk hkname => ?_⟩⟩
  exact hfree₀ (hkname ▸ hskipped k (lt_of_le_of_lt hk hj))

theorem mem_of_mem_before (h : b ∈ before order a) : b ∈ order := List.mem_of_mem_take h

theorem mem_before : b ∈ before order a ↔ b ∈ order ∧ order.idxOf b < order.idxOf a := by
  constructor
  · intro h
    have hmem := mem_of_mem_before h
    exact ⟨hmem, (List.mem_take_iff_idxOf_lt hmem).mp h⟩
  · rintro ⟨hmem, hlt⟩
    exact (List.mem_take_iff_idxOf_lt hmem).mpr hlt

/-- Of two elements of an order one is before the other. -/
theorem before_or_before (ha : a ∈ order) (hb : b ∈ order) (hne : a ≠ b) :
    a ∈ before order b ∨ b ∈ before order a := by
  rw [mem_before, mem_before]
  rcases lt_trichotomy (order.idxOf a) (order.idxOf b) with hlt | heq | hlt
  · exact Or.inl ⟨ha, hlt⟩
  · exact absurd ((List.idxOf_inj ha).mp heq) hne
  · exact Or.inr ⟨hb, hlt⟩

theorem not_before_of_before (h : a ∈ before order b) : b ∉ before order a :=
  fun h' => lt_asymm (mem_before.mp h).2 (mem_before.mp h').2

/-- In an order by a key the smaller key comes first. -/
theorem before_of_key_lt {κ : Type*} [LinearOrder κ] {key : α → κ}
    (hsorted : order.Pairwise fun a b => key a ≤ key b) (ha : a ∈ order) (hb : b ∈ order) (hlt : key a < key b) :
    a ∈ before order b := by
  have hne : a ≠ b := by
    rintro rfl
    exact lt_irrefl _ hlt
  refine (before_or_before ha hb hne).resolve_right fun hbefore => ?_
  have hidx := (mem_before.mp hbefore).2
  have hle := List.pairwise_iff_getElem.mp hsorted _ _ (List.idxOf_lt_length_of_mem hb)
    (List.idxOf_lt_length_of_mem ha) hidx
  rw [List.getElem_idxOf, List.getElem_idxOf] at hle
  exact not_lt.mpr hle hlt

/-- What holds of each element of an order once it holds of those before it holds of all. -/
theorem order_induction {P : α → Prop} (h : ∀ a ∈ order, (∀ b ∈ before order a, P b) → P a) :
    ∀ a ∈ order, P a := by
  intro a ha
  induction hn : order.idxOf a using Nat.strong_induction_on generalizing a with
  | h n ih =>
      refine h a ha fun b hb => ?_
      obtain ⟨hmem, hlt⟩ := mem_before.mp hb
      exact ih _ (hn ▸ hlt) b hmem rfl

/-- No two elements hold the same name. -/
theorem Allocation.injective (h : Allocation tries order slot) (ha : a ∈ order) (hb : b ∈ order)
    (hslot : slot a = slot b) : a = b := by
  by_contra hne
  rcases before_or_before ha hb hne with hbefore | hbefore
  · obtain ⟨-, -, hfree, -⟩ := h b hb
    exact hfree (hslot ▸ List.mem_map_of_mem hbefore)
  · obtain ⟨-, -, hfree, -⟩ := h a ha
    exact hfree (hslot ▸ List.mem_map_of_mem hbefore)

theorem known_congr {before : List α} (h : ∀ b ∈ before, slot b = slot' b) :
    known slot before = known slot' before := by
  funext b
  unfold known
  split_ifs with hb
  · rw [h b hb]
  · rfl

theorem before_concat_of_mem (ha : a ∈ order) (b : α) : before (order ++ [b]) a = before order a := by
  rw [before, before, List.idxOf_append_of_mem ha, List.take_append_of_le_length (List.idxOf_lt_length_of_mem ha).le]

theorem before_concat_self (ha : a ∉ order) : before (order ++ [a]) a = order := by
  rw [before, List.idxOf_append_of_notMem ha, List.idxOf_cons_self, Nat.add_zero, List.take_left' rfl]

/-- One more element takes the first free of the names it tries. -/
theorem Allocation.concat (h : Allocation tries order slot) (ha : a ∉ order)
    (hfirst : IsFirst (order.map slot) (tries a (known slot order)) name) :
    Allocation tries (order ++ [a]) (Function.update slot a name) := by
  have hsame (b : α) (hb : b ∈ order) : Function.update slot a name b = slot b :=
    Function.update_of_ne (ne_of_mem_of_not_mem hb ha) _ _
  intro b hb
  rcases List.mem_append.mp hb with hb | hb
  · rw [before_concat_of_mem hb, hsame b hb,
      known_congr fun c hc => hsame c (mem_of_mem_before hc),
      List.map_congr_left fun c hc => hsame c (mem_of_mem_before hc)]
    exact h b hb
  · rw [List.mem_singleton.mp hb, before_concat_self ha, Function.update_self, known_congr hsame,
      List.map_congr_left hsame]
    exact hfirst

theorem Allocation.congr_tries {tries' : α → (α → Option β) → ℕ → β} (h : Allocation tries order slot)
    (htries : ∀ a ∈ order, tries a = tries' a) : Allocation tries' order slot :=
  fun a ha => htries a ha ▸ h a ha

variable (tries) in
/-- No element of `part` meets a difference between the two orders: it tries the same names, and none of
those it passes over is held by an element that comes before it in `order` alone. -/
def Unmoved (order part : List α) (slot : α → β) : Prop :=
  ∀ a ∈ part,
    tries a (known slot (before order a)) = tries a (known slot (before part a)) ∧
    ∀ b ∈ before order a, b ∉ before part a →
      ¬TriedBefore (tries a (known slot (before order a))) (slot a) (slot b)

/-- Two orders, one of them of some of the elements of the other, give these the same names exactly when
none of them meets a difference. -/
theorem Allocation.eq_iff (hsep : ∀ a held held' i j, tries a held i = tries a held' j → tries a held = tries a held')
    (h : Allocation tries order slot) (h' : Allocation tries part slot') (hpart : part ⊆ order) :
    (∀ a ∈ part, slot' a = slot a) ↔ Unmoved tries order part slot := by
  constructor
  · intro hsame a ha
    have hfirst := h a (hpart ha)
    have hfirst' := h' a ha
    rw [hsame a ha, known_congr fun b hb => hsame b (mem_of_mem_before hb)] at hfirst'
    have htries : tries a (known slot (before order a)) = tries a (known slot (before part a)) := by
      obtain ⟨i, hi, -⟩ := hfirst
      obtain ⟨j, hj, -⟩ := hfirst'
      exact hsep a _ _ i j (hi.trans hj.symm)
    refine ⟨htries, fun b hb hnot htried => hnot ?_⟩
    rw [htries] at htried
    obtain ⟨c, hc, hslot⟩ := List.mem_map.mp (hfirst'.taken_of_tried htried)
    have hmem := mem_of_mem_before hc
    rw [hsame c hmem] at hslot
    rwa [← h.injective (hpart hmem) (mem_of_mem_before hb) hslot]
  · intro hunmoved
    refine order_induction fun a ha hbefore => ?_
    obtain ⟨htries, htried⟩ := hunmoved a ha
    have hfirst' := h' a ha
    rw [known_congr hbefore, ← htries] at hfirst'
    refine hfirst'.unique ((h a (hpart ha)).of_tried (fun hmem => ?_) fun other hother hskip => ?_)
    · obtain ⟨b, hb, hslot⟩ := List.mem_map.mp hmem
      have hmem := mem_before.mp hb
      rw [hbefore b hb] at hslot
      exact hmem.2.ne (congrArg (List.idxOf · part) (h.injective (hpart hmem.1) (hpart ha) hslot))
    · obtain ⟨b, hb, rfl⟩ := List.mem_map.mp hother
      by_contra hnot
      refine htried b hb (fun hb' => hnot ?_) hskip
      exact List.mem_map.mpr ⟨b, hb', hbefore b hb'⟩

end FirstFree
