import Mathlib
import ThunderForge.Lib.Tailing

/-! What is left of a sequence when everything is dropped that does not rise above all that came before it. -/

namespace Rising

variable {ρ ι : Type*} [LinearOrder ι] (key : ρ → ι)

/-- The elements with a key above the bound and above every key before them. -/
def rising : ι → List ρ → List ρ
  | _, [] => []
  | bound, r :: rest => if key r ≤ bound then rising bound rest else r :: rising (key r) rest

variable {key} {bound : ι} {r : ρ} {rest : List ρ}

@[simp] theorem rising_nil : rising key bound [] = [] := rfl

theorem rising_cons_of_le (h : key r ≤ bound) : rising key bound (r :: rest) = rising key bound rest := if_pos h

theorem rising_cons_of_lt (h : bound < key r) : rising key bound (r :: rest) = r :: rising key (key r) rest :=
  if_neg (not_le.mpr h)

@[simp] theorem passed_nil : Tailing.passed key bound [] = bound := rfl

@[simp] theorem passed_cons : Tailing.passed key bound (r :: rest) = Tailing.passed key (max bound (key r)) rest := rfl

theorem passed_append (left right : List ρ) :
    Tailing.passed key bound (left ++ right) = Tailing.passed key (Tailing.passed key bound left) right :=
  List.foldl_append

theorem rising_append (left right : List ρ) :
    rising key bound (left ++ right) = rising key bound left ++ rising key (Tailing.passed key bound left) right := by
  induction left generalizing bound with
  | nil => rfl
  | cons r left ih =>
      rw [List.cons_append, passed_cons]
      rcases le_or_gt (key r) bound with hle | hlt
      · rw [rising_cons_of_le hle, rising_cons_of_le hle, ih, max_eq_left hle]
      · rw [rising_cons_of_lt hlt, rising_cons_of_lt hlt, ih, max_eq_right hlt.le, List.cons_append]

theorem rising_sublist (batch : List ρ) : (rising key bound batch).Sublist batch := by
  induction batch generalizing bound with
  | nil => exact .slnil
  | cons r rest ih =>
      rcases le_or_gt (key r) bound with hle | hlt
      · rw [rising_cons_of_le hle]
        exact ih.cons r
      · rw [rising_cons_of_lt hlt]
        exact ih.cons_cons r

/-- An element is left exactly when it comes once before everything that reaches its key. -/
theorem mem_rising {batch : List ρ} :
    r ∈ rising key bound batch ↔
      bound < key r ∧ ∃ before after, batch = before ++ r :: after ∧ ∀ earlier ∈ before, key earlier < key r := by
  induction batch generalizing bound with
  | nil => simp
  | cons first rest ih =>
      have hsplit : (∃ before after, first :: rest = before ++ r :: after ∧ ∀ earlier ∈ before, key earlier < key r) ↔
          first = r ∨ key first < key r ∧
            ∃ before after, rest = before ++ r :: after ∧ ∀ earlier ∈ before, key earlier < key r := by
        constructor
        · rintro ⟨before, after, heq, hbefore⟩
          rcases List.cons_eq_append_iff.mp heq with ⟨rfl, heq⟩ | ⟨before, rfl, rfl⟩
          · exact Or.inl (List.cons.inj heq).1
          · exact Or.inr ⟨hbefore first List.mem_cons_self, before, after, rfl,
              fun earlier hmem => hbefore earlier (List.mem_cons_of_mem _ hmem)⟩
        · rintro (rfl | ⟨hfirst, before, after, rfl, hbefore⟩)
          · exact ⟨[], rest, rfl, by rintro earlier ⟨⟩⟩
          · exact ⟨first :: before, after, rfl, List.forall_mem_cons.mpr ⟨hfirst, hbefore⟩⟩
      rw [hsplit]
      rcases le_or_gt (key first) bound with hle | hlt
      · rw [rising_cons_of_le hle, ih]
        refine and_congr_right fun hbound => ?_
        have hne : first ≠ r := fun heq => absurd hbound (not_lt.mpr (heq ▸ hle))
        rw [or_iff_right hne, and_iff_right (hle.trans_lt hbound)]
      · rw [rising_cons_of_lt hlt, List.mem_cons, ih]
        constructor
        · rintro (rfl | ⟨hfirst, hrest⟩)
          · exact ⟨hlt, Or.inl rfl⟩
          · exact ⟨hlt.trans hfirst, Or.inr ⟨hfirst, hrest⟩⟩
        · rintro ⟨-, rfl | ⟨hfirst, hrest⟩⟩
          · exact Or.inl rfl
          · exact Or.inr ⟨hfirst, hrest⟩

theorem lt_of_mem_rising {batch : List ρ} (h : r ∈ rising key bound batch) : bound < key r := (mem_rising.mp h).1

theorem pairwise_lt_rising (batch : List ρ) : (rising key bound batch).Pairwise fun a b => key a < key b := by
  induction batch generalizing bound with
  | nil => exact .nil
  | cons r rest ih =>
      rcases le_or_gt (key r) bound with hle | hlt
      · rw [rising_cons_of_le hle]
        exact ih
      · rw [rising_cons_of_lt hlt]
        exact List.pairwise_cons.mpr ⟨fun later hmem => lt_of_mem_rising hmem, ih⟩

/-- Of what rises already, all is left that is above the bound. -/
theorem mem_rising_of_pairwise {batch : List ρ} (h : batch.Pairwise fun a b => key a < key b) :
    r ∈ rising key bound batch ↔ r ∈ batch ∧ bound < key r := by
  rw [mem_rising]
  constructor
  · rintro ⟨hbound, before, after, rfl, -⟩
    exact ⟨List.mem_append_right _ List.mem_cons_self, hbound⟩
  · rintro ⟨hmem, hbound⟩
    obtain ⟨before, after, rfl⟩ := List.append_of_mem hmem
    exact ⟨hbound, before, after, rfl, fun earlier hearlier =>
      (List.pairwise_append.mp h).2.2 earlier hearlier r List.mem_cons_self⟩

end Rising
