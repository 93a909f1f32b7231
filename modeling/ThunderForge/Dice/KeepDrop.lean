import ThunderForge.Dice.Sums

/-! Keep and drop (`apply_keep_drop`): they choose the dice by index, in one order or the other, and so keep the
extremes; to keep some is to drop the others. -/

namespace ThunderForge.Dice

/-- The four modifiers that keep or drop. -/
inductive KeepDrop where
  | keepHighest
  | keepLowest
  | dropHighest
  | dropLowest
  deriving DecidableEq

def KeepDrop.modifier : KeepDrop → Nat → Modifier
  | .keepHighest => .keepHighest
  | .keepLowest => .keepLowest
  | .dropHighest => .dropHighest
  | .dropLowest => .dropLowest

/-- How many of some dice are kept. -/
def KeepDrop.keptOf (way : KeepDrop) (n length : Nat) : Nat :=
  match way with
  | .keepHighest => min n length
  | .keepLowest => min n length
  | .dropHighest => length - min n length
  | .dropLowest => length - min n length

/-- How a value that is kept stands to one that is dropped. -/
def KeepDrop.Prefers (way : KeepDrop) (kept dropped : Int) : Prop :=
  match way with
  | .keepHighest => dropped ≤ kept
  | .keepLowest => kept ≤ dropped
  | .dropHighest => kept ≤ dropped
  | .dropLowest => dropped ≤ kept

/-- So many dice are kept, and they are the extremes. -/
structure Selects (way : KeepDrop) (n : Nat) (dice : List DieOutcome) : Prop where
  count : dice.countP DieOutcome.kept = way.keptOf n dice.length
  extreme : ∀ kept ∈ dice, kept.kept = true → ∀ dropped ∈ dice, dropped.kept = false →
    way.Prefers kept.finalValue dropped.finalValue

/-! Modifiers that neither keep nor drop. -/

theorem keepDropStep_other {modifier : Modifier} (h : modifier.keepsOrDrops = false)
    (state : List Nat × List DieOutcome) : keepDropStep state modifier = state := by
  cases modifier with
  | keepHighest n => cases h
  | keepLowest n => cases h
  | dropHighest n => cases h
  | dropLowest n => cases h
  | _ => rfl

theorem applyKeepDrop_filter (modifiers : List Modifier) (outcomes : List DieOutcome) :
    applyKeepDrop (modifiers.filter Modifier.keepsOrDrops) outcomes = applyKeepDrop modifiers outcomes := by
  have hfold (state : List Nat × List DieOutcome) :
      (modifiers.filter Modifier.keepsOrDrops).foldl keepDropStep state = modifiers.foldl keepDropStep state := by
    induction modifiers generalizing state with
    | nil => rfl
    | cons modifier modifiers ih =>
        by_cases h : modifier.keepsOrDrops = true
        · rw [List.filter_cons_of_pos h, List.foldl_cons, List.foldl_cons, ih]
        · rw [List.filter_cons_of_neg h, List.foldl_cons, keepDropStep_other (Bool.eq_false_iff.mpr h), ih]
  exact congrArg Prod.snd (hfold _)

/-! The indices that are kept and dropped. -/

/-- The indices, in the order that puts those in front that are kept, or dropped, first. -/
def KeepDrop.sorted (way : KeepDrop) (outcomes : List DieOutcome) : List Nat :=
  match way with
  | .keepHighest => sortHighest (finalValueAt outcomes) (List.range outcomes.length)
  | .keepLowest => sortLowest (finalValueAt outcomes) (List.range outcomes.length)
  | .dropHighest => sortHighest (finalValueAt outcomes) (List.range outcomes.length)
  | .dropLowest => sortLowest (finalValueAt outcomes) (List.range outcomes.length)

def KeepDrop.kept (way : KeepDrop) (n : Nat) (outcomes : List DieOutcome) : List Nat :=
  match way with
  | .keepHighest => (way.sorted outcomes).take n
  | .keepLowest => (way.sorted outcomes).take n
  | .dropHighest => (way.sorted outcomes).drop n
  | .dropLowest => (way.sorted outcomes).drop n

def KeepDrop.dropped (way : KeepDrop) (n : Nat) (outcomes : List DieOutcome) : List Nat :=
  match way with
  | .keepHighest => (way.sorted outcomes).drop n
  | .keepLowest => (way.sorted outcomes).drop n
  | .dropHighest => (way.sorted outcomes).take n
  | .dropLowest => (way.sorted outcomes).take n

variable {way : KeepDrop} {n : Nat} {modifiers : List Modifier} {outcomes : List DieOutcome}

/-- One modifier drops its indices, and the others none. -/
theorem applyKeepDrop_eq (h : modifiers.filter Modifier.keepsOrDrops = [way.modifier n]) :
    applyKeepDrop modifiers outcomes = markDropped (way.dropped n outcomes) outcomes := by
  rw [← applyKeepDrop_filter, h]
  cases way with
  | keepHighest => rfl
  | keepLowest => rfl
  | dropHighest => rfl
  | dropLowest => rfl

theorem sorted_perm : (way.sorted outcomes).Perm (List.range outcomes.length) := by
  cases way with
  | keepHighest => exact SortBy.sortBy_perm _ _
  | keepLowest => exact SortBy.sortBy_perm _ _
  | dropHighest => exact SortBy.sortBy_perm _ _
  | dropLowest => exact SortBy.sortBy_perm _ _

/-- Every index is kept or dropped, and none is both. -/
theorem kept_append_dropped_perm : (way.kept n outcomes ++ way.dropped n outcomes).Perm (List.range outcomes.length) := by
  have hfront : ((way.sorted outcomes).take n ++ (way.sorted outcomes).drop n).Perm (List.range outcomes.length) := by
    rw [List.take_append_drop]
    exact sorted_perm
  cases way with
  | keepHighest => exact hfront
  | keepLowest => exact hfront
  | dropHighest => exact List.perm_append_comm.trans hfront
  | dropLowest => exact List.perm_append_comm.trans hfront

theorem length_kept : (way.kept n outcomes).length = way.keptOf n outcomes.length := by
  have hlength : (way.sorted outcomes).length = outcomes.length := sorted_perm.length_eq.trans List.length_range
  cases way with
  | keepHighest => exact List.length_take.trans (congrArg (min n) hlength)
  | keepLowest => exact List.length_take.trans (congrArg (min n) hlength)
  | dropHighest =>
      have hdrop : ((KeepDrop.dropHighest.sorted outcomes).drop n).length = outcomes.length - n := by
        rw [List.length_drop, hlength]
      exact hdrop.trans (by simp only [KeepDrop.keptOf]; omega)
  | dropLowest =>
      have hdrop : ((KeepDrop.dropLowest.sorted outcomes).drop n).length = outcomes.length - n := by
        rw [List.length_drop, hlength]
      exact hdrop.trans (by simp only [KeepDrop.keptOf]; omega)

/-- What comes first in the order is at least as extreme as what comes later. -/
theorem prefers_of_mem {i j : Nat} (hi : i ∈ way.kept n outcomes) (hj : j ∈ way.dropped n outcomes) :
    way.Prefers (finalValueAt outcomes i) (finalValueAt outcomes j) := by
  have hordered {κ : Type} [LinearOrder κ] (key : Nat → κ) {front back : Nat}
      (hfront : front ∈ (SortBy.sortBy key (List.range outcomes.length)).take n)
      (hback : back ∈ (SortBy.sortBy key (List.range outcomes.length)).drop n) : key front ≤ key back := by
    have hpairwise := SortBy.pairwise_le_sortBy key (List.range outcomes.length)
    rw [← List.take_append_drop n (SortBy.sortBy key (List.range outcomes.length)), List.pairwise_append] at hpairwise
    exact hpairwise.2.2 front hfront back hback
  cases way with
  | keepHighest => exact hordered (fun index => OrderDual.toDual (finalValueAt outcomes index)) hi hj
  | keepLowest => exact hordered (finalValueAt outcomes) hi hj
  | dropHighest => exact hordered (fun index => OrderDual.toDual (finalValueAt outcomes index)) hj hi
  | dropLowest => exact hordered (finalValueAt outcomes) hj hi

/-! The dice that are kept. -/

section marks

variable {dropped : List Nat} (hkept : ∀ die ∈ outcomes, die.kept = true)

include hkept

/-- A die, by its index. -/
theorem exists_index_of_mem_markDropped {die : DieOutcome} (hdie : die ∈ markDropped dropped outcomes) :
    ∃ index ∈ List.range outcomes.length, die.finalValue = finalValueAt outcomes index ∧
      (die.kept = true ↔ index ∉ dropped) := by
  obtain ⟨index, hindex⟩ := List.mem_iff_getElem?.mp hdie
  rw [markDropped, List.getElem?_mapIdx, Option.map_eq_some_iff] at hindex
  obtain ⟨shown, hshown, hmarked⟩ := hindex
  have hrange : index ∈ List.range outcomes.length := List.mem_range.mpr (List.getElem?_eq_some_iff.mp hshown).1
  have hvalue : finalValueAt outcomes index = shown.finalValue := by rw [finalValueAt, hshown]; rfl
  have hwas : shown.kept = true := hkept shown (List.mem_of_getElem? hshown)
  refine ⟨index, hrange, ?_, ?_⟩
  · rw [hvalue, ← hmarked]
    split_ifs <;> rfl
  · rw [← hmarked]
    split_ifs with hmem
    · exact iff_of_false not_false (not_not.mpr (List.contains_iff_mem.mp hmem))
    · exact iff_of_true hwas fun hin => hmem (List.contains_iff_mem.mpr hin)

/-- The values that are kept are those at the indices that are not dropped. -/
theorem keptValues_markDropped {kept : List Nat} (h : (kept ++ dropped).Perm (List.range outcomes.length)) :
    (keptValues (markDropped dropped outcomes)).Perm (kept.map (finalValueAt outcomes)) := by
  have hvalues : keptValues (markDropped dropped outcomes) =
      ((List.range outcomes.length).filter fun index => index ∉ dropped).map (finalValueAt outcomes) := by
    have hrange : List.range outcomes.length = outcomes.zipIdx.map Prod.snd := by
      rw [List.zipIdx_map_snd, List.range_eq_range']
    unfold keptValues markDropped
    rw [List.mapIdx_eq_zipIdx_map, hrange, List.filter_map, List.filter_map, List.map_map, List.map_map]
    have hstands : ∀ entry ∈ outcomes.zipIdx, outcomes[entry.2]? = some entry.1 := fun entry hentry =>
      List.mem_zipIdx_iff_getElem?.mp hentry
    have hsame : (outcomes.zipIdx.filter (DieOutcome.kept ∘ fun entry =>
          if dropped.contains entry.2 then { entry.1 with kept := false } else entry.1)) =
        outcomes.zipIdx.filter ((fun index => index ∉ dropped) ∘ Prod.snd) := by
      refine List.filter_congr fun entry hentry => ?_
      have hwas : entry.1.kept = true := hkept entry.1 (List.mem_of_getElem? (hstands entry hentry))
      by_cases hmem : entry.2 ∈ dropped
      · simp [hmem]
      · simp [hmem, hwas]
    rw [hsame]
    refine List.map_congr_left fun ⟨die, index⟩ hentry => ?_
    have hat : finalValueAt outcomes index = die.finalValue := by
      rw [finalValueAt, hstands (die, index) (List.mem_of_mem_filter hentry)]
      rfl
    simp only [Function.comp_apply, hat]
    split_ifs <;> rfl
  have hnodup : (kept ++ dropped).Nodup := h.nodup_iff.mpr List.nodup_range
  have hfilter : ((kept ++ dropped).filter fun index => index ∉ dropped) = kept := by
    have hfront : (kept.filter fun index => index ∉ dropped) = kept :=
      List.filter_eq_self.mpr fun index hindex => decide_eq_true fun hdropped =>
        (List.nodup_append.mp hnodup).2.2 index hindex index hdropped rfl
    have hback : (dropped.filter fun index => index ∉ dropped) = [] :=
      List.filter_eq_nil_iff.mpr fun index hindex => by simpa using hindex
    rw [List.filter_append, hfront, hback, List.append_nil]
  rw [hvalues]
  have hperm := (h.symm.filter fun index => index ∉ dropped).map (finalValueAt outcomes)
  rwa [hfilter] at hperm

/-- What the one modifier keeps, by its indices. -/
theorem keptValues_perm (h : modifiers.filter Modifier.keepsOrDrops = [way.modifier n]) :
    (keptValues (applyKeepDrop modifiers outcomes)).Perm ((way.kept n outcomes).map (finalValueAt outcomes)) := by
  rw [applyKeepDrop_eq h]
  exact keptValues_markDropped hkept kept_append_dropped_perm

theorem selects_applyKeepDrop (h : modifiers.filter Modifier.keepsOrDrops = [way.modifier n]) :
    Selects way n (applyKeepDrop modifiers outcomes) where
  count := by
    have hlength : (applyKeepDrop modifiers outcomes).length = outcomes.length :=
      (sameDraws_applyKeepDrop modifiers outcomes).length
    have hkeep := (keptValues_perm hkept h).length_eq
    rw [keptValues, List.length_map, List.length_map, length_kept] at hkeep
    rw [List.countP_eq_length_filter, hkeep, hlength]
  extreme kept hkeptMem hkeptMark dropped hdroppedMem hdroppedMark := by
    rw [applyKeepDrop_eq h] at hkeptMem hdroppedMem
    obtain ⟨i, hi, hvalue, hmark⟩ := exists_index_of_mem_markDropped hkept hkeptMem
    obtain ⟨j, hj, hvalue', hmark'⟩ := exists_index_of_mem_markDropped hkept hdroppedMem
    have hiKept : i ∈ way.kept n outcomes :=
      (List.mem_append.mp (kept_append_dropped_perm.mem_iff.mpr hi)).resolve_right (hmark.mp hkeptMark)
    have hjDropped : j ∈ way.dropped n outcomes :=
      not_not.mp fun hnot => Bool.false_ne_true (hdroppedMark.symm.trans (hmark'.mpr hnot))
    rw [hvalue, hvalue']
    exact prefers_of_mem hiKept hjDropped

end marks

/-! Clamps. -/

theorem clamped_mono (clamps : List Modifier) {v w : Int} (h : v ≤ w) : clamped clamps v ≤ clamped clamps w := by
  unfold clamped
  induction clamps generalizing v w with
  | nil => exact h
  | cons modifier modifiers ih =>
      refine ih ?_
      cases modifier with
      | min n =>
          simp only [clampValue]
          omega
      | max n =>
          simp only [clampValue]
          omega
      | _ => exact h

/-- Clamps leave the choice, and the order of the values. -/
theorem Selects.applyClamp {dice : List DieOutcome} (h : Selects way n dice) (clamps : List Modifier) :
    Selects way n (applyClamp clamps dice) := by
  rw [applyClamp_eq]
  constructor
  · rw [List.countP_map, List.length_map]
    exact h.count
  · intro clampedKept hclampedKept hkeptMark clampedDropped hclampedDropped hdroppedMark
    obtain ⟨kept, hkept, rfl⟩ := List.mem_map.mp hclampedKept
    obtain ⟨dropped, hdropped, rfl⟩ := List.mem_map.mp hclampedDropped
    have hprefers := h.extreme kept hkept hkeptMark dropped hdropped hdroppedMark
    cases way with
    | keepHighest => exact clamped_mono clamps hprefers
    | keepLowest => exact clamped_mono clamps hprefers
    | dropHighest => exact clamped_mono clamps hprefers
    | dropLowest => exact clamped_mono clamps hprefers

/-! Keeping some and dropping the others. -/

/-- The way that drops from the other end. -/
def KeepDrop.complement : KeepDrop → KeepDrop
  | .keepHighest => .dropLowest
  | .keepLowest => .dropHighest
  | .dropHighest => .keepLowest
  | .dropLowest => .keepHighest

/-- To keep some of the dice is to drop the others: the values kept are the same, although the indices need not be. -/
theorem map_kept_complement {way : KeepDrop} (hway : way = .keepHighest ∨ way = .keepLowest) (hn : n ≤ outcomes.length) :
    ((way.complement.kept (outcomes.length - n) outcomes).map (finalValueAt outcomes)).Perm
      ((way.kept n outcomes).map (finalValueAt outcomes)) := by
  have hhighest : (sortHighest (finalValueAt outcomes) (List.range outcomes.length)).map (finalValueAt outcomes) =
      ((sortLowest (finalValueAt outcomes) (List.range outcomes.length)).map (finalValueAt outcomes)).reverse :=
    SortBy.map_sortBy_toDual _ _
  have hlength : ((sortLowest (finalValueAt outcomes) (List.range outcomes.length)).map (finalValueAt outcomes)).length =
      outcomes.length := by
    rw [List.length_map]
    exact (SortBy.sortBy_perm _ _).length_eq.trans List.length_range
  rcases hway with rfl | rfl
  · simp only [KeepDrop.complement, KeepDrop.kept, KeepDrop.sorted]
    rw [List.map_drop, List.map_take, hhighest, List.take_reverse, hlength]
    exact (List.reverse_perm _).symm
  · simp only [KeepDrop.complement, KeepDrop.kept, KeepDrop.sorted]
    rw [List.map_drop, List.map_take, hhighest, List.drop_reverse, hlength, Nat.sub_sub_self hn]
    exact List.reverse_perm _

theorem sum_keptValues_complement (way : KeepDrop) (hkept : ∀ die ∈ outcomes, die.kept = true) (clamps : List Modifier)
    (hway : way = .keepHighest ∨ way = .keepLowest) (hn : n ≤ outcomes.length) {others : List Modifier}
    (hkeep : modifiers.filter Modifier.keepsOrDrops = [way.modifier n])
    (hdrop : others.filter Modifier.keepsOrDrops = [way.complement.modifier (outcomes.length - n)]) :
    (keptValues (applyClamp clamps (applyKeepDrop modifiers outcomes))).sum =
      (keptValues (applyClamp clamps (applyKeepDrop others outcomes))).sum := by
  rw [keptValues_applyClamp, keptValues_applyClamp]
  have hkeeps := keptValues_perm hkept hkeep
  have hdrops := keptValues_perm hkept hdrop
  exact ((hkeeps.trans ((map_kept_complement hway hn).symm.trans hdrops.symm)).map (clamped clamps)).sum_eq

/-- A single keep or drop keeps as many dice as it says, all of them extremes, and to keep some is to drop the others;
so it is with the dice as they are clamped. -/
theorem keepDrop_extremes (hkept : ∀ die ∈ outcomes, die.kept = true) (clamps : List Modifier) :
    (∀ (way : KeepDrop) (n : Nat) (modifiers : List Modifier),
      modifiers.filter Modifier.keepsOrDrops = [way.modifier n] →
        Selects way n (applyClamp clamps (applyKeepDrop modifiers outcomes))) ∧
      ∀ n ≤ outcomes.length, ∀ modifiers others : List Modifier,
        (modifiers.filter Modifier.keepsOrDrops = [.keepHighest n] →
          others.filter Modifier.keepsOrDrops = [.dropLowest (outcomes.length - n)] →
            (keptValues (applyClamp clamps (applyKeepDrop modifiers outcomes))).sum =
              (keptValues (applyClamp clamps (applyKeepDrop others outcomes))).sum) ∧
        (modifiers.filter Modifier.keepsOrDrops = [.keepLowest n] →
          others.filter Modifier.keepsOrDrops = [.dropHighest (outcomes.length - n)] →
            (keptValues (applyClamp clamps (applyKeepDrop modifiers outcomes))).sum =
              (keptValues (applyClamp clamps (applyKeepDrop others outcomes))).sum) := by
  refine ⟨fun way n modifiers h => (selects_applyKeepDrop hkept h).applyClamp clamps, ?_⟩
  intro n hn modifiers others
  constructor
  · intro hkeep hdrop
    exact sum_keptValues_complement .keepHighest hkept clamps (Or.inl rfl) hn hkeep hdrop
  · intro hkeep hdrop
    exact sum_keptValues_complement .keepLowest hkept clamps (Or.inr rfl) hn hkeep hdrop

/-- Of three dice the higher of two equal ones is kept by the first index under one, by the last under the other. -/
theorem three_dice_kept :
    let dice : List DieOutcome := [4, 1, 4].map fun face => ⟨.numeric 6, [face], [], true, face⟩
    (applyKeepDrop [.min 2, .keepHighest 1] dice).map DieOutcome.kept = [true, false, false] ∧
      (applyKeepDrop [.dropLowest 2] dice).map DieOutcome.kept = [false, false, true] ∧
      Selects .keepHighest 1 (applyClamp [.min 2] (applyKeepDrop [.min 2, .keepHighest 1] dice)) ∧
      (keptValues (applyKeepDrop [.min 2, .keepHighest 1] dice)).sum = (keptValues (applyKeepDrop [.dropLowest 2] dice)).sum := by
  intro dice
  have hkept : ∀ die ∈ dice, die.kept = true := by decide
  obtain ⟨hselects, -⟩ := keepDrop_extremes hkept [.min 2]
  obtain ⟨-, hsums⟩ := keepDrop_extremes hkept []
  exact ⟨by decide, by decide, hselects .keepHighest 1 _ (by decide),
    (hsums 1 (by decide) [.min 2, .keepHighest 1] [.dropLowest 2]).1 (by decide) (by decide)⟩

/-! The dice that keep and drop are given. -/

/-- Recorded dice that are given back as they came off the table are all kept. -/
def DrawSource.Kept : DrawSource → Prop
  | .flat line => ∀ die ∈ line.dice, die.kept = true
  | .grouped terms => ∀ group ∈ terms.groups, ∀ die ∈ group, die.kept = true

theorem DrawSource.Kept.nextDie {source : DrawSource} (h : source.Kept) :
    (∀ die, source.nextDie.1 = some die → die.kept = true) ∧ source.nextDie.2.Kept := by
  cases source with
  | flat line =>
      simp only [DrawSource.nextDie, Flat.nextDie]
      split_ifs with hleft
      · exact ⟨fun die hdie => hdie.elim, h⟩
      · exact ⟨fun die hdie => h die (List.mem_of_mem_head? hdie), fun die hdie => h die (List.mem_of_mem_tail hdie)⟩
  | grouped terms =>
      cases hcurrent : terms.current with
      | none =>
          simp only [DrawSource.nextDie, Grouped.nextDie, hcurrent]
          exact ⟨fun die hdie => (nomatch hdie), h⟩
      | some current =>
          simp only [DrawSource.nextDie, Grouped.nextDie, hcurrent]
          constructor
          · intro die hdie
            cases hgroup : terms.groups[current]? with
            | none =>
                rw [hgroup] at hdie
                cases hdie
            | some group =>
                rw [hgroup] at hdie
                exact h group (List.mem_of_getElem? hgroup) die (List.mem_of_mem_head? hdie)
          · intro group hgroup die hdie
            obtain ⟨index, hindex⟩ := List.mem_iff_getElem?.mp hgroup
            rw [List.getElem?_modify, Option.map_eq_map, Option.map_eq_some_iff] at hindex
            obtain ⟨recorded, hrecorded, rfl⟩ := hindex
            refine h recorded (List.mem_of_getElem? hrecorded) die ?_
            split_ifs at hdie with hsame
            · exact List.mem_of_mem_tail hdie
            · exact hdie

/-- Every die that a term has for its modifiers is kept so far: it was drawn, or it comes from a recording whose dice
are. -/
theorem takeDice_kept {α : Type} {env : Env α} {sides : DieSides} {count : Nat} {ctx ctx' : EvalCtx} {dice : List DieOutcome}
    (h : takeDice env modifiers sides count ctx = .ok (dice, ctx'))
    (hsource : ∀ source, ctx.source = some source → source.Kept) : ∀ die ∈ dice, die.kept = true := by
  induction count generalizing ctx dice with
  | zero =>
      cases h
      exact List.forall_mem_nil _
  | succ count ih =>
      obtain ⟨die, mid, others, hdie, hothers, rfl⟩ := takeDice_succ h
      have hfirst : die.kept = true ∧ ∀ source, mid.source = some source → source.Kept := by
        cases hfrom : ctx.source with
        | none =>
            rw [takeDie_none hfrom] at hdie
            obtain ⟨hdrawn, hrolls⟩ := rollDie_ok hdie
            exact ⟨hdrawn.kept, fun source hmid => hsource source (hrolls.source.symm.trans hmid)⟩
        | some source =>
            obtain ⟨hnext, hleft⟩ := (hsource source hfrom).nextDie
            rw [takeDie, hfrom] at hdie
            simp only at hdie
            rcases hserved : source.nextDie with ⟨_ | recorded, served⟩
            · rw [hserved] at hdie hleft
              obtain ⟨hdrawn, hrolls⟩ := rollDie_ok hdie
              refine ⟨hdrawn.kept, fun source' hmid => ?_⟩
              rw [hrolls.source] at hmid
              cases hmid
              exact hleft
            · rw [hserved] at hdie hleft hnext
              cases hdie
              refine ⟨hnext _ rfl, fun source' hmid => ?_⟩
              cases hmid
              exact hleft
      exact List.forall_mem_cons.mpr ⟨hfirst.1, ih hothers hfirst.2⟩

end ThunderForge.Dice
