import ThunderForge.Dice.IdentityReplay
import ThunderForge.Dice.Terms

/-! What a replay keeps (`thunderforge-dice/src/replay.rs`): the dice terms of the formula it goes through take the
recorded dice that the terms of the recorded formula took, in the same order, before they draw any. -/

namespace ThunderForge.Dice

variable {α : Type}

/-! Terms that take recorded dice. -/

section takes

variable {env : Env α} {modifiers : List Modifier} {sides : DieSides} {ctx ctx' : EvalCtx} {dice : List DieOutcome}

/-- The first dice of a term, and then the others. -/
theorem takeDice_add {m k : Nat} (h : takeDice env modifiers sides (m + k) ctx = .ok (dice, ctx')) :
    ∃ first mid rest, takeDice env modifiers sides m ctx = .ok (first, mid) ∧
      takeDice env modifiers sides k mid = .ok (rest, ctx') ∧ dice = first ++ rest := by
  induction m generalizing ctx dice with
  | zero =>
      rw [Nat.zero_add] at h
      exact ⟨[], ctx, dice, rfl, h, rfl⟩
  | succ m ih =>
      rw [Nat.succ_add] at h
      obtain ⟨die, next, others, hdie, hothers, rfl⟩ := takeDice_succ h
      obtain ⟨first, mid, rest, hfirst, hrest, rfl⟩ := ih hothers
      refine ⟨die :: first, mid, rest, ?_, hrest, rfl⟩
      rw [takeDice, hdie]
      show (takeDice env modifiers sides m next >>= _) = _
      rw [hfirst]
      rfl

/-- Dice that are drawn afresh for a term, one after another, with the generator's draws from one up to another. -/
def DrawnFor (env : Env α) (modifiers : List Modifier) (sides : DieSides) (start : Nat) (dice : List DieOutcome)
    (stop : Nat) : Prop :=
  ∃ ctx ctx', ctx.drawn = start ∧ ctx'.drawn = stop ∧
    Trail (fun ctx die ctx' => rollDie env modifiers sides ctx = .ok (die, ctx')) ctx dice ctx'

/-- A term takes the dice of its group, and leaves the others' as they are. -/
theorem takeDice_group {group : List DieOutcome} {groups : List (List DieOutcome)} {next current : Nat}
    (hsource : ctx.source = some (.grouped ⟨groups, next, some current⟩)) (hgroup : groups[current]? = some group) :
    ∃ groups', takeDice env modifiers sides group.length ctx =
        .ok (group, { ctx with source := some (.grouped ⟨groups', next, some current⟩) }) ∧
      groups'.length = groups.length ∧ groups'[current]? = some [] ∧
        ∀ index, index ≠ current → groups'[index]? = groups[index]? := by
  induction group generalizing ctx groups with
  | nil => exact ⟨groups, by rw [← hsource]; rfl, rfl, hgroup, fun _ _ => rfl⟩
  | cons die group ih =>
      let fewer := groups.modify current List.tail
      have hnext : (DrawSource.grouped ⟨groups, next, some current⟩).nextDie =
          (some die, .grouped ⟨fewer, next, some current⟩) := by
        simp only [DrawSource.nextDie, Grouped.nextDie, hgroup]
        rfl
      have hrest : fewer[current]? = some group := by
        rw [List.getElem?_modify_eq, hgroup]
        rfl
      have hfirst : takeDie env modifiers sides ctx =
          .ok (die, { ctx with source := some (.grouped ⟨fewer, next, some current⟩) }) := by
        unfold takeDie
        rw [hsource]
        dsimp only
        rw [hnext]
      obtain ⟨groups', htake, hlength, hempty, hothers⟩ :
          ∃ groups', takeDice env modifiers sides group.length
            { ctx with source := some (.grouped ⟨fewer, next, some current⟩) } =
              .ok (group, { ctx with source := some (.grouped ⟨groups', next, some current⟩) }) ∧
            groups'.length = fewer.length ∧ groups'[current]? = some [] ∧
              ∀ index, index ≠ current → groups'[index]? = fewer[index]? :=
        ih rfl hrest
      refine ⟨groups', ?_, ?_, hempty, fun index hindex => ?_⟩
      · rw [List.length_cons, takeDice, hfirst]
        show (takeDice env modifiers sides group.length { ctx with source := _ } >>= _) = _
        rw [htake]
        rfl
      · rw [hlength]
        exact List.length_modify ..
      · rw [hothers index hindex]
        exact List.getElem?_modify_ne _ _ (Ne.symm hindex)

/-- Past the recorded dice of a term, it draws. -/
theorem takeDice_drawn {count : Nat} {grouped : Grouped} {current : Nat}
    (h : takeDice env modifiers sides count ctx = .ok (dice, ctx')) (hsource : ctx.source = some (.grouped grouped))
    (hcurrent : grouped.current = some current) (hempty : grouped.groups[current]? = some []) :
    Trail (fun ctx die ctx' => rollDie env modifiers sides ctx = .ok (die, ctx')) ctx dice ctx' ∧ dice.length = count ∧
      ctx'.source = ctx.source ∧ ctx'.dice = ctx.dice := by
  have hnext : (DrawSource.grouped grouped).nextDie = (none, .grouped grouped) := by
    have hmodify : grouped.groups.modify current List.tail = grouped.groups := by
      refine List.ext_getElem? fun index => ?_
      rw [List.getElem?_modify]
      split_ifs with heq
      · rw [← heq, hempty]
        rfl
      · exact id_map' _
    simp only [DrawSource.nextDie, Grouped.nextDie, hcurrent, hempty, hmodify]
    cases grouped
    cases hcurrent
    rfl
  induction count generalizing ctx dice with
  | zero =>
      cases h
      exact ⟨.nil _, rfl, rfl, rfl⟩
  | succ count ih =>
      obtain ⟨die, mid, others, hdie, hothers, rfl⟩ := takeDice_succ h
      unfold takeDie at hdie
      rw [hsource] at hdie
      dsimp only at hdie
      rw [hnext] at hdie
      have hsame : ({ ctx with source := some (.grouped grouped) } : EvalCtx) = ctx := by rw [← hsource]
      dsimp only at hdie
      rw [hsame] at hdie
      obtain ⟨-, hrolls⟩ := rollDie_ok hdie
      obtain ⟨hall, hlength, hsource', hdice⟩ := ih hothers (hrolls.source.trans hsource)
      exact ⟨.cons hdie hall, congrArg Nat.succ hlength,
        hsource'.trans hrolls.source, hdice.trans hrolls.dice⟩

end takes

section steps

variable [Double α] {env : Env α} {ctx ctx' : EvalCtx} {roll : Roll α}

/-- A term of the recorded formula takes as many of the recorded dice as it rolls, and draws none. -/
theorem rollStep_flat {flat : Flat} (h : RollStep env ctx roll ctx') (hsource : ctx.source = some (.flat flat)) :
    ∃ flat' group, ctx'.source = some (.flat flat') ∧ group.length = roll.count ∧ flat.dice = group ++ flat'.dice ∧
      flat'.sizes = flat.sizes ++ [roll.count] ∧ ctx'.drawn = ctx.drawn := by
  obtain ⟨v, h⟩ := h
  obtain ⟨begun, rolled, dice, value, hparts⟩ := rollTerm_parts h
  obtain rfl := hparts.state
  have hbegin := hparts.begins
  unfold EvalCtx.beginTerm at hbegin
  simp only [hsource, DrawSource.beginTerm, Flat.beginTerm] at hbegin
  split_ifs at hbegin with hfew hother
  · cases hbegin
  · cases hbegin
  · cases hbegin
    have hlength : (flat.dice.take roll.count).length = roll.count := by
      rw [List.length_take]
      omega
    have hin : InTerm (some (flat.sizes ++ [roll.count] ++ [(flat.dice.drop roll.count).length]))
        (.flat { flat with sizes := flat.sizes ++ [roll.count], leftInTerm := roll.count }) (flat.dice.take roll.count)
        [flat.dice.drop roll.count] := by
      refine ⟨?_, hlength.symm, rfl⟩
      rw [List.flatten_singleton, List.take_append_drop]
    let begun : EvalCtx :=
      { ctx with
        totalDiceRolled := ctx.totalDiceRolled + roll.count
        source := some (.flat { flat with sizes := flat.sizes ++ [roll.count], leftInTerm := roll.count }) }
    obtain ⟨source, htake, hdone⟩ : ∃ source, takeDice env roll.term.modifiers roll.sides
        (flat.dice.take roll.count).length begun = .ok (flat.dice.take roll.count, { begun with source := some source }) ∧
          InTerm _ source [] _ := takeDice_fed rfl hin
    have htakes := hparts.takes
    rw [hlength] at htake
    rw [htake] at htakes
    cases htakes
    cases source with
    | grouped grouped => exact absurd hdone.2.2.2 (by simp)
    | flat flat' =>
        obtain ⟨hrest, -, hsizes⟩ := hdone
        have hsame : flat'.sizes = flat.sizes ++ [roll.count] :=
          (List.append_inj' (Option.some.inj hsizes) rfl).1.symm
        rw [List.nil_append, List.flatten_singleton] at hrest
        exact ⟨flat', flat.dice.take roll.count, rfl, hlength, by rw [hrest, List.take_append_drop], hsame, rfl⟩

/-- A term that is replayed: the dice recorded for it, those it has drawn, and all of them after its modifiers. -/
structure TermReplay (α : Type) where
  roll : Roll α
  recorded : List DieOutcome
  drawn : List DieOutcome
  outcomes : List DieOutcome

/-- Recorded dice come first and as they were, and what is missing is drawn afresh, with the draws from one up to
another. -/
structure TermReplay.Keeps (env : Env α) (start : Nat) (replayed : TermReplay α) (stop : Nat) : Prop where
  count : replayed.recorded.length + replayed.drawn.length = replayed.roll.count
  sides : ∀ die ∈ replayed.recorded, die.sides = replayed.roll.sides
  drawn : DrawnFor env replayed.roll.term.modifiers replayed.roll.sides start replayed.drawn stop
  outcomes : SameDraws (replayed.recorded ++ replayed.drawn) replayed.outcomes

/-- A term of the formula that is replayed takes the next group, and draws the rest. -/
theorem rollStep_grouped {grouped : Grouped} (h : RollStep env ctx roll ctx')
    (hsource : ctx.source = some (.grouped grouped)) :
    ∃ (grouped' : Grouped) (replayed : TermReplay α), ctx'.source = some (.grouped grouped') ∧ replayed.roll = roll ∧
      replayed.Keeps env ctx.drawn ctx'.drawn ∧ grouped.groups[grouped.next]? = some replayed.recorded ∧ grouped'.next = grouped.next + 1 ∧
        grouped'.groups.length = grouped.groups.length ∧
          grouped'.groups.drop grouped'.next = grouped.groups.drop grouped'.next ∧
            ctx'.dice = ctx.dice ++ replayed.outcomes := by
  obtain ⟨v, h⟩ := h
  obtain ⟨begun, rolled, dice, value, hparts⟩ := rollTerm_parts h
  obtain rfl := hparts.state
  have hbegin := hparts.begins
  unfold EvalCtx.beginTerm at hbegin
  simp only [hsource, DrawSource.beginTerm, Grouped.beginTerm] at hbegin
  cases hgroup : grouped.groups[grouped.next]? with
  | none =>
      rw [hgroup] at hbegin
      cases hbegin
  | some group =>
      rw [hgroup] at hbegin
      dsimp only at hbegin
      split_ifs at hbegin with hfew hother
      · cases hbegin
      · cases hbegin
      cases hbegin
      obtain ⟨missing, hmissing⟩ := Nat.exists_eq_add_of_le (not_lt.mp hfew)
      let begun : EvalCtx :=
        { ctx with
          totalDiceRolled := ctx.totalDiceRolled + roll.count
          source := some (.grouped { grouped with next := grouped.next + 1, current := some grouped.next }) }
      have htakes : takeDice env roll.term.modifiers roll.sides roll.count begun = .ok (dice, rolled) := hparts.takes
      rw [hmissing] at htakes
      obtain ⟨first, mid, drawn, hfirst, hdrawn, rfl⟩ := takeDice_add htakes
      obtain ⟨groups, htake, hlength, hempty, hothers⟩ :
          ∃ groups, takeDice env roll.term.modifiers roll.sides group.length begun =
            .ok (group, { begun with source := some (.grouped ⟨groups, grouped.next + 1, some grouped.next⟩) }) ∧
            groups.length = grouped.groups.length ∧ groups[grouped.next]? = some [] ∧
              ∀ index, index ≠ grouped.next → groups[index]? = grouped.groups[index]? :=
        takeDice_group rfl hgroup
      rw [htake] at hfirst
      cases hfirst
      obtain ⟨hall, hcount, hsource', hdice⟩ := takeDice_drawn hdrawn rfl rfl hempty
      refine ⟨{ groups, next := grouped.next + 1, current := some grouped.next },
        ⟨roll, group, drawn, modified roll.term.modifiers (group ++ drawn)⟩, hsource', rfl, ?_, rfl, rfl, hlength, ?_, ?_⟩
      · refine ⟨by rw [hcount, hmissing], ?_, ⟨{ begun with source := _ }, rolled, rfl, rfl, hall⟩, sameDraws_modified _ _⟩
        simpa using hother
      · refine List.ext_getElem? fun index => ?_
        rw [List.getElem?_drop, List.getElem?_drop]
        exact hothers _ (by show grouped.next + 1 + index ≠ grouped.next; omega)
      · rw [hdice]

/-- The terms of the recorded formula take the recorded dice in order. -/
theorem trail_flat {rolls : List (Roll α)} (h : Trail (RollStep env) ctx rolls ctx') {flat : Flat}
    (hsource : ctx.source = some (.flat flat)) :
    ∃ (flat' : Flat) (groups : List (List DieOutcome)), ctx'.source = some (.flat flat') ∧
      groups.map List.length = rolls.map Roll.count ∧ flat.dice = groups.flatten ++ flat'.dice ∧
        flat'.sizes = flat.sizes ++ rolls.map Roll.count ∧ ctx'.drawn = ctx.drawn := by
  induction h generalizing flat with
  | nil _ => exact ⟨flat, [], hsource, rfl, rfl, (List.append_nil _).symm, rfl⟩
  | cons hstep _ ih =>
      obtain ⟨flat₁, group, hsource₁, hgroup, hdice₁, hsizes₁, hdrawn₁⟩ := rollStep_flat hstep hsource
      obtain ⟨flat₂, groups, hsource₂, hgroups, hdice₂, hsizes₂, hdrawn₂⟩ := ih hsource₁
      refine ⟨flat₂, group :: groups, hsource₂, ?_, ?_, ?_, hdrawn₂.trans hdrawn₁⟩
      · rw [List.map_cons, List.map_cons, hgroup, hgroups]
      · rw [hdice₁, hdice₂, List.flatten_cons, List.append_assoc]
      · rw [hsizes₂, hsizes₁, List.append_assoc, List.singleton_append, List.map_cons]

/-- The terms of the formula that is replayed take the groups in order. -/
theorem trail_grouped {rolls : List (Roll α)} (h : Trail (RollStep env) ctx rolls ctx') {grouped : Grouped}
    (hsource : ctx.source = some (.grouped grouped)) :
    ∃ (grouped' : Grouped) (terms : List (TermReplay α)), ctx'.source = some (.grouped grouped') ∧
      terms.map TermReplay.roll = rolls ∧ Trail (fun n replayed => replayed.Keeps env n) ctx.drawn terms ctx'.drawn ∧
        grouped.groups.drop grouped.next = terms.map TermReplay.recorded ++ grouped'.groups.drop grouped'.next ∧
          grouped'.next = grouped.next + terms.length ∧ grouped'.groups.length = grouped.groups.length ∧
            ctx'.dice = ctx.dice ++ (terms.map TermReplay.outcomes).flatten := by
  induction h generalizing grouped with
  | nil _ => exact ⟨grouped, [], hsource, rfl, .nil _, rfl, rfl, rfl, by simp⟩
  | cons hstep _ ih =>
      obtain ⟨grouped₁, replayed, hsource₁, hroll, hkeeps, hgroup, hnext₁, hlength₁, hdrop₁, hdice₁⟩ :=
        rollStep_grouped hstep hsource
      obtain ⟨grouped₂, terms, hsource₂, hrolls, hall, hdrop₂, hnext₂, hlength₂, hdice₂⟩ := ih hsource₁
      refine ⟨grouped₂, replayed :: terms, hsource₂, ?_, Trail.cons hkeeps hall, ?_, ?_,
        hlength₂.trans hlength₁, ?_⟩
      · rw [List.map_cons, hroll, hrolls]
      · rw [List.map_cons, List.cons_append, ← hdrop₂, hdrop₁, hnext₁]
        obtain ⟨hlt, hget⟩ := List.getElem?_eq_some_iff.mp hgroup
        rw [List.drop_eq_getElem_cons hlt, hget]
      · rw [hnext₂, hnext₁, List.length_cons]
        omega
      · rw [hdice₂, hdice₁, List.append_assoc, List.map_cons, List.flatten_cons]

end steps

end ThunderForge.Dice
