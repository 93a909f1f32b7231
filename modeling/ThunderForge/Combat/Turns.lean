import ThunderForge.Combat.Order

/-! Turns are fair, over a fight of any length in which combatants go down and come back between turns. -/

namespace ThunderForge.Combat

variable {Id : Type} [LinearOrder Id]

/-- A turn that was taken: the combatants as they were stored, who got it, and the counter of rounds with it. -/
structure Taken (Id : Type) where
  stored : List (Seat Id)
  seat : Seat Id
  wrapped : Bool
  round : ℤ
  deriving DecidableEq

/-- Hand the turn on among the combatants as they are stored (`advance_turn_impl`). -/
def advance (activeId : Option Id) (round : ℤ) (stored : List (Seat Id)) : Option (Taken Id) :=
  let ordered := sortSeats stored
  (nextTurn ordered activeId).bind fun (idx, wrapped) =>
    ordered[idx]?.map fun seat => { stored, seat, wrapped, round := if wrapped then round + 1 else round }

/-- The turns taken by calls that each find the combatants as they then are. A call that finds nobody to hand the turn
to leaves everything as it is. -/
def takeTurns (activeId : Option Id) (round : ℤ) : List (List (Seat Id)) → List (Taken Id)
  | [] => []
  | stored :: later =>
    match advance activeId round stored with
    | none => takeTurns activeId round later
    | some taken => taken :: takeTurns (some taken.seat.id) taken.round later

/-- The same combatants, in any order and whoever of them is in the fight. -/
def SameCombatants (seats stored : List (Seat Id)) : Prop := (stored.map Seat.place).Perm (seats.map Seat.place)

/-- A turn, by places in the order. -/
def Taken.turn (taken : Taken Id) : RoundRobin.Turn (ℤᵒᵈ ×ₗ ℤᵒᵈ ×ₗ Id) where
  eligible := {place | ∃ seat ∈ taken.stored, seat.place = place ∧ seat.active = true}
  taker := taken.seat.place
  wrapped := taken.wrapped

section combatants

variable {seats stored : List (Seat Id)} (hids : (seats.map Seat.id).Nodup)

omit [LinearOrder Id] in
theorem map_id_eq (stored : List (Seat Id)) :
    stored.map Seat.id = (stored.map Seat.place).map fun place => (ofLex (ofLex place).2).2 := by
  rw [List.map_map]
  rfl

omit [LinearOrder Id] in
theorem SameCombatants.ids (h : SameCombatants seats stored) : (stored.map Seat.id).Perm (seats.map Seat.id) := by
  rw [map_id_eq, map_id_eq seats]
  exact h.map _

omit [LinearOrder Id] in
theorem SameCombatants.exists_seat (h : SameCombatants seats stored) {seat : Seat Id} (hseat : seat ∈ seats) :
    ∃ other ∈ stored, other.place = seat.place :=
  List.mem_map.mp (h.mem_iff.mpr (List.mem_map_of_mem hseat))

include hids

omit [LinearOrder Id] in
theorem SameCombatants.nodup (h : SameCombatants seats stored) : (stored.map Seat.id).Nodup := h.ids.nodup_iff.mpr hids

theorem SameCombatants.sorted (h : SameCombatants seats stored) :
    (sortSeats stored).Pairwise fun a b => a.place < b.place := by
  have hplaces : (stored.map Seat.place).Nodup := by
    have hnodup := h.nodup hids
    rw [map_id_eq] at hnodup
    exact hnodup.of_map _
  exact SortBy.pairwise_lt_sortBy _ hplaces

/-- Whose turn it was, in the order as it is now. -/
theorem SameCombatants.exists_holder (h : SameCombatants seats stored) {holder : Seat Id} (hholder : holder ∈ seats) :
    ∃ (index : ℕ) (seat : Seat Id), ((sortSeats stored).findIdx? fun other => other.id = holder.id) = some index ∧
      (sortSeats stored)[index]? = some seat ∧ seat.place = holder.place := by
  obtain ⟨seat, hseat, hplace⟩ := h.exists_seat hholder
  have hid : seat.id = holder.id := congrArg (fun place => (ofLex (ofLex place).2).2) hplace
  have hnodup : ((sortSeats stored).map Seat.id).Nodup :=
    ((SortBy.sortBy_perm _ stored).map Seat.id).nodup_iff.mpr (h.nodup hids)
  obtain ⟨index, hfind, hat⟩ := exists_index hnodup ((SortBy.mem_sortBy _).mpr hseat)
  rw [hid] at hfind
  exact ⟨index, seat, hfind, hat, hplace⟩

end combatants

theorem advance_eq_none_iff {activeId : Option Id} {round : ℤ} {stored : List (Seat Id)} :
    advance activeId round stored = none ↔ ∀ seat ∈ stored, seat.active = false := by
  have hnone : nextTurn (sortSeats stored) activeId = none ↔ ∀ seat ∈ stored, seat.active = false := by
    rw [nextTurn_eq_none_iff]
    exact forall_congr' fun seat => imp_congr_left (SortBy.mem_sortBy _)
  rw [← hnone]
  unfold advance
  dsimp only
  cases hnext : nextTurn (sortSeats stored) activeId with
  | none => exact iff_of_true rfl rfl
  | some next =>
      obtain ⟨seat, hat, -⟩ := exists_taker hnext
      simp only [Option.bind_some, hat, Option.map_some, reduceCtorEq]

/-- What handing the turn on does, after a holder or at the start. -/
theorem follows_advance {seats stored : List (Seat Id)} (hids : (seats.map Seat.id).Nodup)
    (h : SameCombatants seats stored) {holder : Option (Seat Id)} (hholder : ∀ seat ∈ holder, seat ∈ seats) {round : ℤ}
    {taken : Taken Id} (htaken : advance (holder.map Seat.id) round stored = some taken) :
    RoundRobin.Follows (holder.map Seat.place) taken.turn := by
  have hsorted := h.sorted hids
  obtain ⟨⟨idx, wrapped⟩, hnext, hseat⟩ := Option.bind_eq_some_iff.mp htaken
  obtain ⟨seat, hat, rfl⟩ := Option.map_eq_some_iff.mp hseat
  have hstored {other : Seat Id} (hother : other ∈ stored) : ∃ j, (sortSeats stored)[j]? = some other :=
    List.mem_iff_getElem?.mp ((SortBy.mem_sortBy _).mpr hother)
  cases holder with
  | none =>
      obtain ⟨rfl, ⟨taker, htaker, hactive⟩, hleast⟩ := nextTurn_enter_spec rfl hnext
      obtain rfl := Option.some_inj.mp (hat.symm.trans htaker)
      refine .enters ⟨seat, (SortBy.mem_sortBy _).mp (List.mem_of_getElem? hat), rfl, hactive⟩ ?_ rfl
      rintro place ⟨other, hother, rfl, hotheractive⟩
      obtain ⟨j, hj⟩ := hstored hother
      exact (place_le_place_iff hsorted hat hj).mpr (hleast j other hj hotheractive)
  | some holder =>
      obtain ⟨index, current, hcurrent, hcurrentat, hplace⟩ := h.exists_holder hids (hholder holder rfl)
      obtain ⟨⟨taker, htaker, hactive⟩, hcases⟩ := nextTurn_past_spec hcurrent hnext
      obtain rfl := Option.some_inj.mp (hat.symm.trans htaker)
      have heligible : seat.place ∈ (⟨stored, seat, wrapped, if wrapped then round + 1 else round⟩ : Taken Id).turn.eligible :=
        ⟨seat, (SortBy.mem_sortBy _).mp (List.mem_of_getElem? hat), rfl, hactive⟩
      rw [Option.map_some, ← hplace]
      rcases hcases with ⟨rfl, hlater, hnextone⟩ | ⟨rfl, hround⟩
      · refine .passes heligible ((place_lt_place_iff hsorted hcurrentat hat).mpr hlater) ?_ rfl
        rintro place ⟨other, hother, rfl, hotheractive⟩ hafter
        obtain ⟨j, hj⟩ := hstored hother
        have hj' := (place_lt_place_iff hsorted hcurrentat hj).mp hafter
        exact (place_le_place_iff hsorted hat hj).mpr (hnextone j other hj hotheractive hj')
      · refine .wraps heligible ?_ ?_ rfl
        · rintro place ⟨other, hother, rfl, hotheractive⟩
          obtain ⟨j, hj⟩ := hstored hother
          exact (place_le_place_iff hsorted hj hcurrentat).mpr (hround j other hj hotheractive).1
        · rintro place ⟨other, hother, rfl, hotheractive⟩
          obtain ⟨j, hj⟩ := hstored hother
          exact (place_le_place_iff hsorted hat hj).mpr (hround j other hj hotheractive).2

theorem advance_eq_some {activeId : Option Id} {round : ℤ} {stored : List (Seat Id)} {taken : Taken Id}
    (h : advance activeId round stored = some taken) :
    taken.stored = stored ∧ (taken.seat ∈ stored ∧ taken.seat.active = true) ∧
      taken.round = if taken.wrapped then round + 1 else round := by
  obtain ⟨⟨idx, wrapped⟩, hnext, hseat⟩ := Option.bind_eq_some_iff.mp h
  obtain ⟨seat, hat, rfl⟩ := Option.map_eq_some_iff.mp hseat
  obtain ⟨taker, htaker, hactive⟩ := exists_taker hnext
  obtain rfl := Option.some_inj.mp (hat.symm.trans htaker)
  exact ⟨rfl, ⟨(SortBy.mem_sortBy _).mp (List.mem_of_getElem? hat), hactive⟩, rfl⟩

/-- Turns are taken as the places in the order are, whoever holds the turn by now. -/
theorem run_takeTurns {seats : List (Seat Id)} (hids : (seats.map Seat.id).Nodup) {calls : List (List (Seat Id))}
    (hcalls : ∀ stored ∈ calls, SameCombatants seats stored) {holder : Option (Seat Id)}
    (hholder : ∀ seat ∈ holder, seat ∈ seats) {round : ℤ} :
    RoundRobin.Run (holder.map Seat.place) ((takeTurns (holder.map Seat.id) round calls).map Taken.turn) := by
  induction calls generalizing holder round with
  | nil => trivial
  | cons stored later ih =>
      have hlater := fun stored hstored => hcalls stored (List.mem_cons_of_mem _ hstored)
      unfold takeTurns
      cases htaken : advance (holder.map Seat.id) round stored with
      | none => exact ih hlater hholder
      | some taken =>
          have hstored := hcalls stored List.mem_cons_self
          have hfollows := follows_advance hids hstored hholder htaken
          -- The taker is one of the combatants, though the row may since differ in whether it is active.
          obtain ⟨-, ⟨hmem, -⟩, -⟩ := advance_eq_some htaken
          obtain ⟨seat, hseat, hplace⟩ := List.mem_map.mp (hstored.mem_iff.mp (List.mem_map_of_mem hmem))
          have hid : seat.id = taken.seat.id := congrArg (fun place => (ofLex (ofLex place).2).2) hplace
          have hrest := @ih hlater (some seat) (by simpa using hseat) taken.round
          refine ⟨hfollows, ?_⟩
          rw [Option.map_some, Option.map_some, hid, hplace] at hrest
          exact hrest

/-- Each turn is a call's. -/
theorem mem_takeTurns {activeId : Option Id} {round : ℤ} {calls : List (List (Seat Id))} {taken : Taken Id}
    (h : taken ∈ takeTurns activeId round calls) :
    taken.stored ∈ calls ∧ taken.seat ∈ taken.stored ∧ taken.seat.active = true := by
  induction calls generalizing activeId round with
  | nil => exact absurd h List.not_mem_nil
  | cons stored later ih =>
      unfold takeTurns at h
      cases htaken : advance activeId round stored with
      | none =>
          rw [htaken] at h
          exact ⟨List.mem_cons_of_mem _ (ih h).1, (ih h).2⟩
      | some first =>
          rw [htaken] at h
          rcases List.mem_cons.mp h with rfl | h
          · obtain ⟨hstored, hseat, -⟩ := advance_eq_some htaken
            rw [hstored]
            exact ⟨List.mem_cons_self, hseat⟩
          · exact ⟨List.mem_cons_of_mem _ (ih h).1, (ih h).2⟩

/-- The counter goes on by one with each wrap. -/
def Counts (last next : Taken Id) : Prop := next.round = if next.wrapped then last.round + 1 else last.round

theorem counts_takeTurns {activeId : Option Id} {round : ℤ} {calls : List (List (Seat Id))} :
    (∀ taken ∈ (takeTurns activeId round calls).head?,
      taken.round = if taken.wrapped then round + 1 else round) ∧
      (takeTurns activeId round calls).IsChain Counts := by
  induction calls generalizing activeId round with
  | nil => exact ⟨by simp [takeTurns], .nil⟩
  | cons stored later ih =>
      unfold takeTurns
      cases htaken : advance activeId round stored with
      | none => exact ih
      | some first =>
          obtain ⟨-, -, hround⟩ := advance_eq_some htaken
          obtain ⟨hhead, hchain⟩ := @ih (some first.seat.id) first.round
          refine ⟨by simpa using hround, ?_⟩
          exact List.isChain_cons.mpr ⟨hhead, hchain⟩

/-- What fair turns are, of a run that starts in a round with nobody acting. -/
structure Fair (round : ℤ) (turns : List (Taken Id)) : Prop where
  active : ∀ taken ∈ turns, taken.seat ∈ taken.stored ∧ taken.seat.active = true
  /-- Between two wraps turns come in turn order. -/
  ordered : ∀ {before within after}, turns = before ++ within ++ after →
    (∀ taken ∈ within.tail, taken.wrapped = false) → within.Pairwise fun a b => turnOrder a.seat b.seat = .lt
  once : ∀ {before within after}, turns = before ++ within ++ after →
    (∀ taken ∈ within.tail, taken.wrapped = false) → (within.map fun taken => taken.seat.id).Nodup
  /-- Who is active from the turn that opens a round to the one that closes it has one turn in it. -/
  everyone : ∀ {before opening within closing after}, turns = before ++ opening :: within ++ closing :: after →
    (before = [] ∨ opening.wrapped = true) → (∀ taken ∈ within, taken.wrapped = false) → closing.wrapped = true →
    ∀ {id}, (∀ taken ∈ opening :: within ++ [closing], ∃ seat ∈ taken.stored, seat.id = id ∧ seat.active = true) →
      ((opening :: within).map fun taken => taken.seat.id).count id = 1
  first : ∀ taken ∈ turns.head?, taken.wrapped = false ∧ taken.round = round
  /-- A wrap is reported where turn order starts again. -/
  wraps : turns.IsChain fun last next => next.wrapped = true ↔ turnOrder last.seat next.seat ≠ .lt
  counts : turns.IsChain Counts

section fair

variable {seats : List (Seat Id)} (hids : (seats.map Seat.id).Nodup)

include hids in
omit [LinearOrder Id] in
/-- Combatants are told apart by their ids, however their rows differ. -/
theorem place_eq_of_id_eq {a b : List (Seat Id)} (ha : SameCombatants seats a) (hb : SameCombatants seats b)
    {x y : Seat Id} (hx : x ∈ a) (hy : y ∈ b) (h : x.id = y.id) : x.place = y.place := by
  obtain ⟨x', hx', hplacex⟩ := List.mem_map.mp (ha.mem_iff.mp (List.mem_map_of_mem hx))
  obtain ⟨y', hy', hplacey⟩ := List.mem_map.mp (hb.mem_iff.mp (List.mem_map_of_mem hy))
  have hidx : x'.id = x.id := congrArg (fun place => (ofLex (ofLex place).2).2) hplacex
  have hidy : y'.id = y.id := congrArg (fun place => (ofLex (ofLex place).2).2) hplacey
  have hsame : x' = y' := List.inj_on_of_nodup_map hids hx' hy' (hidx.trans (h.trans hidy.symm))
  rw [← hplacex, ← hplacey, hsame]

variable {turns : List (Taken Id)} (hturns : ∀ taken ∈ turns, SameCombatants seats taken.stored ∧ taken.seat ∈ taken.stored)
  (hrun : RoundRobin.Run none (turns.map Taken.turn))

include hrun

theorem pairwise_place {before within after : List (Taken Id)} (hsplit : turns = before ++ within ++ after)
    (hround : ∀ taken ∈ within.tail, taken.wrapped = false) : (within.map fun taken => taken.seat.place).Pairwise (· < ·) := by
  subst hsplit
  simp only [List.map_append] at hrun
  cases within with
  | nil => exact .nil
  | cons opening rest =>
      have hincreasing := hrun.cut.2.increasing (by simpa [Taken.turn] using hround)
      rwa [List.map_map] at hincreasing

theorem pairwise_turnOrder {before within after : List (Taken Id)} (hsplit : turns = before ++ within ++ after)
    (hround : ∀ taken ∈ within.tail, taken.wrapped = false) :
    within.Pairwise fun a b => turnOrder a.seat b.seat = .lt := by
  have hplaces := pairwise_place hrun hsplit hround
  rw [List.pairwise_map] at hplaces
  exact hplaces.imp fun hlt => (turnOrder_eq_lt _ _).mpr hlt

include hids hturns

theorem nodup_takers {before within after : List (Taken Id)} (hsplit : turns = before ++ within ++ after)
    (hround : ∀ taken ∈ within.tail, taken.wrapped = false) : (within.map fun taken => taken.seat.id).Nodup := by
  have hplaces := pairwise_place hrun hsplit hround
  rw [List.pairwise_map] at hplaces
  refine List.pairwise_map.mpr (hplaces.imp_of_mem fun {a b} ha hb hlt hid => hlt.ne ?_)
  have hmem {taken : Taken Id} (h : taken ∈ within) : taken ∈ turns := by simp [hsplit, h]
  obtain ⟨hsamea, hseata⟩ := hturns a (hmem ha)
  obtain ⟨hsameb, hseatb⟩ := hturns b (hmem hb)
  exact place_eq_of_id_eq hids hsamea hsameb hseata hseatb hid

theorem count_taker {before within after : List (Taken Id)} {opening closing : Taken Id}
    (hsplit : turns = before ++ opening :: within ++ closing :: after)
    (hopens : before = [] ∨ opening.wrapped = true) (hround : ∀ taken ∈ within, taken.wrapped = false)
    (hcloses : closing.wrapped = true) {id : Id}
    (hactive : ∀ taken ∈ opening :: within ++ [closing], ∃ seat ∈ taken.stored, seat.id = id ∧ seat.active = true) :
    ((opening :: within).map fun taken => taken.seat.id).count id = 1 := by
  have hturn {taken : Taken Id} (h : taken ∈ opening :: within ++ [closing]) : taken ∈ turns := by
    rw [hsplit]
    simp only [List.mem_append, List.mem_cons, List.not_mem_nil, or_false] at h ⊢
    tauto
  have hopening : opening ∈ opening :: within ++ [closing] := by simp
  obtain ⟨seat, hseat, rfl, hseatactive⟩ := hactive opening hopening
  have heligible {taken : Taken Id} (h : taken ∈ opening :: within ++ [closing]) : seat.place ∈ taken.turn.eligible := by
    obtain ⟨other, hother, hid, hotheractive⟩ := hactive taken h
    have hplace := place_eq_of_id_eq hids (hturns taken (hturn h)).1 (hturns opening (hturn hopening)).1 hother hseat hid
    exact ⟨other, hother, hplace, hotheractive⟩
  have hcut : RoundRobin.Run (RoundRobin.holderAfter none (before.map Taken.turn))
      (opening.turn :: (within.map Taken.turn ++ [closing.turn])) := by
    have hsplit' : turns.map Taken.turn = before.map Taken.turn ++
        (opening.turn :: (within.map Taken.turn ++ [closing.turn])) ++ after.map Taken.turn := by
      simp [hsplit]
    rw [hsplit'] at hrun
    exact hrun.cut
  have hleast : opening.seat.place ≤ seat.place := by
    refine hcut.1.opens ?_ (heligible hopening)
    rcases hopens with rfl | hwrapped
    · exact .inl rfl
    · exact .inr hwrapped
  have hmem := hcut.2.everyone (a := seat.place) (by simpa [Taken.turn] using hround) hcloses
    (fun turn hmem => by
      obtain ⟨taken, htaken, rfl⟩ : ∃ taken ∈ within ++ [closing], taken.turn = turn := by
        simpa [or_comm, eq_comm] using hmem
      exact heligible (List.mem_cons_of_mem _ htaken)) hleast
  have htaker : seat.id ∈ (opening :: within).map fun taken => taken.seat.id := by
    rw [← List.map_cons, ← List.map_cons, List.map_map] at hmem
    obtain ⟨taken, htaken, hplace⟩ := List.mem_map.mp hmem
    exact List.mem_map.mpr ⟨taken, htaken, congrArg (fun place => (ofLex (ofLex place).2).2) hplace⟩
  have hsplit'' : turns = before ++ (opening :: within) ++ closing :: after := hsplit
  exact List.count_eq_one_of_mem (nodup_takers hids hturns hrun hsplit'' hround) htaker

end fair

/-- Turns are fair, nobody is passed over for good, and the order does not depend on storage. -/
structure TurnsAreFair (round : ℤ) (calls : List (List (Seat Id))) : Prop where
  fair : Fair round (takeTurns none round calls)
  /-- A call finds no turn exactly when nobody is active. -/
  stops : ∀ stored ∈ calls, ∀ activeId,
    nextTurn (sortSeats stored) activeId = none ↔ ∀ seat ∈ stored, seat.active = false
  storage : ∀ stored ∈ calls, ∀ {stored'}, stored'.Perm stored → sortSeats stored' = sortSeats stored

theorem turnsAreFair {seats : List (Seat Id)} (hids : (seats.map Seat.id).Nodup) {calls : List (List (Seat Id))}
    (hcalls : ∀ stored ∈ calls, SameCombatants seats stored) (round : ℤ) : TurnsAreFair round calls := by
  have hrun : RoundRobin.Run none ((takeTurns none round calls).map Taken.turn) :=
    @run_takeTurns Id _ seats hids calls hcalls none (by simp) round
  have hturns : ∀ taken ∈ takeTurns none round calls, SameCombatants seats taken.stored ∧ taken.seat ∈ taken.stored :=
    fun taken htaken => ⟨hcalls _ (mem_takeTurns htaken).1, (mem_takeTurns htaken).2.1⟩
  have hfirst : ∀ taken ∈ (takeTurns none round calls).head?, taken.wrapped = false := by
    intro taken hhead
    obtain ⟨rest, hrest⟩ := List.head?_eq_some_iff.mp hhead
    rw [hrest] at hrun
    exact hrun.1.first
  refine ⟨⟨fun taken htaken => (mem_takeTurns htaken).2, pairwise_turnOrder hrun, nodup_takers hids hturns hrun,
    count_taker hids hturns hrun, ?_, ?_, counts_takeTurns.2⟩, ?_, ?_⟩
  · intro taken hhead
    have hwrapped := hfirst taken hhead
    have hround := counts_takeTurns.1 taken hhead
    rw [hwrapped] at hround
    exact ⟨hwrapped, hround⟩
  · have hwraps := hrun.wraps
    rw [List.isChain_map] at hwraps
    refine hwraps.imp fun last next h => ?_
    rw [Ne, turnOrder_eq_lt]
    exact h
  · intro stored _ activeId
    rw [nextTurn_eq_none_iff]
    exact forall_congr' fun seat => imp_congr_left (SortBy.mem_sortBy _)
  · intro stored hstored stored' hperm
    have hsame := hcalls stored hstored
    have hsame' : SameCombatants seats stored' := (hperm.map Seat.place).trans hsame
    refine SortBy.eq_of_pairwise_lt (hsame'.sorted hids) (hsame.sorted hids) fun seat => ?_
    rw [sortSeats, sortSeats, SortBy.mem_sortBy, SortBy.mem_sortBy]
    exact hperm.mem_iff

/-- A fight in which the second of three is down for a round and then back. -/
theorem three_turnsAreFair :
    TurnsAreFair 1
      [[⟨1, 20, 0, true⟩, ⟨2, 10, 0, false⟩, ⟨3, 5, 0, true⟩], [⟨3, 5, 0, true⟩, ⟨1, 20, 0, true⟩, ⟨2, 10, 0, false⟩],
        [⟨1, 20, 0, true⟩, ⟨2, 10, 0, true⟩, ⟨3, 5, 0, true⟩]] :=
  @turnsAreFair ℕ _ [⟨1, 20, 0, true⟩, ⟨2, 10, 0, true⟩, ⟨3, 5, 0, true⟩] (by decide) _
    (by
      intro stored hstored
      rcases List.mem_cons.mp hstored with rfl | hstored
      · exact .refl _
      rcases List.mem_cons.mp hstored with rfl | hstored
      · exact @List.perm_append_comm _ [_] [_, _]
      · obtain rfl := List.mem_singleton.mp hstored
        exact .refl _) 1

end ThunderForge.Combat
