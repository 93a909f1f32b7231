import ThunderForge.Reconcile.OfflineKept

/-! Sent again after an answer was lost, a token edit meets the mark that it left. -/

namespace ThunderForge.Reconcile

open Offline (Effect step step_effect)

def Service.isServing : Service → Bool
  | .serving _ _ _ => true
  | .sent | .answered _ => false

/-- The calls for a world are served one after the other, and nobody is taken for a Game Master who had an edit applied
there as a player. -/
def Offline.Serial (userId : Uuid) (state : Offline) : OfflineStep → Prop
  | .take index => ∀ request ∈ state.requests[index]?, request.service = .sent →
      (∀ other ∈ state.requests, other.worldId = request.worldId → other.service.isServing = false) ∧
      ∀ memberRole ∈ state.server.database.requireWorldMember userId request.worldId,
        roleFromMembership memberRole = .gameMaster →
          ∀ verdict ∈ state.verdicts, verdict.worldId = request.worldId → verdict.outcome.applied = true →
            verdict.incoming.role = .gameMaster
  | .note _ _ _ _ | .put _ | .open _ | .pass _ | .serve _ | .answer _ | .forget _ _ | .leave _ | .live _
  | .otherTake _ | .otherServe _ _ _ _ => True

instance (userId : Uuid) (state : Offline) : ∀ act, Decidable (state.Serial userId act)
  | .take index => inferInstanceAs (Decidable (∀ request ∈ state.requests[index]?, request.service = .sent →
      (∀ other ∈ state.requests, other.worldId = request.worldId → other.service.isServing = false) ∧
      ∀ memberRole ∈ state.server.database.requireWorldMember userId request.worldId,
        roleFromMembership memberRole = .gameMaster →
          ∀ verdict ∈ state.verdicts, verdict.worldId = request.worldId → verdict.outcome.applied = true →
            verdict.incoming.role = .gameMaster))
  | .note _ _ _ _ => inferInstanceAs (Decidable True)
  | .put _ => inferInstanceAs (Decidable True)
  | .open _ => inferInstanceAs (Decidable True)
  | .pass _ => inferInstanceAs (Decidable True)
  | .serve _ => inferInstanceAs (Decidable True)
  | .answer _ => inferInstanceAs (Decidable True)
  | .forget _ _ => inferInstanceAs (Decidable True)
  | .leave _ => inferInstanceAs (Decidable True)
  | .live _ => inferInstanceAs (Decidable True)
  | .otherTake _ => inferInstanceAs (Decidable True)
  | .otherServe _ _ _ _ => inferInstanceAs (Decidable True)

/-- A change that asks for a token edit, not for an attack. -/
def Browser.IsEdit (browser : Browser) (platform : Platform) (change : QueuedChange) : Prop :=
  parseAttackIntent platform (browser.commandOf change) = none

/-- How often a change was applied. -/
def Offline.applications (browser : Browser) (state : Offline) (change : QueuedChange) : Nat :=
  state.verdicts.countP fun verdict =>
    verdict.outcome.applied && verdict.outcome.localId = browser.spell change.localId

section

variable (browser : Browser) (platform : Platform)

/-- A verdict is about a change that was stored; where an edit was applied there is a mark no later than it. -/
def Verdict.Stands (server : Server) (made : List QueuedChange) (verdict : Verdict) : Prop :=
  ∃ row ∈ made, browser.spell row.localId = verdict.outcome.localId ∧ row.worldId = verdict.worldId ∧
    (verdict.outcome.applied = true → browser.IsEdit platform row → ∃ edit,
      parseTokenEdit platform (browser.commandOf row) = some edit ∧
      ∃ mark, server.existingMark verdict.worldId edit.tokenId = some mark ∧ mark ≤ verdict.incoming)

/-- What holds of the verdicts and of who is served. -/
structure Once (state : Offline) : Prop where
  stands : ∀ verdict ∈ state.verdicts, verdict.Stands browser platform state.server state.made
  begun : ∀ verdict ∈ state.verdicts,
    verdict.incoming.reconnectSeq ≤ state.server.marks.nextSeq verdict.worldId
  serving : ∀ request ∈ state.requests, ∀ incoming rest outcomes, request.service = .serving incoming rest outcomes →
    incoming.reconnectSeq ≤ state.server.marks.nextSeq request.worldId
  late : ∀ verdict ∈ state.verdicts, verdict.outcome.applied = true → ∀ request ∈ state.requests,
    request.worldId = verdict.worldId → ∀ incoming rest outcomes, request.service = .serving incoming rest outcomes →
      verdict.incoming ≤ incoming
  alone : ∀ (i j : Nat) (first second : Request), state.requests[i]? = some first → state.requests[j]? = some second →
    first.service.isServing = true → second.service.isServing = true → first.worldId = second.worldId → i = j
  once : ∀ row ∈ state.made, browser.IsEdit platform row → state.applications browser row ≤ 1

variable {browser platform} {state : Offline} {userId : Uuid}

theorem Contender.le_of_role {left right : Contender} (hrole : right.role = .gameMaster → left.role = .gameMaster)
    (hseq : left.reconnectSeq ≤ right.reconnectSeq) : left ≤ right := by
  rw [Contender.le_iff]
  unfold Contender.rank
  cases hright : right.role with
  | gameMaster =>
      rw [hrole hright]
      exact Or.inr ⟨rfl, hseq⟩
  | player =>
      cases left.role with
      | gameMaster => exact Or.inl Nat.zero_lt_one
      | player => exact Or.inr ⟨rfl, hseq⟩

theorem Verdict.Stands.mono {server server' : Server} {made made' : List QueuedChange} {verdict : Verdict}
    (h : verdict.Stands browser platform server made) (hserver : Descends server server')
    (hmade : ∀ row ∈ made, row ∈ made') : verdict.Stands browser platform server' made' := by
  obtain ⟨row, hrow, hid, hworld, hmark⟩ := h
  refine ⟨row, hmade row hrow, hid, hworld, fun happlied hedit => ?_⟩
  obtain ⟨edit, hparse, mark, hexisting, hle⟩ := hmark happlied hedit
  obtain ⟨first, hfirst, hle'⟩ := hserver.marks _ _ mark hexisting
  exact ⟨edit, hparse, first, hfirst, hle'.trans hle⟩

theorem Once.start (browser : Browser) (platform : Platform) (server : Server) :
    Once browser platform (Offline.start server) where
  stands _ hverdict := absurd hverdict List.not_mem_nil
  begun _ hverdict := absurd hverdict List.not_mem_nil
  serving _ hrequest := absurd hrequest List.not_mem_nil
  late _ hverdict := absurd hverdict List.not_mem_nil
  alone i j first second hfirst := by
    rw [Offline.start, List.getElem?_nil] at hfirst
    cases hfirst
  once _ hrow := absurd hrow List.not_mem_nil

/-- What the server does meanwhile. -/
theorem Once.descends (h : Once browser platform state) {server : Server} (hserver : Descends state.server server) :
    Once browser platform { state with server } where
  stands verdict hverdict := (h.stands verdict hverdict).mono hserver fun _ hrow => hrow
  begun verdict hverdict := UInt64.le_trans (h.begun verdict hverdict) (hserver.seq _)
  serving request hrequest incoming rest outcomes hservice :=
    UInt64.le_trans (h.serving request hrequest incoming rest outcomes hservice) (hserver.seq _)
  late := h.late
  alone := h.alone
  once := h.once

/-- What the browser does changes nothing of this. -/
theorem Once.congr (h : Once browser platform state) {state' : Offline} (hserver : state'.server = state.server)
    (hmade : state'.made = state.made) (hrequests : state'.requests = state.requests)
    (hverdicts : state'.verdicts = state.verdicts) : Once browser platform state' where
  stands := by rw [hverdicts, hserver, hmade]; exact h.stands
  begun := by rw [hverdicts, hserver]; exact h.begun
  serving := by rw [hrequests, hserver]; exact h.serving
  late := by rw [hverdicts, hrequests]; exact h.late
  alone := by rw [hrequests]; exact h.alone
  once := by
    unfold Offline.applications
    rw [hmade, hverdicts]
    exact h.once

theorem Once.sent (h : Once browser platform state) {request : Request} (hsent : request.service = .sent) :
    Once browser platform { state with requests := state.requests ++ [request] } where
  stands := h.stands
  begun := h.begun
  serving other hother incoming rest outcomes hservice := by
    rcases List.mem_append.mp hother with hother | hother
    · exact h.serving other hother incoming rest outcomes hservice
    · rw [List.mem_singleton.mp hother, hsent] at hservice
      cases hservice
  late verdict hverdict happlied other hother hworld incoming rest outcomes hservice := by
    rcases List.mem_append.mp hother with hother | hother
    · exact h.late verdict hverdict happlied other hother hworld incoming rest outcomes hservice
    · rw [List.mem_singleton.mp hother, hsent] at hservice
      cases hservice
  alone i j first second hfirst hsecond hserves hserves' hworld := by
    have hold {index : Nat} {other : Request} (hother : (state.requests ++ [request])[index]? = some other)
        (hserving : other.service.isServing = true) : state.requests[index]? = some other := by
      by_cases hlt : index < state.requests.length
      · rwa [List.getElem?_append_left hlt] at hother
      · rw [List.getElem?_append_right (not_lt.mp hlt)] at hother
        have hmem := List.mem_singleton.mp (List.mem_of_getElem? hother)
        rw [hmem, hsent] at hserving
        cases hserving
    exact h.alone i j first second (hold hfirst hserves) (hold hsecond hserves') hserves hserves' hworld
  once := h.once

/-- A change that is stored has not been applied yet. -/
theorem Once.stored (h : Once browser platform state) (hkept : Kept browser state) {index : Nat}
    {change : QueuedChange} (hnoted : state.noted[index]? = some change) (outbox : Outbox) (noted : List QueuedChange) :
    Once browser platform { state with outbox, noted, made := state.made ++ [change] } where
  stands verdict hverdict :=
    (h.stands verdict hverdict).mono (.refl _) fun _ hrow => List.mem_append_left _ hrow
  begun := h.begun
  serving := h.serving
  late := h.late
  alone := h.alone
  once row hrow hedit := by
    rcases List.mem_append.mp hrow with hrow | hrow
    · exact h.once row hrow hedit
    · obtain rfl := List.mem_singleton.mp hrow
      have hzero : state.applications browser row = 0 := by
        refine List.countP_eq_zero.mpr fun verdict hverdict hboth => ?_
        obtain ⟨old, hold, hid, -⟩ := h.stands verdict hverdict
        simp only [Bool.and_eq_true, decide_eq_true_eq] at hboth
        have hsame := browser.spell_injective (hid.trans hboth.2)
        have hnodup := hkept.fresh
        rw [List.map_append] at hnodup
        exact (List.nodup_append.mp hnodup).2.2 _ (List.mem_map_of_mem hold) _
          (List.mem_map_of_mem (List.mem_of_getElem? hnoted)) hsame
      exact hzero.trans_le (Nat.zero_le _)

/-- A call moves on to where it is not served. -/
theorem Once.setService (h : Once browser platform state) {index : Nat} {request : Request} {service : Service}
    (hservice : service.isServing = false) : Once browser platform (state.setService index request service) where
  stands := h.stands
  begun := h.begun
  serving other hother incoming rest outcomes heq := by
    rcases List.mem_or_eq_of_mem_set hother with hother | rfl
    · exact h.serving other hother incoming rest outcomes heq
    · rw [show service = _ from heq] at hservice
      cases hservice
  late verdict hverdict happlied other hother hworld incoming rest outcomes heq := by
    rcases List.mem_or_eq_of_mem_set hother with hother | rfl
    · exact h.late verdict hverdict happlied other hother hworld incoming rest outcomes heq
    · rw [show service = _ from heq] at hservice
      cases hservice
  alone i j first second hfirst hsecond hserves hserves' hworld := by
    have hold {position : Nat} {other : Request}
        (hother : (state.requests.set index { request with service })[position]? = some other)
        (hserving : other.service.isServing = true) : state.requests[position]? = some other := by
      rw [List.getElem?_set] at hother
      split_ifs at hother
      · rw [← Option.some.inj hother] at hserving
        rw [show service.isServing = true from hserving] at hservice
        cases hservice
      · exact hother
    exact h.alone i j first second (hold hfirst hserves) (hold hsecond hserves') hserves hserves' hworld
  once := h.once

/-- Where a call of the list stands after one of them has moved on. -/
theorem getElem?_setService {requests : List Request} {index position : Nat} {request other : Request}
    (h : (requests.set index request)[position]? = some other) :
    position = index ∧ other = request ∨ position ≠ index ∧ requests[position]? = some other := by
  rw [List.getElem?_set] at h
  split_ifs at h with heq
  · exact Or.inl ⟨heq.symm, (Option.some.inj h).symm⟩
  · exact Or.inr ⟨Ne.symm heq, h⟩

/-- What is served after a call that is served has moved on was served before. -/
theorem serving_of_set {requests : List Request} {index position : Nat} {request moved other : Request}
    (hrequest : requests[index]? = some request) (hserving : request.service.isServing = true)
    (hother : (requests.set index moved)[position]? = some other) (hother' : other.service.isServing = true)
    (hworld : request.worldId = moved.worldId) :
    ∃ old, requests[position]? = some old ∧ old.service.isServing = true ∧ old.worldId = other.worldId := by
  rcases getElem?_setService hother with ⟨rfl, rfl⟩ | ⟨-, hold⟩
  · exact ⟨request, hrequest, hserving, hworld⟩
  · exact ⟨other, hold, hother', rfl⟩

/-- A call takes its place after all that was applied in its world. -/
theorem Once.taken (h : Once browser platform state) {index : Nat} {request : Request}
    (hrequest : state.requests[index]? = some request) {role : Role}
    (halone : ∀ other ∈ state.requests, other.worldId = request.worldId → other.service.isServing = false)
    (hrole : role = .gameMaster → ∀ verdict ∈ state.verdicts, verdict.worldId = request.worldId →
      verdict.outcome.applied = true → verdict.incoming.role = .gameMaster) :
    Once browser platform { state.setService index request
        (.serving { role, reconnectSeq := state.server.marks.nextSeq request.worldId } request.changes []) with
      server := (state.server.takeReconnectSeq request.worldId).1 } := by
  have hdescends := Descends.takeReconnectSeq state.server request.worldId
  have hmem : request ∈ state.requests := List.mem_of_getElem? hrequest
  constructor
  · exact fun verdict hverdict => (h.stands verdict hverdict).mono hdescends fun _ hrow => hrow
  · exact fun verdict hverdict => UInt64.le_trans (h.begun verdict hverdict) (hdescends.seq _)
  · intro other hother incoming rest outcomes hservice
    rcases List.mem_or_eq_of_mem_set hother with hother | rfl
    · exact UInt64.le_trans (h.serving other hother incoming rest outcomes hservice) (hdescends.seq _)
    · cases hservice
      exact hdescends.seq _
  · intro verdict hverdict happlied other hother hworld incoming rest outcomes hservice
    rcases List.mem_or_eq_of_mem_set hother with hother | rfl
    · exact h.late verdict hverdict happlied other hother hworld incoming rest outcomes hservice
    · cases hservice
      have hworld' : verdict.worldId = request.worldId := hworld.symm
      refine Contender.le_of_role (fun hgm => hrole hgm verdict hverdict hworld' happlied) ?_
      exact hworld' ▸ h.begun verdict hverdict
  · intro i j first second hfirst hsecond hserves hserves' hworld
    rcases getElem?_setService hfirst with ⟨rfl, rfl⟩ | ⟨-, hold⟩ <;>
      rcases getElem?_setService hsecond with ⟨rfl, rfl⟩ | ⟨-, hold'⟩
    · rfl
    · rw [halone second (List.mem_of_getElem? hold') hworld.symm] at hserves'
      cases hserves'
    · rw [halone first (List.mem_of_getElem? hold) hworld] at hserves
      cases hserves
    · exact h.alone i j first second hold hold' hserves hserves' hworld
  · exact h.once

/-- One more change is served. -/
theorem Once.served (h : Once browser platform state) (hkept : Kept browser state) {index : Nat} {request : Request}
    (hrequest : state.requests[index]? = some request) {incoming : Contender} {change : QueuedChangeInput}
    {rest : List QueuedChangeInput} {outcomes : List ReconcileOutcome}
    (hserving : request.service = .serving incoming (change :: rest) outcomes) {served : Server × ReconcileOutcome}
    (hserve : applyChange platform request.worldId userId incoming state.server change = served) :
    Once browser platform { state.setService index request (.serving incoming rest (outcomes ++ [served.2])) with
      server := served.1
      verdicts := state.verdicts ++ [{ worldId := request.worldId, incoming, outcome := served.2 }] } := by
  have hmem : request ∈ state.requests := List.mem_of_getElem? hrequest
  have hdescends : Descends state.server served.1 :=
    hserve ▸ descends_applyChange platform request.worldId userId incoming state.server change
  have hlocal : served.2.localId = change.localId :=
    hserve ▸ localId_applyChange platform request.worldId userId incoming state.server change
  have hsound := hkept.requests request hmem
  obtain ⟨row, hrow, hwire⟩ := (wires_spec hsound.changes).2 change
    ((hsound.serving _ _ _ hserving).2 change List.mem_cons_self)
  obtain ⟨hid, hcommand⟩ := wire_spec hwire
  obtain ⟨hmade, hworld⟩ := hsound.rows row hrow
  -- An edit that is applied now met no mark, so it cannot have been applied before.
  have happlied_spec : served.2.applied = true → browser.IsEdit platform row → ∃ edit,
      parseTokenEdit platform (browser.commandOf row) = some edit ∧
        (∀ mark, state.server.existingMark request.worldId edit.tokenId = some mark → incoming < mark) ∧
        served.1.existingMark request.worldId edit.tokenId = some incoming := by
    intro happlied hedit
    rw [← hserve] at happlied ⊢
    rw [Browser.IsEdit, ← hcommand] at hedit
    rw [← hcommand]
    exact applied_spec hedit happlied
  constructor
  · intro verdict hverdict
    rcases List.mem_append.mp hverdict with hverdict | hverdict
    · exact (h.stands verdict hverdict).mono hdescends fun _ hrow => hrow
    · rw [List.mem_singleton.mp hverdict]
      refine ⟨row, hmade, hid.symm.trans hlocal.symm, hworld, fun happlied hedit => ?_⟩
      obtain ⟨edit, hparse, -, hmark⟩ := happlied_spec happlied hedit
      exact ⟨edit, hparse, incoming, hmark, le_rfl⟩
  · intro verdict hverdict
    rcases List.mem_append.mp hverdict with hverdict | hverdict
    · exact UInt64.le_trans (h.begun verdict hverdict) (hdescends.seq _)
    · rw [List.mem_singleton.mp hverdict]
      exact UInt64.le_trans (h.serving request hmem _ _ _ hserving) (hdescends.seq _)
  · intro other hother incoming' rest' outcomes' hservice
    rcases List.mem_or_eq_of_mem_set hother with hother | rfl
    · exact UInt64.le_trans (h.serving other hother incoming' rest' outcomes' hservice) (hdescends.seq _)
    · cases hservice
      exact UInt64.le_trans (h.serving request hmem _ _ _ hserving) (hdescends.seq _)
  · intro verdict hverdict happlied other hother hother' incoming' rest' outcomes' hservice
    rcases List.mem_append.mp hverdict with hverdict | hverdict
    · rcases List.mem_or_eq_of_mem_set hother with hother | rfl
      · exact h.late verdict hverdict happlied other hother hother' incoming' rest' outcomes' hservice
      · cases hservice
        exact h.late verdict hverdict happlied request hmem hother' _ _ _ hserving
    · obtain rfl := List.mem_singleton.mp hverdict
      obtain ⟨position, hposition⟩ := List.mem_iff_getElem?.mp hother
      rcases getElem?_setService hposition with ⟨-, rfl⟩ | ⟨hne, hposition⟩
      · cases hservice
        exact le_rfl
      · exact absurd (h.alone position index other request hposition hrequest (by rw [hservice]; rfl)
          (by rw [hserving]; rfl) hother') hne
  · intro i j first second hfirst hsecond hserves hserves' hworlds
    have hbusy : request.service.isServing = true := by rw [hserving]; rfl
    obtain ⟨first', hfirst', hold, hworld'⟩ := serving_of_set hrequest hbusy hfirst hserves rfl
    obtain ⟨second', hsecond', hold', hworld''⟩ := serving_of_set hrequest hbusy hsecond hserves' rfl
    exact h.alone i j first' second' hfirst' hsecond' hold hold' (hworld'.trans (hworlds.trans hworld''.symm))
  · intro other hother hedit
    show List.countP _ (state.verdicts ++ [_]) ≤ 1
    rw [List.countP_append, List.countP_singleton]
    split_ifs with hnew
    · simp only [Bool.and_eq_true, decide_eq_true_eq] at hnew
      obtain ⟨happlied, hspell⟩ := hnew
      have hrow' : row.localId = other.localId :=
        browser.spell_injective (hid.symm.trans (hlocal.symm.trans hspell))
      obtain rfl : row = other :=
        hkept.eq_of_localId (List.mem_append_left _ hmade) (List.mem_append_left _ hother) hrow'
      obtain ⟨edit, hparse, hfirst, -⟩ := happlied_spec happlied hedit
      refine (Nat.add_eq_right.mpr (List.countP_eq_zero.mpr fun verdict hverdict hboth => ?_)).le
      simp only [Bool.and_eq_true, decide_eq_true_eq] at hboth
      obtain ⟨old, hold, hold', hworld', hmark⟩ := h.stands verdict hverdict
      obtain rfl : old = row := hkept.eq_of_localId (List.mem_append_left _ hold) (List.mem_append_left _ hmade)
        (browser.spell_injective (hold'.trans hboth.2))
      obtain ⟨edit', hparse', mark, hexisting, hle⟩ := hmark hboth.1 hedit
      obtain rfl : edit = edit' := Option.some.inj (hparse.symm.trans hparse')
      have hworlds : verdict.worldId = request.worldId := hworld'.symm.trans hworld
      have hlate := h.late verdict hverdict hboth.1 request hmem hworlds.symm _ _ _ hserving
      exact absurd (hle.trans hlate) (not_le.mpr (hfirst mark (hworlds ▸ hexisting)))
    · exact h.once other hother hedit

theorem Once.effect (h : Once browser platform state) (hkept : Kept browser state) {act : OfflineStep}
    (hserial : state.Serial userId act) {state' : Offline} (heffect : Effect state platform userId browser act state') :
    Once browser platform state' := by
  cases heffect with
  | idle => exact h
  | noted worldId localId command actorRoleHint => exact h.congr rfl rfl rfl rfl
  | stored hnoted => exact h.stored hkept hnoted _ _
  | opened worldId => exact h.congr rfl rfl rfl rfl
  | turned act index hphase => exact h.congr rfl rfl rfl rfl
  | sent act index hrows hchanges hphase =>
      rename_i worldId submittedAlready drain rows changes
      exact (h.sent rfl).congr rfl rfl rfl rfl
  | refused act hrequest hsent houtcomes => exact h.setService rfl
  | taken hrequest hsent hmember =>
      obtain ⟨halone, hrole⟩ := hserial _ hrequest hsent
      exact h.taken hrequest halone (hrole _ hmember)
  | served hrequest hserving hserve => exact h.served hkept hrequest hserving hserve
  | finished hrequest hserving => exact h.setService rfl
  | answered act index hrequest hanswered => exact h.congr rfl rfl rfl rfl
  | forgot act hdrain hphase deleted => exact h.congr rfl rfl rfl rfl
  | elsewhere act hserver => exact h.descends hserver

/-- As long as local ids are given once, the calls for one world are served one after the other and nobody becomes a
Game Master in between: a token edit is applied at most once, however often pages submit it, whichever answers are
lost and whatever others do. -/
theorem applied_once {server : Server} {acts : List OfflineStep}
    (hserial : Run.Meets (step platform userId browser) (fun state act => state.Fresh act ∧ state.Serial userId act)
      (.start server) acts) {change : QueuedChange}
    (hmade : change ∈ (Run.run (step platform userId browser) (.start server) acts).made)
    (hedit : browser.IsEdit platform change) :
    (Run.run (step platform userId browser) (.start server) acts).applications browser change ≤ 1 := by
  have hrun : Kept browser (Run.run (step platform userId browser) (.start server) acts) ∧
      Once browser platform (Run.run (step platform userId browser) (.start server) acts) := by
    refine hserial.invariant (I := fun state => Kept browser state ∧ Once browser platform state)
      (fun state act h hok => ?_) ⟨Kept.start browser server, Once.start browser platform server⟩
    have heffect := step_effect state platform userId browser act
    exact ⟨h.1.effect hok.1 heffect, h.2.effect h.1 hok.2 heffect⟩
  exact hrun.2.once change hmade hedit

theorem applied_once_lostAnswer :
    (Run.run (step readsMove 30 movesText) (.start twoTables) lostAnswer).applications movesText
      ⟨1, 2, moveText, 0, .player⟩ = 1 :=
  le_antisymm (applied_once (by decide +kernel) (by decide +kernel) rfl) (by decide +kernel)

/-- Served side by side, the second call before the first: both apply the change. -/
example : (Run.run (step readsMove 30 movesText) (.start twoTables)
    [.note 2 1 moveText .player, .put 0, .open 2, .pass 0, .take 0, .leave 0, .open 2, .pass 1, .take 1, .serve 1,
      .serve 0]).applications movesText ⟨1, 2, moveText, 0, .player⟩ = 2 := by
  decide +kernel

end

end ThunderForge.Reconcile
