import ThunderForge.Lib.Precedence
import ThunderForge.Reconcile.Gates

/-! One token as a register: the mark of whoever last won it, and its pose. A batch does to each token what
the writes it makes of that token do to the register, one after the other. -/

namespace ThunderForge.Reconcile

open Precedence

/-- Who a member reconnects as. -/
def reconnectsAs (server : Server) (worldId : Uuid) (memberRole : String) : Contender where
  role := roleFromMembership memberRole
  reconnectSeq := server.marks.nextSeq worldId

/-- A token edit as a write on behalf of whoever reconnected with it. -/
def TokenEdit.offer (incoming : Contender) (edit : TokenEdit) : Offer Contender Pose where
  owner := incoming
  write pose :=
    let pose := edit.applyTo pose
    if isPositive pose.scale then some pose else none

/-- The server holds this token with the register's pose, under the register's mark. -/
structure Shows (server : Server) (worldId tokenId : Uuid) (token : Token) (r : Register Contender Pose) :
    Prop where
  mark : server.existingMark worldId tokenId = r.mark
  row : server.database.tokens tokenId = some { token with toPose := r.value }

section

variable (platform : Platform) (userId : Uuid) (db : Database) (role : Role) (tokenId : Uuid)

/-- The edit of one token a change asks for, when it is an edit the rules adjudicate. -/
def editOn (change : QueuedChangeInput) : Option TokenEdit :=
  if (parseAttackIntent platform change.command).isSome then none
  else (admittedEdit platform userId db role change).filter fun edit => edit.tokenId = tokenId

end

variable {platform : Platform} {worldId userId tokenId : Uuid} {incoming : Contender} {server : Server}
  {token : Token} {r : Register Contender Pose}

theorem pose_eq_of_row_eq {token : Token} {pose : Pose} :
    some { token with toPose := pose } = some token ↔ pose = token.toPose := by
  constructor
  · intro h
    exact congrArg Token.toPose (Option.some.inj h)
  · rintro rfl
    rfl

theorem SameGates.editOn {left right : Database} (h : SameGates left right) :
    editOn platform userId left = editOn platform userId right := by
  funext role tokenId change
  unfold Reconcile.editOn
  rw [h.admittedEdit]

/-- Superseded on the server is blocked in the register. -/
theorem Shows.supersededBy (h : Shows server worldId tokenId token r) :
    (supersededBy server worldId tokenId incoming).isSome ↔ r.Blocks incoming := by
  rw [supersededBy_isSome, Register.blocks_iff, h.mark]

theorem Shows.writable (h : Shows server worldId tokenId token r) {edit : TokenEdit}
    (hedit : edit.tokenId = tokenId) :
    server.database.Writable edit ↔ isPositive (edit.applyTo r.value).scale :=
  Database.writable_of_row (hedit ▸ h.row)

/-- One token edit does to the register of its token what its write does, and nothing to the others. -/
theorem applyOne_shows (h : Shows server worldId tokenId token r) (change : QueuedChangeInput) :
    match (admittedEdit platform userId server.database incoming.role change).filter
        fun edit => edit.tokenId = tokenId with
    | none => Shows (applyOne platform worldId userId incoming server change).1 worldId tokenId token r
    | some edit =>
      Shows (applyOne platform worldId userId incoming server change).1 worldId tokenId token
        (r.offer (edit.offer incoming)).1 ∧
      (applyOne platform worldId userId incoming server change).2.applied =
        (r.offer (edit.offer incoming)).2 := by
  by_cases hlands : ∃ edit, Lands platform worldId userId incoming server change edit
  · obtain ⟨edit, hlands⟩ := hlands
    obtain ⟨happlied, hrow, hmark, hothers⟩ := applyOne_of_lands hlands
    rw [hlands.admitted]
    by_cases hedit : edit.tokenId = tokenId
    · have hfree : ¬r.Blocks incoming := by
        rw [← h.supersededBy, ← hedit, hlands.first]
        simp
      have hwrite : (edit.offer incoming).write r.value = some (edit.applyTo r.value) :=
        if_pos ((h.writable hedit).mp hlands.writable)
      rw [Option.filter_some_pos (by simpa using hedit)]
      simp only [Register.offer_of_write hfree hwrite]
      rw [hedit] at hrow hmark
      refine ⟨⟨hmark, ?_⟩, happlied⟩
      rw [hrow, h.row]
      rfl
    · rw [Option.filter_some_neg (by simpa using hedit)]
      obtain ⟨hrow', hmark'⟩ := hothers tokenId (Ne.symm hedit)
      exact ⟨hmark'.trans h.mark, hrow'.trans h.row⟩
  · push Not at hlands
    obtain ⟨hstate, happlied⟩ := applyOne_of_not_lands hlands
    rw [hstate, happlied]
    split
    · exact h
    · rename_i edit hfilter
      obtain ⟨hadmitted, hedit⟩ := Option.filter_eq_some_iff.mp hfilter
      have hedit : edit.tokenId = tokenId := of_decide_eq_true hedit
      have hrefused : r.offer (edit.offer incoming) = (r, false) := by
        by_cases hblocks : r.Blocks incoming
        · exact Register.offer_of_blocks hblocks
        · refine Register.offer_of_write_none (if_neg fun hscale => hlands edit ⟨hadmitted, ?_, ?_⟩)
          · rw [← h.supersededBy, ← hedit] at hblocks
            simpa using hblocks
          · exact (h.writable hedit).mpr hscale
      rw [hrefused]
      exact ⟨h, rfl⟩

/-- A token out of an attack's reach is left as it was. -/
theorem applyAttackIntent_shows (h : Shows server worldId tokenId token r) {role : Role}
    {change : QueuedChangeInput} {intent : AttackRequest}
    (hreach : server.database.worldOf tokenId ≠ some worldId) :
    Shows (applyAttackIntent platform worldId userId role server change intent).1 worldId tokenId token r := by
  obtain ⟨hmarks, hreaches⟩ := applyAttackIntent_reaches platform worldId userId role server change intent
  exact ⟨(Server.existingMark_congr hmarks).trans h.mark, (hreaches.others tokenId hreach).trans h.row⟩

variable (platform worldId userId incoming server) in
theorem sameGates_applyChange (change : QueuedChangeInput) :
    SameGates server.database (applyChange platform worldId userId incoming server change).1.database := by
  unfold applyChange
  split
  · exact (applyAttackIntent_reaches _ _ _ _ _ _ _).2.gates
  · exact sameGates_applyOne platform worldId userId incoming server change

variable (platform userId incoming) in
/-- One change of a batch does to the register of a token what the write it makes of it does. -/
theorem applyChange_shows (h : Shows server worldId tokenId token r) (change : QueuedChangeInput)
    (hreach : (parseAttackIntent platform change.command).isSome →
      server.database.worldOf tokenId ≠ some worldId) :
    match editOn platform userId server.database incoming.role tokenId change with
    | none => Shows (applyChange platform worldId userId incoming server change).1 worldId tokenId token r
    | some edit =>
      Shows (applyChange platform worldId userId incoming server change).1 worldId tokenId token
        (r.offer (edit.offer incoming)).1 ∧
      (applyChange platform worldId userId incoming server change).2.applied =
        (r.offer (edit.offer incoming)).2 := by
  unfold applyChange editOn
  cases hparse : parseAttackIntent platform change.command with
  | some intent =>
      rw [hparse] at hreach
      exact applyAttackIntent_shows h (hreach rfl)
  | none => exact applyOne_shows h change

/-- The edits of one token that a batch makes, in submitted order. -/
def editsOn (platform : Platform) (userId : Uuid) (db : Database) (role : Role) (tokenId : Uuid)
    (changes : List QueuedChangeInput) : List TokenEdit :=
  changes.filterMap (editOn platform userId db role tokenId)

/-- What became of the edits of one token, in the same order. -/
def verdictsOn (platform : Platform) (userId : Uuid) (db : Database) (role : Role) (tokenId : Uuid)
    (changes : List QueuedChangeInput) (outcomes : List ReconcileOutcome) : List Bool :=
  (changes.zip outcomes).filterMap fun (change, outcome) =>
    (editOn platform userId db role tokenId change).map fun _ => outcome.applied

variable (platform userId incoming) in
/-- A batch does to the register of a token what its writes do, one after the other. -/
theorem applyChanges_shows {db : Database} (hgates : SameGates db server.database)
    (h : Shows server worldId tokenId token r) (changes : List QueuedChangeInput)
    (hreach : ∀ change ∈ changes, (parseAttackIntent platform change.command).isSome →
      db.worldOf tokenId ≠ some worldId) :
    let writes := (editsOn platform userId db incoming.role tokenId changes).map (TokenEdit.offer incoming)
    let result := applyChanges platform worldId userId incoming server changes
    Shows result.1 worldId tokenId token (r.offers writes).1 ∧
      verdictsOn platform userId db incoming.role tokenId changes result.2 = (r.offers writes).2 := by
  induction changes generalizing server r with
  | nil => exact ⟨h, rfl⟩
  | cons change changes ih =>
      have hfirst := applyChange_shows platform userId incoming h change
        (hgates.worldOf ▸ hreach change List.mem_cons_self)
      have hnext := hgates.trans (sameGates_applyChange platform worldId userId incoming server change)
      have hrest := fun c hc => hreach c (List.mem_cons_of_mem change hc)
      rw [← hgates.editOn] at hfirst
      cases hedit : editOn platform userId db incoming.role tokenId change with
      | none =>
          simp only [hedit] at hfirst
          have := ih hnext hfirst hrest
          simpa [editsOn, verdictsOn, applyChanges, hedit] using this
      | some edit =>
          simp only [hedit] at hfirst
          obtain ⟨hshows, hverdict⟩ := hfirst
          have := ih hnext hshows hrest
          simpa [editsOn, verdictsOn, applyChanges, hedit, Register.offers, hverdict] using this

end ThunderForge.Reconcile
