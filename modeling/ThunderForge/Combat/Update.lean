import Mathlib.Data.List.Forall2
import Mathlib.Data.List.TakeWhile
import ThunderForge.Combat.Tables

/-! Changing a combatant, a field at a time, and what stays of a change that is refused. -/

namespace ThunderForge.Combat

/-- `DOWNED_BY_GAME_MASTER` -/
def downedByGameMaster : String := "game_master"

structure UpdateCombatantInput where
  combatantId : Uuid
  initiative : Option ℤ
  tiebreak : Option ℤ
  active : Option Bool
  label : Option String

/-- A field that is given. -/
inductive Field where
  | initiative (value : ℤ)
  | tiebreak (value : ℤ)
  | active (value : Bool)
  | label (value : String)

namespace Field

def statement : Field → Statement
  | initiative _ => .initiative
  | tiebreak _ => .tiebreak
  | active _ => .active
  | label _ => .label

def error : Field → String → String
  | initiative _, e => "Failed to update initiative: " ++ e
  | tiebreak _, e => "Failed to update tiebreak: " ++ e
  | active _, e => "Failed to update active: " ++ e
  | label _, e => "Failed to update label: " ++ e

/-- A name with nothing in it. -/
def Blank : Field → Prop
  | label value => trim value = ""
  | _ => False

instance : DecidablePred Blank
  | label value => inferInstanceAs (Decidable (trim value = ""))
  | initiative _ | tiebreak _ | active _ => inferInstanceAs (Decidable False)

/-- The row with the field written. The tracker's Down is the Game Master's, and Up clears whatever took it out. -/
def set (now : Time) (row : Combatant) : Field → Combatant
  | initiative value => { row with initiative := value, updatedAt := now }
  | tiebreak value => { row with tiebreak := value, updatedAt := now }
  | active value =>
    { row with active := value, downedBy := if value then none else some downedByGameMaster, updatedAt := now }
  | label value => { row with label := trim value, updatedAt := now }

end Field

/-- One field's validation and its statement. -/
def Platform.writeField (p : Platform) (combatantId : Uuid) (now : Time) (field : Field) : Call Unit := do
  .require (¬field.Blank) (.message "Combatant needs a name")
  .write (p.failure field.statement field.error) fun s => s.updateCombatant combatantId fun row => field.set now row

/-- `update_combatant_impl` -/
def updateCombatant (p : Platform) (caller : Caller) (input : UpdateCombatantInput) : Call GraphQLCombat := do
  let combat ← p.changeable caller input.combatantId
  let now := p.now .initiative
  .whenSome input.initiative fun value => p.writeField input.combatantId now (.initiative value)
  .whenSome input.tiebreak fun value => p.writeField input.combatantId now (.tiebreak value)
  .whenSome input.active fun value => p.writeField input.combatantId now (.active value)
  .whenSome input.label fun value => p.writeField input.combatantId now (.label value)
  p.touchAndBroadcast caller combat.id combat.worldId
  let combat ← p.combatWorld .reload combat.id
  p.loadCombat caller combat

/-- The fields that are given, in the order they are written. -/
def UpdateCombatantInput.fields (input : UpdateCombatantInput) : List Field :=
  (input.initiative.map Field.initiative).toList ++ (input.tiebreak.map Field.tiebreak).toList ++
    (input.active.map Field.active).toList ++ (input.label.map Field.label).toList

/-- What a change to a combatant ends with. -/
def Platform.report (p : Platform) (caller : Caller) (combat : CombatRow) : Call GraphQLCombat := do
  p.touchAndBroadcast caller combat.id combat.worldId
  let combat ← p.combatWorld .reload combat.id
  p.loadCombat caller combat

/-- The fields are written one after another. -/
theorem updateCombatant_eq (p : Platform) (caller : Caller) (input : UpdateCombatantInput) :
    updateCombatant p caller input = (do
      let combat ← p.changeable caller input.combatantId
      Autocommit.forEach (p.writeField input.combatantId (p.now .initiative)) input.fields
      p.report caller combat) := by
  unfold updateCombatant UpdateCombatantInput.fields Platform.report
  simp only [Autocommit.forEach_append, Autocommit.forEach_toList, bind_assoc]

/-! When a call is let through to the fields. -/

/-- The combatant is there, its combat is, the caller runs the world, play is not paused, and no statement that finds
this out fails. -/
structure LetThrough (p : Platform) (caller : Caller) (s : Tables) (combatantId : Uuid) (combat : CombatRow) : Prop where
  lookupConnection : p.fault .lookupConnection = none
  findCombatant : p.fault .findCombatant = none
  findCombat : p.fault .findCombat = none
  rows : ∃ row, s.combatant? combatantId = some row ∧ s.combat? row.combatId = some combat
  runs : caller.isAdmin = true ∨
    p.fault .authorize = none ∧ p.runsTheWorld caller.userId caller.isAdmin combat.worldId = true
  connection : p.fault .connection = none
  readPause : p.fault .readPause = none
  unpaused : p.activePauseAt combat.worldId = none

theorem failure_eq_none_iff {p : Platform} {statement : Statement} {error : String → String} :
    p.failure statement error = none ↔ p.fault statement = none := Option.map_eq_none_iff

theorem connect_eq_ok {p : Platform} {statement : Statement} {s s' : Tables} {u : Unit} :
    p.connect statement s = (.ok u, s') ↔ p.fault statement = none ∧ s = s' := by
  unfold Platform.connect
  rw [Autocommit.write_eq_ok, failure_eq_none_iff, id_eq]

theorem elim_eq_ok {α β : Type} {value : Option α} {error : CallError} {f : α → Except CallError β} {b : β} :
    value.elim (.error error) f = .ok b ↔ ∃ a, value = some a ∧ f a = .ok b := by
  cases value <;> simp

theorem combatWorld_eq_ok {p : Platform} {statement : Statement} {id : Uuid} {s s' : Tables} {combat : CombatRow} :
    p.combatWorld statement id s = (.ok combat, s') ↔
      p.fault statement = none ∧ s.combat? id = some combat ∧ s = s' := by
  unfold Platform.combatWorld
  rw [Autocommit.read_eq_ok, failure_eq_none_iff, elim_eq_ok]
  simp

theorem isDmOfWorld_eq_true {p : Platform} {caller : Caller} {worldId : Uuid} {s s' : Tables} :
    p.isDmOfWorld caller worldId s = (.ok true, s') ↔ (caller.isAdmin = true ∨
      p.fault .authorize = none ∧ p.runsTheWorld caller.userId caller.isAdmin worldId = true) ∧ s = s' := by
  unfold Platform.isDmOfWorld
  split_ifs with hadmin
  · simp [hadmin]
  · rw [Autocommit.read_eq_ok, failure_eq_none_iff]
    simp [hadmin, and_assoc]

theorem refuseIfPaused_eq_ok {p : Platform} {worldId : Uuid} {s s' : Tables} {u : Unit} :
    p.refuseIfPaused worldId s = (.ok u, s') ↔
      p.fault .readPause = none ∧ p.activePauseAt worldId = none ∧ s = s' := by
  unfold Platform.refuseIfPaused
  rw [Autocommit.read_eq_ok, failure_eq_none_iff]
  cases p.activePauseAt worldId <;> simp

theorem changeable_eq_ok {p : Platform} {caller : Caller} {s s' : Tables} {combatantId : Uuid} {combat : CombatRow} :
    p.changeable caller combatantId s = (.ok combat, s') ↔ LetThrough p caller s combatantId combat ∧ s = s' := by
  unfold Platform.changeable Platform.combatOf
  constructor
  · intro h
    obtain ⟨_, _, hconnect, h⟩ := Autocommit.bind_eq_ok.mp h
    obtain ⟨hlookup, rfl⟩ := connect_eq_ok.mp hconnect
    obtain ⟨_, _, hcombat, h⟩ := Autocommit.bind_eq_ok.mp h
    obtain ⟨combatId, _, hread, hworld⟩ := Autocommit.bind_eq_ok.mp hcombat
    obtain ⟨hfind, hanswer, rfl⟩ := Autocommit.read_eq_ok.mp hread
    obtain ⟨row, hrow, hid⟩ := elim_eq_ok.mp hanswer
    obtain rfl := Except.ok.inj hid
    obtain ⟨hfindcombat, hfound, rfl⟩ := combatWorld_eq_ok.mp hworld
    obtain ⟨isDm, _, hdm, h⟩ := Autocommit.bind_eq_ok.mp h
    obtain ⟨_, _, hrequire, h⟩ := Autocommit.bind_eq_ok.mp h
    obtain ⟨rfl, rfl⟩ := Autocommit.require_eq_ok.mp hrequire
    obtain ⟨hruns, rfl⟩ := isDmOfWorld_eq_true.mp hdm
    obtain ⟨_, _, hconnection, h⟩ := Autocommit.bind_eq_ok.mp h
    obtain ⟨hconnected, rfl⟩ := connect_eq_ok.mp hconnection
    obtain ⟨_, _, hpause, h⟩ := Autocommit.bind_eq_ok.mp h
    obtain ⟨hreadpause, hunpaused, rfl⟩ := refuseIfPaused_eq_ok.mp hpause
    obtain ⟨hcombat, rfl⟩ := Prod.mk.inj h
    obtain rfl := Except.ok.inj hcombat
    exact ⟨⟨hlookup, failure_eq_none_iff.mp hfind, hfindcombat, ⟨row, hrow, hfound⟩, hruns, hconnected, hreadpause,
      hunpaused⟩, rfl⟩
  · rintro ⟨h, rfl⟩
    obtain ⟨row, hrow, hcombat⟩ := h.rows
    refine Autocommit.bind_eq_ok.mpr ⟨(), s, connect_eq_ok.mpr ⟨h.lookupConnection, rfl⟩, ?_⟩
    refine Autocommit.bind_eq_ok.mpr ⟨combat, s, ?_, ?_⟩
    · refine Autocommit.bind_eq_ok.mpr ⟨row.combatId, s, ?_, combatWorld_eq_ok.mpr ⟨h.findCombat, hcombat, rfl⟩⟩
      exact Autocommit.read_eq_ok.mpr ⟨failure_eq_none_iff.mpr h.findCombatant, elim_eq_ok.mpr ⟨row, hrow, rfl⟩, rfl⟩
    · refine Autocommit.bind_eq_ok.mpr ⟨true, s, isDmOfWorld_eq_true.mpr ⟨h.runs, rfl⟩, ?_⟩
      refine Autocommit.bind_eq_ok.mpr ⟨(), s, Autocommit.require_eq_ok.mpr ⟨rfl, rfl⟩, ?_⟩
      refine Autocommit.bind_eq_ok.mpr ⟨(), s, connect_eq_ok.mpr ⟨h.connection, rfl⟩, ?_⟩
      exact Autocommit.bind_eq_ok.mpr ⟨(), s, refuseIfPaused_eq_ok.mpr ⟨h.readPause, h.unpaused, rfl⟩, rfl⟩

theorem connect_readOnly (p : Platform) (statement : Statement) : (p.connect statement).ReadOnly := by
  intro s
  unfold Platform.connect
  cases p.failure statement fun _ => "Failed to get DB connection" <;> rfl

theorem changeable_readOnly (p : Platform) (caller : Caller) (combatantId : Uuid) :
    (p.changeable caller combatantId).ReadOnly := by
  refine (connect_readOnly p _).bind fun _ => .bind ?_ fun combat => .bind ?_ fun isDm =>
    (Autocommit.ReadOnly.require _ _).bind fun _ => (connect_readOnly p _).bind fun _ => ?_
  · exact .bind (.read _ _) fun _ => p.combatWorld_readOnly _ _
  · unfold Platform.isDmOfWorld
    split_ifs
    · exact .done _
    · exact .read _ _
  · exact .bind (.read _ _) fun _ => .done _

/-! What one field's statement writes, and what several do. -/

namespace Field

/-- Why a field is refused, if it is: its validation, or its statement. -/
def refusal (p : Platform) (field : Field) : Option CallError :=
  if field.Blank then some (.message "Combatant needs a name") else p.failure field.statement field.error

/-- A row that has what is given. -/
def Stored (row : Combatant) : Field → Prop
  | initiative value => row.initiative = value
  | tiebreak value => row.tiebreak = value
  | active value => row.active = value ∧ row.downedBy = if value then none else some downedByGameMaster
  | label value => row.label = trim value

@[simp] theorem set_id (now : Time) (row : Combatant) (field : Field) : (field.set now row).id = row.id := by
  cases field <;> rfl

@[simp] theorem set_updatedAt (now : Time) (row : Combatant) (field : Field) : (field.set now row).updatedAt = now := by
  cases field <;> rfl

theorem set_eq_self {now : Time} {row : Combatant} {field : Field} :
    field.set now row = row ↔ field.Stored row ∧ row.updatedAt = now := by
  cases row
  cases field <;> simp only [set, Stored, Combatant.mk.injEq, true_and, and_true] <;> tauto

theorem stored_set (now : Time) (row : Combatant) (field : Field) : field.Stored (field.set now row) := by
  cases field <;> simp [set, Stored]

theorem stored_set_iff {now : Time} {row : Combatant} {field other : Field} (h : field.statement ≠ other.statement) :
    field.Stored (other.set now row) ↔ field.Stored row := by
  cases field <;> cases other <;> first | exact absurd rfl h | exact Iff.rfl

/-- A row after several fields are written. -/
def setAll (now : Time) (fields : List Field) (row : Combatant) : Combatant :=
  fields.foldl (fun row field => field.set now row) row

@[simp] theorem setAll_id (now : Time) (fields : List Field) (row : Combatant) : (setAll now fields row).id = row.id := by
  induction fields generalizing row with
  | nil => rfl
  | cons field fields ih =>
      change (setAll now fields (field.set now row)).id = row.id
      rw [ih, set_id]

theorem stored_setAll_iff {now : Time} {fields : List Field} {field : Field}
    (h : ∀ other ∈ fields, field.statement ≠ other.statement) {row : Combatant} :
    field.Stored (setAll now fields row) ↔ field.Stored row := by
  induction fields generalizing row with
  | nil => exact Iff.rfl
  | cons other fields ih =>
      have hrest := @ih (fun next hnext => h next (List.mem_cons_of_mem _ hnext)) (other.set now row)
      exact hrest.trans (stored_set_iff (h other List.mem_cons_self))

theorem stored_setAll {now : Time} {fields : List Field} (hkinds : (fields.map statement).Nodup) (row : Combatant) :
    ∀ field ∈ fields, field.Stored (setAll now fields row) := by
  induction fields generalizing row with
  | nil => simp
  | cons first fields ih =>
      obtain ⟨hfirst, hrest⟩ := List.nodup_cons.mp hkinds
      intro field hfield
      rcases List.mem_cons.mp hfield with rfl | hfield
      · have hothers : ∀ other ∈ fields, field.statement ≠ other.statement := fun other hother heq =>
          hfirst (heq ▸ List.mem_map_of_mem hother)
        exact (stored_setAll_iff hothers).mpr (stored_set now row field)
      · exact ih hrest (first.set now row) field hfield

theorem setAll_updatedAt {now : Time} {fields : List Field} (h : fields ≠ []) (row : Combatant) :
    (setAll now fields row).updatedAt = now := by
  obtain ⟨fields, last, rfl⟩ := List.eq_nil_or_concat fields |>.resolve_left h
  unfold setAll
  rw [List.concat_eq_append, List.foldl_append, List.foldl_cons, List.foldl_nil, set_updatedAt]

/-- Whether what is written was there already, to the time of writing. -/
def Kept (now : Time) (fields : List Field) (row : Combatant) : Prop :=
  fields = [] ∨ (∀ field ∈ fields, field.Stored row) ∧ row.updatedAt = now

theorem setAll_eq_self_iff {now : Time} {fields : List Field} (hkinds : (fields.map statement).Nodup) {row : Combatant} :
    setAll now fields row = row ↔ Kept now fields row := by
  constructor
  · intro h
    rcases eq_or_ne fields [] with hnil | hne
    · exact .inl hnil
    · have hstored : ∀ field ∈ fields, field.Stored (setAll now fields row) := stored_setAll hkinds row
      have htime : (setAll now fields row).updatedAt = now := setAll_updatedAt hne row
      rw [h] at hstored htime
      exact .inr ⟨hstored, htime⟩
  · rintro (rfl | ⟨hstored, htime⟩)
    · rfl
    · clear hkinds
      induction fields with
      | nil => rfl
      | cons field fields ih =>
          have hset : field.set now row = row := set_eq_self.mpr ⟨hstored field List.mem_cons_self, htime⟩
          change setAll now fields (field.set now row) = row
          rw [hset]
          exact ih fun next hnext => hstored next (List.mem_cons_of_mem _ hnext)

end Field

theorem writeField_run (p : Platform) (combatantId : Uuid) (now : Time) (field : Field) (s : Tables) :
    p.writeField combatantId now field s =
      (field.refusal p).elim (.ok (), s.updateCombatant combatantId fun row => field.set now row)
        fun error => (.error error, s) := by
  unfold Platform.writeField Field.refusal
  by_cases hblank : field.Blank
  · have hrefused : (Autocommit.require (¬field.Blank) (CallError.message "Combatant needs a name") : Call Unit) s =
        (.error (.message "Combatant needs a name"), s) := by
      unfold Autocommit.require
      rw [if_neg (not_not.mpr hblank), Autocommit.fail_run]
    rw [Autocommit.bind_of_error hrefused, if_pos hblank, Option.elim_some]
  · rw [Autocommit.bind_of_ok (Autocommit.require_run hblank s), if_neg hblank]
    cases p.failure field.statement field.error <;> rfl

/-- The combatants after several fields of one of them are written. -/
def writtenTo (combatants : List Combatant) (combatantId : Uuid) (now : Time) (fields : List Field) : List Combatant :=
  combatants.map fun row => if row.id = combatantId then Field.setAll now fields row else row

theorem writtenTo_cons (combatants : List Combatant) (combatantId : Uuid) (now : Time) (field : Field)
    (fields : List Field) :
    writtenTo combatants combatantId now (field :: fields) =
      writtenTo (combatants.map fun row => if row.id = combatantId then field.set now row else row) combatantId now
        fields := by
  unfold writtenTo
  rw [List.map_map]
  refine List.map_congr_left fun row _ => ?_
  rw [Function.comp_apply]
  split_ifs with h h'
  · rfl
  · rw [Field.set_id] at h'
    exact absurd h h'
  · rfl

theorem writtenTo_nil (combatants : List Combatant) (combatantId : Uuid) (now : Time) :
    writtenTo combatants combatantId now [] = combatants := by
  unfold writtenTo Field.setAll
  simp

/-- What the fields come to: those before the first that is refused are written. -/
structure Wrote (p : Platform) (combatantId : Uuid) (now : Time) (fields : List Field) (s : Tables)
    (result : Except CallError Unit × Tables) : Prop where
  combatants : result.2.combatants =
    writtenTo s.combatants combatantId now (fields.takeWhile fun field => (field.refusal p).isNone)
  combats : result.2.combats = s.combats
  answers : result.1 = .ok () ↔ ∀ field ∈ fields, field.refusal p = none

theorem forEach_writeField (p : Platform) (combatantId : Uuid) (now : Time) (fields : List Field) (s : Tables) :
    Wrote p combatantId now fields s (Autocommit.forEach (p.writeField combatantId now) fields s) := by
  induction fields generalizing s with
  | nil => exact ⟨(writtenTo_nil ..).symm, rfl, by simp [Autocommit.forEach]⟩
  | cons field fields ih =>
      have hfield := writeField_run p combatantId now field s
      unfold Autocommit.forEach
      cases hrefusal : field.refusal p with
      | some error =>
          rw [hrefusal, Option.elim_some] at hfield
          rw [Autocommit.bind_of_error hfield]
          refine ⟨?_, rfl, ?_⟩
          · rw [List.takeWhile_cons, hrefusal]
            exact (writtenTo_nil ..).symm
          · simp [hrefusal]
      | none =>
          rw [hrefusal, Option.elim_none] at hfield
          rw [Autocommit.bind_of_ok hfield]
          obtain ⟨hcombatants, hcombats, hanswers⟩ := ih (s.updateCombatant combatantId fun row => field.set now row)
          refine ⟨?_, hcombats, ?_⟩
          · rw [List.takeWhile_cons, hrefusal, Option.isNone_none, if_pos rfl, writtenTo_cons]
            exact hcombatants
          · rw [hanswers, List.forall_mem_cons]
            exact (and_iff_right hrefusal).symm

/-- Whether what a change ends with fails once the combat's row is written. -/
def Unreported (p : Platform) (caller : Caller) (worldId : Uuid) : Prop :=
  p.fault .reload ≠ none ∨ p.fault .loadCombatants ≠ none ∨ p.fault .loadBudgets ≠ none ∨
    p.runsTheWorld caller.userId caller.isAdmin worldId = false ∧ p.fault .loadTokenNames ≠ none

theorem loadCombat_answers (p : Platform) (caller : Caller) (combat : CombatRow) (s : Tables) :
    (p.loadCombat caller combat).Answers s ↔
      p.fault .loadCombatants = none ∧ p.fault .loadBudgets = none ∧
        (p.runsTheWorld caller.userId caller.isAdmin combat.worldId = false → p.fault .loadTokenNames = none) := by
  unfold Platform.loadCombat
  rw [Autocommit.answers_ask_bind, Autocommit.answers_ask_bind, failure_eq_none_iff, failure_eq_none_iff]
  refine and_congr_right fun _ => and_congr_right fun _ => ?_
  cases hruns : p.runsTheWorld caller.userId caller.isAdmin combat.worldId with
  | true => exact iff_of_true (Autocommit.answers_done _ s) (by simp)
  | false =>
      rw [if_neg (by decide), Autocommit.answers_ask_bind, failure_eq_none_iff]
      exact (and_iff_left (Autocommit.answers_done _ s)).trans (imp_iff_right rfl).symm

theorem report_spec (p : Platform) (caller : Caller) {combat : CombatRow} {s : Tables}
    (hcombat : s.combat? combat.id = some combat) :
    ((p.report caller combat s).2.combatants = s.combatants) ∧
      ((p.report caller combat s).2.combats =
        if p.fault .touch = none then
          s.combats.map fun row => if row.id = combat.id then { row with updatedAt := p.now .touch } else row
        else s.combats) ∧
      ((p.report caller combat).Answers s ↔
        p.fault .touch = none ∧ ¬Unreported p caller combat.worldId) := by
  unfold Platform.report
  cases htouch : p.fault .touch with
  | some text =>
      have hfailed : p.touchAndBroadcast caller combat.id combat.worldId s =
          (.error (.message ("Failed to touch combat: " ++ text)), s) := by
        unfold Platform.touchAndBroadcast Platform.failure
        rw [htouch]
        rfl
      unfold Autocommit.Answers
      rw [Autocommit.bind_of_error hfailed]
      simp
  | none =>
      obtain ⟨touched, htouched, hcombatants, hcombats⟩ : ∃ touched,
          p.touchAndBroadcast caller combat.id combat.worldId s = (.ok (), touched) ∧
            touched.combatants = s.combatants ∧
            touched.combats = s.combats.map fun row =>
              if row.id = combat.id then { row with updatedAt := p.now .touch } else row := by
        unfold Platform.touchAndBroadcast
        rw [failure_eq_none_iff.mpr htouch, Autocommit.bind_of_ok (Autocommit.write_run _ s)]
        refine ⟨_, rfl, ?_, ?_⟩ <;> dsimp only <;> split_ifs <;> rfl
      have hfound : touched.combat? combat.id = some { combat with updatedAt := p.now .touch } := by
        have hsame : touched.combat? combat.id =
            (s.updateCombat combat.id fun row => { row with updatedAt := p.now .touch }).combat? combat.id :=
          congrArg (List.find? _) hcombats
        rw [hsame, Tables.combat?_updateCombat _ (by simp), hcombat, Option.map_some]
      have hanswers {α : Type} (rest : Call α) :
          (p.touchAndBroadcast caller combat.id combat.worldId >>= fun _ => rest).Answers s ↔ rest.Answers touched := by
        unfold Autocommit.Answers
        rw [Autocommit.bind_of_ok htouched]
      rw [hanswers, Autocommit.bind_of_ok htouched]
      have hread := (p.combatWorld_readOnly .reload combat.id).bind (fun combat => p.loadCombat_readOnly caller combat) touched
      refine ⟨?_, ?_, ?_⟩
      · rw [hread, hcombatants]
      · rw [hread, hcombats, if_pos rfl]
      · have hreload : (p.combatWorld .reload combat.id >>= fun combat => p.loadCombat caller combat).Answers touched ↔
            p.fault .reload = none ∧ (p.loadCombat caller { combat with updatedAt := p.now .touch }).Answers touched := by
          rw [Autocommit.answers_bind]
          constructor
          · rintro ⟨reloaded, _, hreload, hload⟩
            obtain ⟨hworks, hsome, rfl⟩ := combatWorld_eq_ok.mp hreload
            obtain rfl := Option.some_inj.mp (hsome.symm.trans hfound)
            exact ⟨hworks, hload⟩
          · rintro ⟨hworks, hload⟩
            exact ⟨_, touched, combatWorld_eq_ok.mpr ⟨hworks, hfound, rfl⟩, hload⟩
        rw [hreload, loadCombat_answers]
        unfold Unreported
        rw [eq_self_iff_true, true_and]
        tauto

/-! A change that is let through, from its beginning to its end. -/

/-- The fields that are written before one of them is refused. -/
def UpdateCombatantInput.written (input : UpdateCombatantInput) (p : Platform) : List Field :=
  input.fields.takeWhile fun field => (field.refusal p).isNone

/-- Whether the combat's row is written: no field is refused, and its statement does not fail. -/
def Touches (p : Platform) (input : UpdateCombatantInput) : Prop :=
  (∀ field ∈ input.fields, field.refusal p = none) ∧ p.fault .touch = none

/-- Whether the call is refused, once it is let through. -/
def Fails (p : Platform) (caller : Caller) (worldId : Uuid) (input : UpdateCombatantInput) : Prop :=
  ¬Touches p input ∨ Unreported p caller worldId

theorem updateCombatant_spec {p : Platform} {caller : Caller} {input : UpdateCombatantInput} {s : Tables}
    {combat : CombatRow} (h : LetThrough p caller s input.combatantId combat) :
    (updateCombatant p caller input s).2.combatants =
        writtenTo s.combatants input.combatantId (p.now .initiative) (input.written p) ∧
      (Touches p input → (updateCombatant p caller input s).2.combats =
        s.combats.map fun row => if row.id = combat.id then { row with updatedAt := p.now .touch } else row) ∧
      (¬Touches p input → (updateCombatant p caller input s).2.combats = s.combats) ∧
      ((updateCombatant p caller input).Answers s ↔ ¬Fails p caller combat.worldId input) := by
  have hfound : s.combat? combat.id = some combat := by
    obtain ⟨row, -, hcombat⟩ := h.rows
    have hid : combat.id = row.combatId := by simpa using List.find?_some hcombat
    rw [hid, hcombat]
  have hchangeable : p.changeable caller input.combatantId s = (.ok combat, s) := changeable_eq_ok.mpr ⟨h, rfl⟩
  obtain ⟨hcombatants, hcombats, hanswers⟩ :=
    forEach_writeField p input.combatantId (p.now .initiative) input.fields s
  rw [updateCombatant_eq]
  unfold Autocommit.Answers
  rw [Autocommit.bind_of_ok hchangeable]
  cases hloop : Autocommit.forEach (p.writeField input.combatantId (p.now .initiative)) input.fields s with
  | mk answer wrote =>
      rw [hloop] at hcombatants hcombats hanswers
      cases answer with
      | error error =>
          have hrefused : ¬∀ field ∈ input.fields, field.refusal p = none := fun hall => nomatch hanswers.mpr hall
          have hnot : ¬Touches p input := fun htouches => hrefused htouches.1
          rw [Autocommit.bind_of_error hloop]
          refine ⟨hcombatants, fun htouches => absurd htouches hnot, fun _ => hcombats, ?_⟩
          exact iff_of_false (by simp) (not_not.mpr (.inl hnot))
      | ok _ =>
          have hall := hanswers.mp rfl
          have hwrote : wrote.combat? combat.id = some combat := by
            unfold Tables.combat? at hfound ⊢
            rw [hcombats, hfound]
          obtain ⟨hsame, htouched, hreported⟩ := report_spec p caller hwrote
          have htouches : Touches p input ↔ p.fault .touch = none := and_iff_right hall
          unfold Autocommit.Answers at hreported
          rw [Autocommit.bind_of_ok hloop, hsame, htouched, hreported, htouches]
          refine ⟨hcombatants, fun htouch => ?_, fun htouch => ?_, ?_⟩
          · rw [if_pos htouch, hcombats]
          · rw [if_neg htouch, hcombats]
          · unfold Fails
            rw [htouches]
            tauto

/-- The fields that are given are changed, a name to what is left of it without blanks around it, and no other is. The
times of change and the reason a combatant is down go with what they are about. -/
structure ChangesExactly (input : UpdateCombatantInput) (s s' : Tables) : Prop where
  combatants : s.combatants.Forall₂ (fun row row' =>
    row' = if row.id = input.combatantId then
      { row with
        initiative := input.initiative.getD row.initiative
        tiebreak := input.tiebreak.getD row.tiebreak
        active := input.active.getD row.active
        downedBy := input.active.elim row.downedBy fun active => if active then none else some downedByGameMaster
        label := (input.label.map trim).getD row.label
        updatedAt := row'.updatedAt }
    else row) s'.combatants
  combats : s.combats.Forall₂ (fun row row' => row' = { row with updatedAt := row'.updatedAt }) s'.combats

/-- A refused change leaves every combatant and every combat as it was, and one that is made changes what is given. -/
structure AllOrNothing (p : Platform) (caller : Caller) (input : UpdateCombatantInput) (s : Tables) : Prop where
  refused : ∀ {error s'}, updateCombatant p caller input s = (.error error, s') →
    s'.combatants = s.combatants ∧ s'.combats = s.combats
  made : ∀ {answer s'}, updateCombatant p caller input s = (.ok answer, s') → ChangesExactly input s s'

/-- When it is refused after it is let through, what was written until then was there already, to the time of writing:
as when nothing was written. -/
def NothingLost (p : Platform) (caller : Caller) (input : UpdateCombatantInput) (s : Tables) : Prop :=
  ∀ combat, LetThrough p caller s input.combatantId combat → Fails p caller combat.worldId input →
    (∀ row ∈ s.combatants, row.id = input.combatantId → Field.Kept (p.now .initiative) (input.written p) row) ∧
      (Touches p input → ∀ row ∈ s.combats, row.id = combat.id → row.updatedAt = p.now .touch)

theorem UpdateCombatantInput.nodup_statements (input : UpdateCombatantInput) : (input.fields.map Field.statement).Nodup := by
  obtain ⟨id, initiative, tiebreak, active, label⟩ := input
  cases initiative <;> cases tiebreak <;> cases active <;> cases label <;>
    simp [UpdateCombatantInput.fields, Field.statement]

theorem writtenTo_eq_self_iff {combatants : List Combatant} {combatantId : Uuid} {now : Time} {fields : List Field}
    (hkinds : (fields.map Field.statement).Nodup) : writtenTo combatants combatantId now fields = combatants ↔
      ∀ row ∈ combatants, row.id = combatantId → Field.Kept now fields row := by
  have hrows : writtenTo combatants combatantId now fields = combatants ↔
      ∀ row ∈ combatants, (if row.id = combatantId then Field.setAll now fields row else row) = id row := by
    rw [← List.map_inj_left, List.map_id]
    rfl
  rw [hrows]
  refine forall₂_congr fun row _ => ?_
  split_ifs with hid
  · rw [id_eq, Field.setAll_eq_self_iff hkinds]
    exact (imp_iff_right hid).symm
  · exact iff_of_true rfl fun h => absurd h hid

theorem setAll_fields (now : Time) (input : UpdateCombatantInput) (row : Combatant) :
    Field.setAll now input.fields row =
      { row with
        initiative := input.initiative.getD row.initiative
        tiebreak := input.tiebreak.getD row.tiebreak
        active := input.active.getD row.active
        downedBy := input.active.elim row.downedBy fun active => if active then none else some downedByGameMaster
        label := (input.label.map trim).getD row.label
        updatedAt := (Field.setAll now input.fields row).updatedAt } := by
  obtain ⟨id, initiative, tiebreak, active, label⟩ := input
  cases initiative <;> cases tiebreak <;> cases active <;> cases label <;> rfl

theorem changesExactly_of_done {p : Platform} {caller : Caller} {input : UpdateCombatantInput} {s s' : Tables}
    {answer : GraphQLCombat} (h : updateCombatant p caller input s = (.ok answer, s')) : ChangesExactly input s s' := by
  obtain ⟨combat, s₁, hchangeable, -⟩ := Autocommit.bind_eq_ok.mp ((updateCombatant_eq p caller input) ▸ h)
  obtain ⟨hthrough, -⟩ := changeable_eq_ok.mp hchangeable
  obtain ⟨hcombatants, htouched, -, hanswers⟩ := updateCombatant_spec hthrough
  have hdone := hanswers.mp ⟨answer, s', h⟩
  have htouches : Touches p input := by
    by_contra hnot
    exact hdone (.inl hnot)
  have hwritten : input.written p = input.fields :=
    List.takeWhile_eq_self_iff.mpr fun field hfield => by rw [htouches.1 field hfield, Option.isNone_none]
  have hcombats := htouched htouches
  rw [h] at hcombatants hcombats
  rw [hwritten] at hcombatants
  refine ⟨?_, ?_⟩
  · rw [hcombatants, writtenTo, List.forall₂_map_right_iff, List.forall₂_same]
    intro row _
    split_ifs
    · exact setAll_fields _ input row
    · rfl
  · rw [hcombats, List.forall₂_map_right_iff, List.forall₂_same]
    intro row _
    split_ifs <;> rfl

/-- A change to a combatant that is refused leaves something written unless what it wrote was there, or it is refused
before it writes: a blank name must be the only field, and nothing fail after the first field. -/
theorem updateCombatant_allOrNothing_iff (p : Platform) (caller : Caller) (input : UpdateCombatantInput) (s : Tables) :
    AllOrNothing p caller input s ↔ NothingLost p caller input s := by
  have hkinds : ((input.written p).map Field.statement).Nodup :=
    input.nodup_statements.sublist ((List.takeWhile_sublist _).map _)
  constructor
  · intro h combat hthrough hfails
    obtain ⟨hcombatants, htouched, -, hanswers⟩ := updateCombatant_spec hthrough
    have hrefused : ∃ error, (updateCombatant p caller input s).1 = .error error := by
      cases hrun : updateCombatant p caller input s with
      | mk answer s' =>
          cases answer with
          | error error => exact ⟨error, rfl⟩
          | ok answer => exact absurd hfails (hanswers.mp ⟨answer, s', hrun⟩)
    obtain ⟨error, herror⟩ := hrefused
    obtain ⟨hsame, hsamecombats⟩ := h.refused (Prod.ext herror rfl)
    refine ⟨?_, fun htouches row hrow hid => ?_⟩
    · rw [hcombatants] at hsame
      exact (writtenTo_eq_self_iff hkinds).mp hsame
    · rw [htouched htouches] at hsamecombats
      have hrows : ∀ row ∈ s.combats,
          (if row.id = combat.id then { row with updatedAt := p.now .touch } else row) = id row := by
        rw [← List.map_inj_left, List.map_id]
        exact hsamecombats
      have hkept := hrows row hrow
      rw [if_pos hid] at hkept
      exact (congrArg CombatRow.updatedAt hkept).symm
  · intro h
    refine ⟨fun {error s'} hrun => ?_, fun hrun => changesExactly_of_done hrun⟩
    cases hchangeable : (p.changeable caller input.combatantId s).1 with
    | error refusal =>
        have hstate := changeable_readOnly p caller input.combatantId s
        have hrun' : updateCombatant p caller input s = (.error refusal, (p.changeable caller input.combatantId s).2) := by
          rw [updateCombatant_eq]
          exact Autocommit.bind_of_error (Prod.ext hchangeable rfl)
        obtain ⟨-, rfl⟩ := Prod.mk.inj (hrun.symm.trans hrun')
        rw [hstate]
        exact ⟨rfl, rfl⟩
    | ok combat =>
        obtain ⟨hthrough, -⟩ := changeable_eq_ok.mp (Prod.ext hchangeable rfl)
        obtain ⟨hcombatants, htouched, huntouched, hanswers⟩ := updateCombatant_spec hthrough
        have hfails : Fails p caller combat.worldId input := by
          by_contra hnot
          obtain ⟨answer, s'', hdone⟩ := hanswers.mpr hnot
          exact nomatch (Prod.mk.inj (hrun.symm.trans hdone)).1
        obtain ⟨hkept, htime⟩ := h combat hthrough hfails
        rw [hrun] at hcombatants htouched huntouched
        refine ⟨hcombatants.trans ((writtenTo_eq_self_iff hkinds).mpr hkept), ?_⟩
        by_cases htouches : Touches p input
        · rw [htouched htouches]
          refine (List.map_congr_left fun row hrow => ?_).trans (List.map_id _)
          split_ifs with hid
          · rw [id_eq, ← htime htouches row hrow hid]
          · rfl
        · exact huntouched htouches

/-- The initiative is written, and then the call is refused for the name. -/
theorem blank_label_keeps_initiative :
    ¬AllOrNothing plainPlatform gameMaster ⟨3, some 15, none, none, some "  "⟩ (duel 3) := by
  intro h
  obtain ⟨hsame, -⟩ := @h.refused (.message "Combatant needs a name") _ (Prod.ext (by rfl) rfl)
  revert hsame
  decide +kernel

end ThunderForge.Combat
