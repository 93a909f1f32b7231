import Mathlib
import ThunderForge.Basic
import ThunderForge.Lib.Expiry
import ThunderForge.Lib.Run
import ThunderForge.Lib.SortBy

/-! Who is at the table right now (`thunderforge-presence`). Expiry happens when somebody asks and in sweeps; who
asks, and when, changes no answer. Times are in nanoseconds. -/

namespace ThunderForge.Attendance

open Expiry

/-- How long silence lasts before a client is shown as disconnected. -/
def presenceTimeout : Nat := 15 * 10 ^ 9

/-- How long a departed client stays listed before being forgotten. -/
def forgetAfter : Nat := 5 * 60 * 10 ^ 9

/-- One participant, as the registry holds them. -/
structure Beat where
  sceneId : Option Uuid
  lastSeen : Nat
  deriving DecidableEq

/-- One participant, as everyone else sees them. -/
structure Presence where
  userId : Uuid
  sceneId : Option Uuid
  sinceSeen : Nat
  connected : Bool
  deriving DecidableEq

abbrev People := AList fun _ : Uuid => Beat

/-- Who is present, per world. -/
abbrev Registry := AList fun _ : Uuid => People

/-- A beat that is not forgotten yet; a beat later than now counts as no time ago. -/
def remembered (now : Nat) (beat : Beat) : Bool := now - beat.lastSeen < forgetAfter

def presenceOf (now : Nat) (userId : Uuid) (beat : Beat) : Presence where
  userId
  sceneId := beat.sceneId
  sinceSeen := now - beat.lastSeen
  connected := now - beat.lastSeen ≤ presenceTimeout

namespace Registry

variable (registry : Registry)

/-- Record that somebody is still present. -/
def beat (worldId userId : Uuid) (sceneId : Option Uuid) (now : Nat) : Registry :=
  AList.insert worldId (AList.insert userId ⟨sceneId, now⟩ ((registry.lookup worldId).getD ∅)) registry

/-- Everyone currently listed for a world, connected or recently gone. -/
def inWorld (worldId : Uuid) (now : Nat) : List Presence × Registry :=
  match registry.lookup worldId with
  | none => ([], registry)
  | some entry =>
    let entry := retain (remembered now) entry
    let people := entry.entries.map fun person => presenceOf now person.1 person.2
    (SortBy.sortBy (fun person : Presence => person.userId.toNat) people,
      AList.insert worldId entry registry)

/-- Forget one participant immediately. -/
def forget (worldId userId : Uuid) : Registry :=
  match registry.lookup worldId with
  | none => registry
  | some entry => AList.insert worldId (entry.erase userId) registry

/-- Drop people, and worlds nobody is left in. -/
def sweep (now : Nat) : Nat × Registry :=
  let swept : Registry := mapValues (retain (remembered now)) registry
  let kept : Registry := retain (fun people => !people.entries.isEmpty) swept
  (swept.entries.length - kept.entries.length, kept)

def worldsTracked : Nat := registry.entries.length

/-- The people of a world, if it is held. -/
def people (worldId : Uuid) : People := (registry.lookup worldId).getD ∅

@[simp] theorem people_empty (worldId : Uuid) : people ∅ worldId = ∅ := by
  simp [people]

theorem people_beat (worldId userId : Uuid) (sceneId : Option Uuid) (now : Nat) :
    (registry.beat worldId userId sceneId now).people =
      Function.update registry.people worldId ((registry.people worldId).insert userId ⟨sceneId, now⟩) := by
  funext other
  by_cases hworld : other = worldId
  · subst hworld
    simp [people, beat]
  · simp [people, beat, AList.lookup_insert_ne hworld, hworld]

theorem people_inWorld (worldId : Uuid) (now : Nat) :
    (registry.inWorld worldId now).2.people =
      Function.update registry.people worldId (retain (remembered now) (registry.people worldId)) := by
  funext other
  unfold inWorld
  by_cases hworld : other = worldId
  · subst hworld
    cases hentry : registry.lookup other <;> simp [people, hentry]
  · cases hentry : registry.lookup worldId <;> simp [people, AList.lookup_insert_ne hworld, hworld]

theorem people_forget (worldId userId : Uuid) :
    (registry.forget worldId userId).people =
      Function.update registry.people worldId ((registry.people worldId).erase userId) := by
  funext other
  unfold forget
  by_cases hworld : other = worldId
  · subst hworld
    cases hentry : registry.lookup other with
    | none =>
        simp only [people, hentry, Option.getD_none, Function.update_self]
        rfl
    | some entry => simp [people, hentry]
  · cases hentry : registry.lookup worldId <;> simp [people, AList.lookup_insert_ne hworld, hworld]

theorem people_sweep (now : Nat) :
    (registry.sweep now).2.people = fun worldId => retain (remembered now) (registry.people worldId) := by
  funext worldId
  simp only [people, sweep, lookup_retain, lookup_mapValues]
  cases registry.lookup worldId with
  | none => rfl
  | some entry =>
      simp only [Option.map_some, Option.filter_some, Option.getD_some]
      split_ifs with hleft
      · rfl
      · exact (AList.ext (by simpa using hleft)).symm

end Registry

/-- What is done to the registry. -/
inductive Act where
  | beat (worldId userId : Uuid) (sceneId : Option Uuid) (now : Nat)
  | inWorld (worldId : Uuid) (now : Nat)
  | forget (worldId userId : Uuid)
  | sweep (now : Nat)

def Registry.step (registry : Registry) : Act → Registry
  | .beat worldId userId sceneId now => registry.beat worldId userId sceneId now
  | .inWorld worldId now => (registry.inWorld worldId now).2
  | .forget worldId userId => registry.forget worldId userId
  | .sweep now => (registry.sweep now).2

/-- The time by which an act takes beats for stale. -/
def Act.look : Act → Option Nat
  | inWorld _ now | sweep now => some now
  | beat _ _ _ _ | forget _ _ => none

/-- What was last heard of everyone, with nothing ever dropped. -/
def hear (heard : Uuid → Uuid → Option Beat) : Act → Uuid → Uuid → Option Beat
  | .beat worldId userId sceneId now =>
    Function.update heard worldId (Function.update (heard worldId) userId (some ⟨sceneId, now⟩))
  | .forget worldId userId => Function.update heard worldId (Function.update (heard worldId) userId none)
  | .inWorld _ _ | .sweep _ => heard

def heardAfter (acts : List Act) : Uuid → Uuid → Option Beat := Run.run hear (fun _ _ => none) acts

def registryAfter (acts : List Act) : Registry := Run.run Registry.step ∅ acts

/-- Nothing has been taken for stale by a later time. -/
def LookedBy (now : Nat) (acts : List Act) : Prop := ∀ act ∈ acts, ∀ look, act.look = some look → look ≤ now

section

variable {registry : Registry} {heard : Uuid → Uuid → Option Beat} {now : Nat} {acts : List Act}

theorem remembered_of_le {look : Nat} (hlook : look ≤ now) (beat : Beat) (h : remembered now beat = true) :
    remembered look beat = true := by
  simp only [remembered, decide_eq_true_eq] at h ⊢
  omega

theorem shows_update {worldId : Uuid} {entry : People} {plain : Uuid → Option Beat}
    (h : ∀ worldId, Shows (remembered now) (registry.people worldId) (heard worldId))
    (hentry : Shows (remembered now) entry plain) (other : Uuid) :
    Shows (remembered now) (Function.update registry.people worldId entry other)
      (Function.update heard worldId plain other) := by
  by_cases hworld : other = worldId
  · subst hworld
    simpa using hentry
  · simpa [hworld] using h other

/-- An act keeps what is still to be remembered by a later time. -/
theorem shows_step (h : ∀ worldId, Shows (remembered now) (registry.people worldId) (heard worldId)) (act : Act)
    (hlook : ∀ look, act.look = some look → look ≤ now) (worldId : Uuid) :
    Shows (remembered now) ((registry.step act).people worldId) (hear heard act worldId) := by
  cases act with
  | beat world userId sceneId time =>
      rw [Registry.step, Registry.people_beat, hear]
      exact shows_update h ((h world).insert userId _) worldId
  | inWorld world time =>
      rw [Registry.step, Registry.people_inWorld, hear, ← Function.update_eq_self world heard]
      exact shows_update h ((h world).retain (remembered_of_le (hlook time rfl))) worldId
  | forget world userId =>
      rw [Registry.step, Registry.people_forget, hear]
      exact shows_update h ((h world).erase userId) worldId
  | sweep time =>
      rw [Registry.step, Registry.people_sweep, hear]
      exact (h worldId).retain (remembered_of_le (hlook time rfl))

theorem shows_run (hlooks : LookedBy now acts) (worldId : Uuid) :
    Shows (remembered now) ((registryAfter acts).people worldId) (heardAfter acts worldId) := by
  induction acts using List.reverseRecOn generalizing worldId with
  | nil =>
      rw [registryAfter, Run.run_nil, Registry.people_empty]
      exact Shows.empty
  | append_singleton acts act ih =>
      rw [registryAfter, heardAfter, Run.run_concat, Run.run_concat]
      refine shows_step (ih fun act' hact' => hlooks act' (List.mem_append_left _ hact')) act ?_ worldId
      exact hlooks act (List.mem_append_right _ List.mem_cons_self)

/-- Who is listed, when everything heard is. -/
theorem inWorld_people (registry : Registry) (worldId : Uuid) (now : Nat) :
    (registry.inWorld worldId now).1 = SortBy.sortBy (fun person : Presence => person.userId.toNat)
      ((retain (remembered now) (registry.people worldId)).entries.map fun person =>
        presenceOf now person.1 person.2) := by
  unfold Registry.inWorld Registry.people
  cases registry.lookup worldId <;> rfl

/-- Whoever asks sees, in one order, those and only those that were heard of within the time of forgetting, as they
were last heard of, unless they left since: what others asked before, and every sweep, makes no difference. -/
theorem listed_iff (hlooks : LookedBy now acts) (worldId : Uuid) :
    (∀ person, person ∈ ((registryAfter acts).inWorld worldId now).1 ↔
      ∃ beat, heardAfter acts worldId person.userId = some beat ∧ now - beat.lastSeen < forgetAfter ∧
        person = presenceOf now person.userId beat) ∧
      ((registryAfter acts).inWorld worldId now).1.Pairwise fun a b => a.userId.toNat < b.userId.toNat := by
  have hshows := shows_run hlooks worldId
  have hkept (userId : Uuid) (beat : Beat) :
      ⟨userId, beat⟩ ∈ (retain (remembered now) ((registryAfter acts).people worldId)).entries ↔
        heardAfter acts worldId userId = some beat ∧ now - beat.lastSeen < forgetAfter := by
    rw [← lookup_eq_some, lookup_retain, hshows userId, Option.filter_eq_some_iff, remembered, decide_eq_true_eq]
  rw [inWorld_people]
  constructor
  · intro person
    rw [SortBy.mem_sortBy, List.mem_map]
    constructor
    · rintro ⟨⟨userId, beat⟩, hmem, rfl⟩
      exact ⟨beat, ((hkept userId beat).mp hmem).1, ((hkept userId beat).mp hmem).2, rfl⟩
    · rintro ⟨beat, hheard, hrecent, hperson⟩
      exact ⟨⟨person.userId, beat⟩, (hkept _ beat).mpr ⟨hheard, hrecent⟩, hperson.symm⟩
  · have hkeys := (retain (remembered now) ((registryAfter acts).people worldId)).keys_nodup.map
      fun _ _ heq => BitVec.eq_of_toNat_eq heq
    rw [AList.keys, List.keys, List.map_map] at hkeys
    refine SortBy.pairwise_lt_sortBy _ ?_
    rw [List.map_map]
    exact hkeys

/-- Of two people one has fallen silent; somebody has asked since, and there was a sweep. -/
def fellSilent : List Act :=
  [.beat 1 2 none 0, .beat 1 3 (some 4) (280 * 10 ^ 9), .inWorld 1 (290 * 10 ^ 9), .sweep (299 * 10 ^ 9)]

theorem lookedBy_fellSilent : LookedBy (300 * 10 ^ 9) fellSilent := by
  simp [LookedBy, fellSilent, Act.look]

theorem listed_fellSilent : ⟨3, some 4, 20 * 10 ^ 9, false⟩ ∈
    ((registryAfter fellSilent).inWorld 1 (300 * 10 ^ 9)).1 :=
  ((listed_iff lookedBy_fellSilent 1).1 _).mpr ⟨⟨some 4, 280 * 10 ^ 9⟩, rfl, by decide, rfl⟩

/-- After a sweep the worlds held are those in which somebody was heard of within the time of forgetting and has not
left, and it tells how many others there were. -/
theorem swept_iff (hlooks : LookedBy now acts) :
    (∀ worldId, worldId ∈ ((registryAfter acts).sweep now).2 ↔
      ∃ userId beat, heardAfter acts worldId userId = some beat ∧ now - beat.lastSeen < forgetAfter) ∧
      ((registryAfter acts).sweep now).1 + ((registryAfter acts).sweep now).2.worldsTracked =
        (registryAfter acts).worldsTracked := by
  have hshows := shows_run hlooks
  constructor
  · intro worldId
    have hheld : worldId ∈ ((registryAfter acts).sweep now).2 ↔
        ∃ userId, ((retain (remembered now) ((registryAfter acts).people worldId)).lookup userId).isSome := by
      rw [← AList.lookup_isSome, Registry.sweep, lookup_retain, lookup_mapValues, Registry.people]
      cases (registryAfter acts).lookup worldId with
      | none => simp
      | some entry =>
          cases hleft : (retain (remembered now) entry).entries with
          | nil =>
              have hempty : retain (remembered now) entry = ∅ := AList.ext hleft
              simp [hempty]
          | cons first rest =>
              have hfirst : first ∈ (retain (remembered now) entry).entries := hleft ▸ List.mem_cons_self
              refine iff_of_true (by simp [hleft]) ⟨first.1, ?_⟩
              rw [Option.getD_some, lookup_eq_some.mpr hfirst]
              rfl
    rw [hheld]
    refine exists_congr fun userId => ?_
    rw [lookup_retain, hshows worldId userId, Option.isSome_iff_exists]
    refine exists_congr fun beat => ?_
    rw [Option.filter_eq_some_iff, remembered, decide_eq_true_eq]
  · have hle : ((registryAfter acts).sweep now).2.worldsTracked ≤ (registryAfter acts).worldsTracked := by
      calc ((registryAfter acts).sweep now).2.worldsTracked
        _ ≤ (mapValues (retain (remembered now)) (registryAfter acts)).entries.length := List.length_filter_le _ _
        _ = (registryAfter acts).worldsTracked := List.length_map _
    have hlength : (mapValues (retain (remembered now)) (registryAfter acts)).entries.length =
        (registryAfter acts).worldsTracked := List.length_map _
    simp only [Registry.sweep, Registry.worldsTracked] at hle hlength ⊢
    omega

theorem swept_fellSilent : 1 ∈ ((registryAfter fellSilent).sweep (300 * 10 ^ 9)).2 :=
  ((swept_iff lookedBy_fellSilent).1 1).mpr ⟨3, ⟨some 4, 280 * 10 ^ 9⟩, rfl, by decide⟩

end

end ThunderForge.Attendance
