import ThunderForge.Cache.Delta
import ThunderForge.Lib.LeastPrefix
import ThunderForge.Lib.SortBy

/-! The budget (`cache-core/src/budget.rs`): what goes when what is held and what comes do not fit, and
whether there is room for what nobody has asked for yet. -/

namespace ThunderForge.Cache

/-- One thing held locally. -/
structure IndexEntry where
  id : ItemId
  worldId : Uuid
  byteSize : UInt64
  lastReadSeq : UInt64

structure BudgetPlan where
  limitBytes : UInt64
  inUseBytes : UInt64
  evict : List ItemId
  insufficient : Bool
  deriving DecidableEq

/-- What a sum of two `u64` that is out of range does: it panics or wraps, by the build. -/
inductive Arithmetic where
  | checked
  | wrapping
  deriving DecidableEq

/-- `u64::add` -/
def Arithmetic.add (arithmetic : Arithmetic) (left right : UInt64) : Option UInt64 :=
  if arithmetic = checked ∧ 2 ^ 64 ≤ left.toNat + right.toNat then none else some (left + right)

/-- `u64::checked_add` -/
def checkedAdd (left right : UInt64) : Option UInt64 := Arithmetic.checked.add left right

/-- A world, what its items take, and when the last of them was read. -/
structure WorldUse where
  worldId : Uuid
  size : UInt64
  recency : UInt64

/-- One entry is counted to its world. -/
def countEntry (arithmetic : Arithmetic) (entry : IndexEntry) : List WorldUse → Option (List WorldUse)
  | [] => some [{ worldId := entry.worldId, size := entry.byteSize, recency := entry.lastReadSeq }]
  | world :: worlds =>
    if world.worldId = entry.worldId then do
      let size ← arithmetic.add world.size entry.byteSize
      some ({ world with size, recency := max world.recency entry.lastReadSeq } :: worlds)
    else do
      let worlds ← countEntry arithmetic entry worlds
      some (world :: worlds)

/-- The worlds other than the open one. -/
def otherWorlds (arithmetic : Arithmetic) (index : List IndexEntry) (openWorld : Uuid) :
    Option (List WorldUse) :=
  index.foldlM (fun worlds entry =>
    if entry.worldId = openWorld then some worlds else countEntry arithmetic entry worlds) []

/-- Least recently read first; a tie is broken by the world's id. -/
def WorldUse.key (world : WorldUse) : ℕ ×ₗ ℕ := toLex (world.recency.toNat, world.worldId.toNat)

/-- The items of one world. -/
def itemsOf (index : List IndexEntry) (worldId : Uuid) : List ItemId :=
  SortBy.sortBy id ((index.filter fun entry => entry.worldId = worldId).map (·.id))

/-- Whole worlds go until enough is freed; with what is then still to free. -/
def releaseWorlds (index : List IndexEntry) (toFree : UInt64) : List WorldUse → List ItemId × UInt64
  | [] => ([], toFree)
  | world :: worlds =>
    if toFree = 0 then ([], toFree)
    else
      let (evict, left) := releaseWorlds index (saturatingSub toFree world.size) worlds
      (itemsOf index world.worldId ++ evict, left)

/-- `.sum()` of the sizes. -/
def sumBytes (arithmetic : Arithmetic) (index : List IndexEntry) : Option UInt64 :=
  index.foldlM (fun sum entry => arithmetic.add sum entry.byteSize) 0

/-- What goes so that `incoming` bytes fit within `limit`; none is a panic. -/
def planEviction (arithmetic : Arithmetic) (index : List IndexEntry) (limit incoming : UInt64) (openWorld : Uuid) :
    Option BudgetPlan := do
  let inUse ← sumBytes arithmetic index
  let total ← arithmetic.add inUse incoming
  if total ≤ limit then
    some { limitBytes := limit, inUseBytes := inUse, evict := [], insufficient := false }
  else
    let worlds ← otherWorlds arithmetic index openWorld
    let (evict, left) := releaseWorlds index (saturatingSub total limit) (SortBy.sortBy WorldUse.key worlds)
    some { limitBytes := limit, inUseBytes := inUse, evict, insufficient := decide (0 < left) }

inductive Speculation where
  | admitted
  | stop
  deriving DecidableEq

/-- May `incoming` speculative bytes be stored? -/
def admitSpeculative (inUse limit incoming : UInt64) : Speculation :=
  match checkedAdd inUse incoming with
  | some total => if total ≤ limit then .admitted else .stop
  | none => .stop

/-! Sums of `u64`. -/

/-- What some entries take. -/
def bytes (index : List IndexEntry) : Nat := (index.map (·.byteSize.toNat)).sum

@[simp] theorem bytes_nil : bytes [] = 0 := rfl

@[simp] theorem bytes_cons (entry : IndexEntry) (index : List IndexEntry) :
    bytes (entry :: index) = entry.byteSize.toNat + bytes index := rfl

@[simp] theorem bytes_append (left right : List IndexEntry) : bytes (left ++ right) = bytes left + bytes right := by
  rw [bytes, List.map_append, List.sum_append, bytes, bytes]

namespace Arithmetic

variable {arithmetic : Arithmetic} {left right : UInt64}

theorem add_of_lt (h : left.toNat + right.toNat < 2 ^ 64) : arithmetic.add left right = some (left + right) :=
  if_neg fun hover => absurd h (Nat.not_lt.mpr hover.2)

theorem eq_of_add {sum : UInt64} (h : arithmetic.add left right = some sum) : sum = left + right := by
  unfold add at h
  split_ifs at h
  exact (Option.some.inj h).symm

end Arithmetic

/-- The sum of some sizes, added to one there is: past the range it panics or wraps. -/
theorem sumBytes_from (arithmetic : Arithmetic) (index : List IndexEntry) (sum : UInt64) :
    index.foldlM (fun sum entry => arithmetic.add sum entry.byteSize) sum =
      if arithmetic = .checked ∧ 2 ^ 64 ≤ sum.toNat + bytes index then none
      else some (sum + UInt64.ofNat (bytes index)) := by
  induction index generalizing sum with
  | nil =>
      have hlt := sum.toNat_lt
      rw [if_neg (by simp only [bytes_nil]; omega)]
      simp
  | cons entry index ih =>
      rw [List.foldlM_cons]
      by_cases hover : arithmetic = .checked ∧ 2 ^ 64 ≤ sum.toNat + entry.byteSize.toNat
      · rw [Arithmetic.add, if_pos hover, if_pos ⟨hover.1, by rw [bytes_cons]; omega⟩]
        rfl
      · have hnext : sum + entry.byteSize + UInt64.ofNat (bytes index) =
            sum + UInt64.ofNat (bytes (entry :: index)) := by
          rw [bytes_cons, UInt64.ofNat_add, UInt64.ofNat_toNat, UInt64.add_assoc]
        have hcond : (arithmetic = .checked ∧ 2 ^ 64 ≤ (sum + entry.byteSize).toNat + bytes index) ↔
            arithmetic = .checked ∧ 2 ^ 64 ≤ sum.toNat + bytes (entry :: index) := by
          refine and_congr_right fun hchecked => ?_
          have hlt : sum.toNat + entry.byteSize.toNat < 2 ^ 64 := by
            by_contra hge
            exact hover ⟨hchecked, Nat.not_lt.mp hge⟩
          rw [UInt64.toNat_add, Nat.mod_eq_of_lt hlt, bytes_cons]
          omega
        rw [Arithmetic.add, if_neg hover, ← hnext]
        show (index.foldlM _ (sum + entry.byteSize)) = _
        rw [ih, if_congr hcond rfl rfl]

theorem sumBytes_eq (arithmetic : Arithmetic) (index : List IndexEntry) :
    sumBytes arithmetic index =
      if arithmetic = .checked ∧ 2 ^ 64 ≤ bytes index then none else some (UInt64.ofNat (bytes index)) := by
  rw [sumBytes, sumBytes_from]
  simp

/-! The worlds and what they take. -/

/-- What the items of one world take. -/
def bytesOf (index : List IndexEntry) (worldId : Uuid) : Nat := bytes (index.filter fun entry => entry.worldId = worldId)

/-- The most recent read of any item of one world. -/
def recencyOf (index : List IndexEntry) (worldId : Uuid) : Nat :=
  ((index.filter fun entry => entry.worldId = worldId).map (·.lastReadSeq.toNat)).foldl max 0

theorem bytesOf_concat (index : List IndexEntry) (entry : IndexEntry) (worldId : Uuid) :
    bytesOf (index ++ [entry]) worldId =
      bytesOf index worldId + if entry.worldId = worldId then entry.byteSize.toNat else 0 := by
  unfold bytesOf
  by_cases h : entry.worldId = worldId <;> simp [h]

theorem recencyOf_concat (index : List IndexEntry) (entry : IndexEntry) (worldId : Uuid) :
    recencyOf (index ++ [entry]) worldId =
      if entry.worldId = worldId then max (recencyOf index worldId) entry.lastReadSeq.toNat
      else recencyOf index worldId := by
  unfold recencyOf
  by_cases h : entry.worldId = worldId <;> simp [h]

/-- Fewer entries take less. -/
theorem bytes_filter_le {p q : IndexEntry → Bool} {index : List IndexEntry} (h : ∀ entry ∈ index, p entry → q entry) :
    bytes (index.filter p) ≤ bytes (index.filter q) := by
  induction index with
  | nil => exact le_refl _
  | cons entry index ih =>
      obtain ⟨hentry, hindex⟩ := List.forall_mem_cons.mp h
      have hrest := ih hindex
      rw [List.filter_cons, List.filter_cons]
      split_ifs with hp hq
      · exact Nat.add_le_add_left hrest _
      · exact absurd (hentry hp) hq
      · exact hrest.trans (Nat.le_add_left _ _)
      · exact hrest

theorem bytesOf_le (index : List IndexEntry) (worldId : Uuid) : bytesOf index worldId ≤ bytes index := by
  have hall : (index.filter fun _ => true) = index := List.filter_true index
  calc bytesOf index worldId ≤ bytes (index.filter fun _ => true) := bytes_filter_le fun _ _ _ => rfl
    _ = bytes index := by rw [hall]

/-- The worlds other than the open one that some entries are of, each with what its entries say of it. -/
structure Tally (openWorld : Uuid) (seen : List IndexEntry) (worlds : List WorldUse) : Prop where
  nodup : (worlds.map (·.worldId)).Nodup
  mem_iff : ∀ worldId, worldId ∈ worlds.map (·.worldId) ↔ worldId ≠ openWorld ∧ worldId ∈ seen.map (·.worldId)
  size : ∀ world ∈ worlds, world.size = UInt64.ofNat (bytesOf seen world.worldId)
  recency : ∀ world ∈ worlds, world.recency.toNat = recencyOf seen world.worldId

/-- An entry is counted to the world there is of it, or to a new one at the end. -/
theorem countEntry_cases (arithmetic : Arithmetic) (entry : IndexEntry) (worlds : List WorldUse) :
    (entry.worldId ∉ worlds.map (·.worldId) ∧ countEntry arithmetic entry worlds =
      some (worlds ++ [{ worldId := entry.worldId, size := entry.byteSize, recency := entry.lastReadSeq }])) ∨
    ∃ before world after, worlds = before ++ world :: after ∧ world.worldId = entry.worldId ∧
      countEntry arithmetic entry worlds = (arithmetic.add world.size entry.byteSize).map fun size =>
        before ++ { world with size, recency := max world.recency entry.lastReadSeq } :: after := by
  induction worlds with
  | nil => exact .inl ⟨List.not_mem_nil, rfl⟩
  | cons first worlds ih =>
      unfold countEntry
      by_cases hfirst : first.worldId = entry.worldId
      · rw [if_pos hfirst]
        refine .inr ⟨[], first, worlds, rfl, hfirst, ?_⟩
        cases arithmetic.add first.size entry.byteSize <;> rfl
      rw [if_neg hfirst]
      rcases ih with ⟨hnew, hcount⟩ | ⟨before, world, after, rfl, hworld, hcount⟩
      · left
        rw [hcount]
        exact ⟨by simpa [Ne.symm hfirst] using hnew, rfl⟩
      · refine .inr ⟨first :: before, world, after, rfl, hworld, ?_⟩
        rw [hcount]
        cases arithmetic.add world.size entry.byteSize <;> rfl

theorem toNat_max (left right : UInt64) : (max left right).toNat = max left.toNat right.toNat := by
  show (if left ≤ right then right else left).toNat = _
  split_ifs with hle
  · exact (max_eq_right (UInt64.le_iff_toNat_le.mp hle)).symm
  · rw [UInt64.le_iff_toNat_le] at hle
    exact (max_eq_left (Nat.le_of_not_le hle)).symm

variable {arithmetic : Arithmetic} {openWorld : Uuid} {seen index : List IndexEntry} {entry : IndexEntry}
  {worlds : List WorldUse}

namespace Tally

theorem nil (openWorld : Uuid) : Tally openWorld [] [] where
  nodup := .nil
  mem_iff worldId := by simp
  size world h := absurd h List.not_mem_nil
  recency world h := absurd h List.not_mem_nil

/-- An entry of the open world is passed over. -/
theorem skip (h : Tally openWorld seen worlds) (hopen : entry.worldId = openWorld) :
    Tally openWorld (seen ++ [entry]) worlds := by
  have hne : ∀ world ∈ worlds, entry.worldId ≠ world.worldId := fun world hworld heq =>
    ((h.mem_iff world.worldId).mp (List.mem_map_of_mem hworld)).1 (heq.symm.trans hopen)
  refine ⟨h.nodup, fun worldId => ?_, fun world hworld => ?_, fun world hworld => ?_⟩
  · rw [h.mem_iff]
    refine and_congr_right fun hother => ?_
    simp [hopen, hother]
  · rw [h.size world hworld, bytesOf_concat, if_neg (hne world hworld), Nat.add_zero]
  · rw [h.recency world hworld, recencyOf_concat, if_neg (hne world hworld)]

/-- An entry of another world is counted. -/
theorem count {worlds' : List WorldUse} (h : Tally openWorld seen worlds) (hother : entry.worldId ≠ openWorld)
    (hcount : countEntry arithmetic entry worlds = some worlds') : Tally openWorld (seen ++ [entry]) worlds' := by
  rcases countEntry_cases arithmetic entry worlds with ⟨hnew, heq⟩ | ⟨before, world, after, hworlds, hworld, heq⟩
  · obtain rfl := Option.some.inj (heq.symm.trans hcount)
    have hunseen : entry.worldId ∉ seen.map (·.worldId) := fun hseen => hnew ((h.mem_iff _).mpr ⟨hother, hseen⟩)
    have hnone : (seen.filter fun other => other.worldId = entry.worldId) = [] := by
      rw [List.filter_eq_nil_iff]
      exact fun other hmem heq => hunseen (List.mem_map.mpr ⟨other, hmem, of_decide_eq_true heq⟩)
    have hne : ∀ world ∈ worlds, entry.worldId ≠ world.worldId := fun world hworld heq =>
      hnew (heq ▸ List.mem_map_of_mem hworld)
    refine ⟨?_, fun worldId => ?_, ?_, ?_⟩
    · rw [List.map_append]
      refine List.nodup_append.mpr ⟨h.nodup, List.nodup_singleton _, ?_⟩
      rintro worldId hmem _ hlast rfl
      obtain rfl : worldId = entry.worldId := List.mem_singleton.mp hlast
      exact hnew hmem
    · rw [List.map_append, List.mem_append, h.mem_iff, List.map_append, List.mem_append]
      simp only [List.map_cons, List.map_nil, List.mem_singleton]
      constructor
      · rintro (⟨hne, hseen⟩ | rfl)
        · exact ⟨hne, .inl hseen⟩
        · exact ⟨hother, .inr rfl⟩
      · rintro ⟨hne, hseen | rfl⟩
        · exact .inl ⟨hne, hseen⟩
        · exact .inr rfl
    · rw [List.forall_mem_append, List.forall_mem_singleton]
      refine ⟨fun world hworld => ?_, ?_⟩
      · rw [h.size world hworld, bytesOf_concat, if_neg (hne world hworld), Nat.add_zero]
      · rw [bytesOf_concat, if_pos rfl, bytesOf, hnone, bytes_nil, Nat.zero_add, UInt64.ofNat_toNat]
    · rw [List.forall_mem_append, List.forall_mem_singleton]
      refine ⟨fun world hworld => ?_, ?_⟩
      · rw [h.recency world hworld, recencyOf_concat, if_neg (hne world hworld)]
      · rw [recencyOf_concat, if_pos rfl, recencyOf, hnone]
        exact (Nat.zero_max _).symm
  · subst hworlds
    rw [heq, Option.map_eq_some_iff] at hcount
    obtain ⟨size, hsize, rfl⟩ := hcount
    have hids : (before ++ { world with size, recency := max world.recency entry.lastReadSeq } :: after).map
        (·.worldId) = (before ++ world :: after).map (·.worldId) := by
      rw [List.map_append, List.map_append, List.map_cons, List.map_cons]
    have hne : ∀ other, other ∈ before ∨ other ∈ after → entry.worldId ≠ other.worldId := by
      have hnodup := h.nodup
      rw [List.map_append, List.map_cons, List.nodup_middle, List.nodup_cons, hworld, ← List.map_append] at hnodup
      exact fun other hmem heq => hnodup.1 (heq ▸ List.mem_map_of_mem (List.mem_append.mpr hmem))
    have hhere : world ∈ before ++ world :: after := by simp
    refine ⟨hids ▸ h.nodup, fun worldId => ?_, ?_, ?_⟩
    · rw [hids, h.mem_iff, List.map_append, List.mem_append]
      refine and_congr_right fun _ => ⟨.inl, fun hmem => hmem.elim (fun h => h) fun hlast => ?_⟩
      obtain rfl : worldId = entry.worldId := by simpa using hlast
      exact ((h.mem_iff _).mp (hworld ▸ List.mem_map_of_mem hhere)).2
    · rw [List.forall_mem_append, List.forall_mem_cons]
      refine ⟨fun other hmem => ?_, ?_, fun other hmem => ?_⟩
      · rw [h.size other (by simp [hmem]), bytesOf_concat, if_neg (hne other (.inl hmem)), Nat.add_zero]
      · rw [Arithmetic.eq_of_add hsize, h.size world hhere, bytesOf_concat, if_pos hworld.symm, UInt64.ofNat_add,
          UInt64.ofNat_toNat]
      · rw [h.size other (by simp [hmem]), bytesOf_concat, if_neg (hne other (.inr hmem)), Nat.add_zero]
    · rw [List.forall_mem_append, List.forall_mem_cons]
      refine ⟨fun other hmem => ?_, ?_, fun other hmem => ?_⟩
      · rw [h.recency other (by simp [hmem]), recencyOf_concat, if_neg (hne other (.inl hmem))]
      · rw [toNat_max, h.recency world hhere, recencyOf_concat, if_pos hworld.symm]
      · rw [h.recency other (by simp [hmem]), recencyOf_concat, if_neg (hne other (.inr hmem))]

/-- When all sizes are in range, so is the sum of a world's. -/
theorem exists_count (arithmetic : Arithmetic) (h : Tally openWorld seen worlds) (hfits : bytes (seen ++ [entry]) < 2 ^ 64) :
    ∃ worlds', countEntry arithmetic entry worlds = some worlds' := by
  rcases countEntry_cases arithmetic entry worlds with ⟨-, heq⟩ | ⟨before, world, after, hworlds, -, heq⟩
  · exact ⟨_, heq⟩
  · have hsize : world.size.toNat ≤ bytes seen := by
      rw [h.size world (by simp [hworlds]), UInt64.toNat_ofNat']
      exact (Nat.mod_le _ _).trans (bytesOf_le seen _)
    rw [bytes_append, bytes_cons, bytes_nil] at hfits
    rw [heq, Arithmetic.add_of_lt (by omega)]
    exact ⟨_, rfl⟩

end Tally

/-- What is told of the worlds is what the index says of them. -/
theorem tally_from {worlds' : List WorldUse} (h : Tally openWorld seen worlds)
    (hfold : index.foldlM (fun worlds entry =>
      if entry.worldId = openWorld then some worlds else countEntry arithmetic entry worlds) worlds = some worlds') :
    Tally openWorld (seen ++ index) worlds' := by
  induction index generalizing seen worlds with
  | nil =>
      obtain rfl := Option.some.inj hfold
      rwa [List.append_nil]
  | cons entry index ih =>
      rw [List.foldlM_cons] at hfold
      obtain ⟨worlds₁, hentry, hfold⟩ := Option.bind_eq_some_iff.mp hfold
      rw [List.append_cons]
      refine ih ?_ hfold
      split_ifs at hentry with hopen
      · obtain rfl := Option.some.inj hentry
        exact h.skip hopen
      · exact h.count hopen hentry

theorem tally_otherWorlds (h : otherWorlds arithmetic index openWorld = some worlds) : Tally openWorld index worlds :=
  tally_from (Tally.nil openWorld) h

theorem exists_otherWorlds_from (h : Tally openWorld seen worlds) (hfits : bytes (seen ++ index) < 2 ^ 64) :
    ∃ worlds', index.foldlM (fun worlds entry =>
      if entry.worldId = openWorld then some worlds else countEntry arithmetic entry worlds) worlds =
        some worlds' := by
  induction index generalizing seen worlds with
  | nil => exact ⟨worlds, rfl⟩
  | cons entry index ih =>
      rw [List.append_cons] at hfits
      rw [List.foldlM_cons]
      by_cases hopen : entry.worldId = openWorld
      · rw [if_pos hopen]
        exact ih (h.skip hopen) hfits
      · rw [if_neg hopen]
        have hentry : bytes (seen ++ [entry]) < 2 ^ 64 := by
          rw [bytes_append] at hfits
          omega
        obtain ⟨worlds₁, hcount⟩ := h.exists_count arithmetic hentry
        rw [hcount]
        exact ih (h.count hopen hcount) hfits

theorem exists_otherWorlds (arithmetic : Arithmetic) (openWorld : Uuid) (hfits : bytes index < 2 ^ 64) :
    ∃ worlds, otherWorlds arithmetic index openWorld = some worlds :=
  exists_otherWorlds_from (Tally.nil openWorld) hfits

/-! What goes. -/

theorem mem_itemsOf {worldId : Uuid} {id : ItemId} :
    id ∈ itemsOf index worldId ↔ ∃ entry ∈ index, entry.id = id ∧ entry.worldId = worldId := by
  simp only [itemsOf, SortBy.mem_sortBy, List.mem_map, List.mem_filter, decide_eq_true_eq]
  constructor
  · rintro ⟨entry, ⟨hentry, hworld⟩, hid⟩
    exact ⟨entry, hentry, hid, hworld⟩
  · rintro ⟨entry, hentry, hid, hworld⟩
    exact ⟨entry, ⟨hentry, hworld⟩, hid⟩

theorem nodup_itemsOf (hids : (index.map (·.id)).Nodup) (worldId : Uuid) : (itemsOf index worldId).Nodup := by
  rw [itemsOf, (SortBy.sortBy_perm _ _).nodup_iff]
  exact hids.sublist (List.filter_sublist.map _)

/-- The worlds that go are the fewest of the first that free enough. -/
theorem releaseWorlds_eq (index : List IndexEntry) (toFree : UInt64) (worlds : List WorldUse) :
    (releaseWorlds index toFree worlds).1 =
        (worlds.take (LeastPrefix.count (·.size.toNat) toFree.toNat worlds)).flatMap (itemsOf index ·.worldId) ∧
      (releaseWorlds index toFree worlds).2.toNat = toFree.toNat -
        LeastPrefix.weigh (·.size.toNat) worlds (LeastPrefix.count (·.size.toNat) toFree.toNat worlds) := by
  induction worlds generalizing toFree with
  | nil => exact ⟨rfl, rfl⟩
  | cons world worlds ih =>
      unfold releaseWorlds LeastPrefix.count
      by_cases hdone : toFree = 0
      · subst hdone
        exact ⟨rfl, rfl⟩
      · have hmore : toFree.toNat ≠ 0 := fun h => hdone (UInt64.toNat_inj.mp h)
        obtain ⟨hevict, hleft⟩ := ih (saturatingSub toFree world.size)
        rw [if_neg hdone, if_neg hmore, ← saturatingSub_toNat]
        refine ⟨?_, ?_⟩
        · show itemsOf index world.worldId ++ _ = _
          rw [hevict, List.take_succ_cons, List.flatMap_cons]
        · rw [LeastPrefix.weigh_succ]
          show (releaseWorlds index (saturatingSub toFree world.size) worlds).2.toNat = _
          rw [hleft, saturatingSub_toNat]
          omega

/-- What is left without some worlds. -/
def bytesWithout (index : List IndexEntry) (gone : List Uuid) : Nat :=
  bytes (index.filter fun entry => entry.worldId ∉ gone)

theorem bytesWithout_cons {worldId : Uuid} {gone : List Uuid} (index : List IndexEntry) (h : worldId ∉ gone) :
    bytesWithout index (worldId :: gone) + bytesOf index worldId = bytesWithout index gone := by
  unfold bytesWithout bytesOf
  induction index with
  | nil => rfl
  | cons entry index ih =>
      by_cases hworld : entry.worldId = worldId
      · subst hworld
        simp [h] at ih ⊢
        omega
      · by_cases hgone : entry.worldId ∈ gone <;> simp [hworld, hgone] at ih ⊢ <;> omega

theorem bytesWithout_add {gone : List Uuid} (index : List IndexEntry) (h : gone.Nodup) :
    bytesWithout index gone + (gone.map (bytesOf index)).sum = bytes index := by
  induction gone with
  | nil => simp [bytesWithout]
  | cons worldId gone ih =>
      obtain ⟨hnew, hgone⟩ := List.nodup_cons.mp h
      calc bytesWithout index (worldId :: gone) + ((worldId :: gone).map (bytesOf index)).sum
          = bytesWithout index (worldId :: gone) + bytesOf index worldId + (gone.map (bytesOf index)).sum := by
            rw [List.map_cons, List.sum_cons, Nat.add_assoc]
        _ = bytesWithout index gone + (gone.map (bytesOf index)).sum := by rw [bytesWithout_cons index hnew]
        _ = bytes index := ih hgone

/-- The worlds other than the open one, least recently read first and a tie broken by the world's id. -/
structure Leaving (index : List IndexEntry) (openWorld : Uuid) (worlds : List Uuid) : Prop where
  mem_iff : ∀ worldId, worldId ∈ worlds ↔ worldId ≠ openWorld ∧ ∃ entry ∈ index, entry.worldId = worldId
  sorted : worlds.Pairwise fun first second =>
    toLex (recencyOf index first, first.toNat) < toLex (recencyOf index second, second.toNat)

/-- A plan lets the fewest worlds go that leave room, all of them if none do, each whole, and says truly
whether there is room then. -/
structure Plans (index : List IndexEntry) (limit incoming : UInt64) (openWorld : Uuid) (plan : BudgetPlan) : Prop where
  open_stays : ∀ entry ∈ index, entry.worldId = openWorld → entry.id ∉ plan.evict
  nodup : plan.evict.Nodup
  fewest : ∃ worlds k, Leaving index openWorld worlds ∧ k ≤ worlds.length ∧
    (∀ id, id ∈ plan.evict ↔ ∃ entry ∈ index, entry.id = id ∧ entry.worldId ∈ worlds.take k) ∧
    (∀ j < k, limit.toNat < bytesWithout index (worlds.take j) + incoming.toNat) ∧
    (bytesWithout index (worlds.take k) + incoming.toNat ≤ limit.toNat ∨ k = worlds.length)
  insufficient_iff : plan.insufficient = true ↔
    limit.toNat < bytes (index.filter fun entry => entry.worldId = openWorld) + incoming.toNat

/-- The worlds in the order they go. -/
def namesOf (worlds : List WorldUse) : List Uuid := (SortBy.sortBy WorldUse.key worlds).map (·.worldId)

theorem Tally.leaving (h : Tally openWorld index worlds) : Leaving index openWorld (namesOf worlds) where
  mem_iff worldId := by
    rw [namesOf, ((SortBy.sortBy_perm WorldUse.key worlds).map _).mem_iff, h.mem_iff, List.mem_map]
  sorted := by
    have hkeys : (worlds.map WorldUse.key).Nodup := by
      refine List.Nodup.of_map (fun key => (ofLex key).2) ?_
      rw [List.map_map]
      have hnats : ((worlds.map (·.worldId)).map BitVec.toNat).Nodup :=
        h.nodup.map fun left right heq => BitVec.toNat_inj.mp heq
      rwa [List.map_map] at hnats
    refine List.pairwise_map.mpr ((SortBy.pairwise_lt_sortBy WorldUse.key hkeys).imp_of_mem ?_)
    intro first second hfirst hsecond hlt
    rw [SortBy.mem_sortBy] at hfirst hsecond
    rwa [← h.recency first hfirst, ← h.recency second hsecond]

/-- When all sizes are in range, the first worlds take what their items take. -/
theorem Tally.weigh_add (h : Tally openWorld index worlds) (hfits : bytes index < 2 ^ 64) (j : Nat) :
    bytesWithout index ((namesOf worlds).take j) +
      LeastPrefix.weigh (·.size.toNat) (SortBy.sortBy WorldUse.key worlds) j = bytes index := by
  have hnodup : (namesOf worlds).Nodup :=
    ((SortBy.sortBy_perm WorldUse.key worlds).map WorldUse.worldId).nodup_iff.mpr h.nodup
  have hsizes : LeastPrefix.weigh (·.size.toNat) (SortBy.sortBy WorldUse.key worlds) j =
      (((namesOf worlds).take j).map (bytesOf index)).sum := by
    rw [LeastPrefix.weigh, namesOf, ← List.map_take, List.map_map]
    refine congrArg List.sum (List.map_congr_left fun world hworld => ?_)
    have hmem : world ∈ worlds := (SortBy.mem_sortBy WorldUse.key).mp (List.mem_of_mem_take hworld)
    rw [h.size world hmem, UInt64.toNat_ofNat', Nat.mod_eq_of_lt ((bytesOf_le index _).trans_lt hfits)]
    rfl
  rw [hsizes, bytesWithout_add index (hnodup.sublist (List.take_sublist _ _))]

/-- The items of the first worlds are what goes with them. -/
theorem mem_released {id : ItemId} (index : List IndexEntry) (worlds : List WorldUse) (k : Nat) :
    (id ∈ ((SortBy.sortBy WorldUse.key worlds).take k).flatMap (itemsOf index ·.worldId)) ↔
      ∃ entry ∈ index, entry.id = id ∧ entry.worldId ∈ (namesOf worlds).take k := by
  rw [List.mem_flatMap, namesOf, ← List.map_take]
  constructor
  · rintro ⟨world, hworld, hid⟩
    obtain ⟨entry, hentry, rfl, hentryWorld⟩ := mem_itemsOf.mp hid
    exact ⟨entry, hentry, rfl, hentryWorld ▸ List.mem_map_of_mem hworld⟩
  · rintro ⟨entry, hentry, rfl, hgone⟩
    obtain ⟨world, hworld, heq⟩ := List.mem_map.mp hgone
    exact ⟨world, hworld, mem_itemsOf.mpr ⟨entry, hentry, rfl, heq.symm⟩⟩

theorem Tally.nodup_released (h : Tally openWorld index worlds) (hids : (index.map (·.id)).Nodup) (k : Nat) :
    (((SortBy.sortBy WorldUse.key worlds).take k).flatMap (itemsOf index ·.worldId)).Nodup := by
  have hne : (SortBy.sortBy WorldUse.key worlds).Pairwise fun first second => first.worldId ≠ second.worldId :=
    List.pairwise_map.mp (((SortBy.sortBy_perm WorldUse.key worlds).map WorldUse.worldId).nodup_iff.mpr h.nodup)
  refine List.nodup_flatMap.mpr ⟨fun world _ => nodup_itemsOf hids world.worldId, ?_⟩
  refine (hne.sublist (List.take_sublist _ _)).imp fun hworlds id hfirst hsecond => ?_
  obtain ⟨entry, hentry, rfl, hone⟩ := mem_itemsOf.mp hfirst
  obtain ⟨other, hother, hid, htwo⟩ := mem_itemsOf.mp hsecond
  obtain rfl : other = entry := List.inj_on_of_nodup_map hids hother hentry hid
  exact hworlds (hone.symm.trans htwo)

/-- Without all the other worlds the open one is left. -/
theorem Leaving.bytesWithout_all {names : List Uuid} (h : Leaving index openWorld names) :
    bytesWithout index names = bytesOf index openWorld := by
  refine congrArg bytes (List.filter_congr fun entry hentry => ?_)
  rw [decide_eq_decide, h.mem_iff, not_and_or, not_not]
  exact ⟨fun hor => hor.elim (fun h => h) fun hnone => absurd ⟨entry, hentry, rfl⟩ hnone, .inl⟩

/-- Whatever goes, the open world is left. -/
theorem Leaving.le_bytesWithout_take {names : List Uuid} (h : Leaving index openWorld names) (k : Nat) :
    bytesOf index openWorld ≤ bytesWithout index (names.take k) := by
  rw [← h.bytesWithout_all]
  refine bytes_filter_le fun entry _ hstays => ?_
  rw [decide_eq_true_eq] at hstays ⊢
  exact fun hgone => hstays (List.mem_of_mem_take hgone)

/-- What is let go when the total is over the limit. -/
theorem Tally.plans {limit incoming toFree : UInt64} (h : Tally openWorld index worlds)
    (hids : (index.map (·.id)).Nodup) (hindex : bytes index < 2 ^ 64)
    (hneed : toFree.toNat = bytes index + incoming.toNat - limit.toNat)
    {released : List ItemId × UInt64}
    (hreleased : releaseWorlds index toFree (SortBy.sortBy WorldUse.key worlds) = released) :
    Plans index limit incoming openWorld
      { limitBytes := limit, inUseBytes := UInt64.ofNat (bytes index), evict := released.1,
        insufficient := decide (0 < released.2) } := by
  obtain ⟨hevict, hleft⟩ := releaseWorlds_eq index toFree (SortBy.sortBy WorldUse.key worlds)
  generalize hk : LeastPrefix.count (·.size.toNat) toFree.toNat (SortBy.sortBy WorldUse.key worlds) = k at hevict hleft
  rw [hreleased] at hevict hleft
  have hleaving := h.leaving
  have hsplit := h.weigh_add hindex
  have hlength : (namesOf worlds).length = (SortBy.sortBy WorldUse.key worlds).length := List.length_map ..
  have hmet : bytesWithout index ((namesOf worlds).take k) + incoming.toNat ≤ limit.toNat ∨
      k = (namesOf worlds).length := by
    rw [hlength, ← hk]
    refine (LeastPrefix.le_weigh_count toFree.toNat _).imp_left fun hmet => ?_
    have hsplitK := hsplit k
    rw [hk] at hmet ⊢
    omega
  refine ⟨?_, hevict ▸ h.nodup_released hids k, ⟨namesOf worlds, k, hleaving, ?_, ?_, ?_, hmet⟩, ?_⟩
  · intro entry hentry hopenEntry hgone
    obtain ⟨other, hother, hid, hworld⟩ := (mem_released index worlds k).mp (hevict ▸ hgone)
    obtain rfl : other = entry := List.inj_on_of_nodup_map hids hother hentry hid
    exact ((hleaving.mem_iff _).mp (List.mem_of_mem_take hworld)).1 hopenEntry
  · rw [hlength, ← hk]
    exact LeastPrefix.count_le _ _
  · intro id
    show id ∈ released.1 ↔ _
    rw [hevict, mem_released]
  · intro j hj
    have hshort : LeastPrefix.weigh (·.size.toNat) (SortBy.sortBy WorldUse.key worlds) j < toFree.toNat :=
      LeastPrefix.weigh_lt_of_lt_count (hk ▸ hj)
    have hsplitJ := hsplit j
    omega
  · show decide (0 < released.2) = true ↔ limit.toNat < bytesOf index openWorld + incoming.toNat
    rw [decide_eq_true_eq, UInt64.lt_iff_toNat_lt, hleft]
    have hsplitK := hsplit k
    show 0 < toFree.toNat - _ ↔ _
    rcases hmet with hmet | rfl
    · have hopen := hleaving.le_bytesWithout_take k
      omega
    · rw [List.take_length, hleaving.bytesWithout_all] at hsplitK
      omega

/-- The total as it is compared with the limit. -/
theorem planEviction_total {limit incoming : UInt64} {plan : BudgetPlan}
    (h : planEviction arithmetic index limit incoming openWorld = some plan) :
    ¬(arithmetic = .checked ∧ 2 ^ 64 ≤ bytes index + incoming.toNat) := by
  rintro ⟨rfl, hover⟩
  unfold planEviction at h
  rw [sumBytes_eq] at h
  split_ifs at h with hsum
  · cases h
  · have hlt : bytes index < 2 ^ 64 := by
      by_contra hge
      exact hsum ⟨rfl, Nat.not_lt.mp hge⟩
    have hadd : Arithmetic.checked.add (UInt64.ofNat (bytes index)) incoming = none := by
      refine if_pos ⟨rfl, ?_⟩
      rwa [UInt64.toNat_ofNat', Nat.mod_eq_of_lt hlt]
    rw [Option.bind_eq_bind, Option.bind_some, hadd] at h
    cases h

/-- Unless it panics, a plan compares the total as it wraps with the limit. -/
theorem planEviction_eq (limit incoming : UInt64) (openWorld : Uuid)
    (h : ¬(arithmetic = .checked ∧ 2 ^ 64 ≤ bytes index + incoming.toNat)) :
    planEviction arithmetic index limit incoming openWorld =
      let total := UInt64.ofNat (bytes index + incoming.toNat)
      if total ≤ limit then
        some { limitBytes := limit, inUseBytes := UInt64.ofNat (bytes index), evict := [], insufficient := false }
      else (otherWorlds arithmetic index openWorld).map fun worlds =>
        let released := releaseWorlds index (saturatingSub total limit) (SortBy.sortBy WorldUse.key worlds)
        { limitBytes := limit, inUseBytes := UInt64.ofNat (bytes index), evict := released.1,
          insufficient := decide (0 < released.2) } := by
  have hsum : sumBytes arithmetic index = some (UInt64.ofNat (bytes index)) := by
    rw [sumBytes_eq, if_neg fun hover => h ⟨hover.1, hover.2.trans (Nat.le_add_right _ _)⟩]
  have htotal : arithmetic.add (UInt64.ofNat (bytes index)) incoming =
      some (UInt64.ofNat (bytes index + incoming.toNat)) := by
    rw [UInt64.ofNat_add, UInt64.ofNat_toNat]
    refine if_neg fun hover => h ⟨hover.1, hover.2.trans ?_⟩
    rw [UInt64.toNat_ofNat']
    exact Nat.add_le_add_right (Nat.mod_le _ _) _
  simp only [planEviction, hsum, htotal, Option.bind_eq_bind, Option.bind_some]
  split_ifs
  · rfl
  · cases otherWorlds arithmetic index openWorld <;> rfl

theorem planEviction_plans (arithmetic : Arithmetic) (index : List IndexEntry) (limit incoming : UInt64)
    (openWorld : Uuid) (hids : (index.map (·.id)).Nodup) (hfits : bytes index + incoming.toNat < 2 ^ 64) :
    ∃ plan, planEviction arithmetic index limit incoming openWorld = some plan ∧
      Plans index limit incoming openWorld plan := by
  have hindex : bytes index < 2 ^ 64 := (Nat.le_add_right _ _).trans_lt hfits
  have htotal : (UInt64.ofNat (bytes index + incoming.toNat)).toNat = bytes index + incoming.toNat := by
    rw [UInt64.toNat_ofNat', Nat.mod_eq_of_lt hfits]
  obtain ⟨worlds, hworlds⟩ := exists_otherWorlds arithmetic openWorld hindex
  have htally := tally_otherWorlds hworlds
  have hopen := bytesOf_le index openWorld
  rw [planEviction_eq limit incoming openWorld fun hover => absurd hfits (Nat.not_lt.mpr hover.2), hworlds]
  by_cases hroom : UInt64.ofNat (bytes index + incoming.toNat) ≤ limit
  · rw [if_pos hroom]
    rw [UInt64.le_iff_toNat_le, htotal] at hroom
    refine ⟨_, rfl, fun _ _ _ => List.not_mem_nil, .nil,
      ⟨namesOf worlds, 0, htally.leaving, Nat.zero_le _, fun id => ?_, fun j hj => absurd hj (Nat.not_lt_zero j), ?_⟩, ?_⟩
    · simp
    · left
      rwa [← htally.weigh_add hindex 0] at hroom
    · exact iff_of_false Bool.false_ne_true (Nat.not_lt.mpr ((Nat.add_le_add_right hopen _).trans hroom))
  · rw [if_neg hroom]
    refine ⟨_, rfl, htally.plans hids hindex ?_ rfl⟩
    rw [saturatingSub_toNat, htotal]

/-- An index of two worlds; the one that is not open has to go, and then there is room. -/
theorem planEviction_plans_two : ∃ plan, planEviction .wrapping
    [⟨.canvasAsset 1, 1, 500, 10⟩, ⟨.canvasAsset 2, 2, 500, 1⟩] 900 200 1 = some plan ∧
      Plans [⟨.canvasAsset 1, 1, 500, 10⟩, ⟨.canvasAsset 2, 2, 500, 1⟩] 900 200 1 plan :=
  planEviction_plans .wrapping _ 900 200 1 (by decide) (by decide)

/-! Whether the two gates agree. -/

/-- What is planned to fit without letting anything go is admitted too, and it does not overflow. -/
def FailClosed (arithmetic : Arithmetic) (index : List IndexEntry) (limit incoming : UInt64) (openWorld : Uuid) : Prop :=
  ∀ inUse plan, sumBytes arithmetic index = some inUse →
    planEviction arithmetic index limit incoming openWorld = some plan → plan.evict = [] → plan.insufficient = false →
      admitSpeculative inUse limit incoming = .admitted ∧ bytes index + incoming.toNat < 2 ^ 64

/-- A world that is let go has an item. -/
theorem Tally.released_ne_nil {toFree : UInt64} (h : Tally openWorld index worlds) (hneed : toFree ≠ 0)
    (hevict : (releaseWorlds index toFree (SortBy.sortBy WorldUse.key worlds)).1 = []) :
    0 < (releaseWorlds index toFree (SortBy.sortBy WorldUse.key worlds)).2 := by
  cases hworlds : SortBy.sortBy WorldUse.key worlds with
  | nil => exact UInt64.pos_iff_ne_zero.mpr hneed
  | cons world rest =>
      rw [hworlds, releaseWorlds, if_neg hneed] at hevict
      obtain ⟨hitems, -⟩ := List.append_eq_nil_iff.mp hevict
      have hmem : world ∈ worlds := (SortBy.mem_sortBy WorldUse.key).mp (hworlds ▸ List.mem_cons_self)
      obtain ⟨-, hseen⟩ := (h.mem_iff world.worldId).mp (List.mem_map_of_mem hmem)
      obtain ⟨entry, hentry, hworld⟩ := List.mem_map.mp hseen
      have hitem : entry.id ∈ itemsOf index world.worldId := mem_itemsOf.mpr ⟨entry, hentry, rfl, hworld⟩
      rw [hitems] at hitem
      exact absurd hitem List.not_mem_nil

/-- The gates fail closed together but where the total wraps to one that fits. -/
theorem failClosed_iff (arithmetic : Arithmetic) (index : List IndexEntry) (limit incoming : UInt64)
    (openWorld : Uuid) :
    FailClosed arithmetic index limit incoming openWorld ↔
      arithmetic = .checked ∨ bytes index + incoming.toNat < 2 ^ 64 ∨
        limit.toNat < (bytes index + incoming.toNat) % 2 ^ 64 := by
  constructor
  · intro h
    by_contra hnot
    obtain ⟨hwraps, hnot⟩ := not_or.mp hnot
    obtain ⟨hover, hfits⟩ := not_or.mp hnot
    rw [Nat.not_lt] at hover hfits
    have hroom : UInt64.ofNat (bytes index + incoming.toNat) ≤ limit := by
      rwa [UInt64.le_iff_toNat_le, UInt64.toNat_ofNat']
    have hsum : sumBytes arithmetic index = some (UInt64.ofNat (bytes index)) := by
      rw [sumBytes_eq, if_neg fun hchecked => hwraps hchecked.1]
    have hplan : planEviction arithmetic index limit incoming openWorld = _ :=
      planEviction_eq limit incoming openWorld fun hchecked => hwraps hchecked.1
    rw [if_pos hroom] at hplan
    exact absurd (h _ _ hsum hplan rfl rfl).2 (Nat.not_lt.mpr hover)
  · intro h inUse plan hsum hplan hevict hsufficient
    have hpanics := planEviction_total hplan
    rw [planEviction_eq limit incoming openWorld hpanics] at hplan
    have hroom : UInt64.ofNat (bytes index + incoming.toNat) ≤ limit := by
      by_contra hshort
      rw [if_neg hshort] at hplan
      obtain ⟨worlds, hworlds, rfl⟩ := Option.map_eq_some_iff.mp hplan
      have hneed : saturatingSub (UInt64.ofNat (bytes index + incoming.toNat)) limit ≠ 0 := by
        intro hzero
        have hnat := saturatingSub_toNat (UInt64.ofNat (bytes index + incoming.toNat)) limit
        rw [hzero] at hnat
        rw [UInt64.le_iff_toNat_le] at hshort
        change 0 = _ at hnat
        omega
      have hleft := (tally_otherWorlds hworlds).released_ne_nil hneed hevict
      exact absurd hleft (of_decide_eq_false hsufficient)
    have hfits : bytes index + incoming.toNat < 2 ^ 64 := by
      rcases h with hchecked | hfits | hover
      · by_contra hge
        exact hpanics ⟨hchecked, Nat.not_lt.mp hge⟩
      · exact hfits
      · rw [UInt64.le_iff_toNat_le, UInt64.toNat_ofNat'] at hroom
        exact absurd hover (Nat.not_lt.mpr hroom)
    refine ⟨?_, hfits⟩
    rw [sumBytes_eq, if_neg fun hover => absurd hover.2 (by omega)] at hsum
    obtain rfl := Option.some.inj hsum
    have hindex : (UInt64.ofNat (bytes index)).toNat = bytes index := by
      rw [UInt64.toNat_ofNat', Nat.mod_eq_of_lt ((Nat.le_add_right _ _).trans_lt hfits)]
    rw [admitSpeculative, checkedAdd, Arithmetic.add_of_lt (hindex.symm ▸ hfits)]
    rw [UInt64.ofNat_add, UInt64.ofNat_toNat] at hroom
    exact if_pos hroom

/-- One item of the greatest size and one byte more wrap to nothing, and nothing fits no room at all. -/
theorem greatest_size_not_failClosed :
    ¬FailClosed .wrapping [⟨.canvasAsset 1, 1, UInt64.ofNat (2 ^ 64 - 1), 0⟩] 0 1 1 := by
  intro h
  have hadmitted := (h (UInt64.ofNat (2 ^ 64 - 1)) ⟨0, UInt64.ofNat (2 ^ 64 - 1), [], false⟩ (by decide) (by decide)
    rfl rfl).1
  exact absurd hadmitted (by decide)

end ThunderForge.Cache
