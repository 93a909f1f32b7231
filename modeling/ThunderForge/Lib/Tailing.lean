import Mathlib
import ThunderForge.Lib.Run
import ThunderForge.Lib.SortBy

/-! Reading a log again and again from a floor that trails what was read, and handing every entry on once. The reader
forgets the keys its floor has passed; since nothing at or below the floor is read again, it hands on what a reader
that forgot nothing would. A reading is a window on the log: the first entries above the floor, in the order of their
keys, up to a limit. -/

namespace Tailing

variable {ρ ι : Type*} [LinearOrder ι] (key : ρ → ι)

/-- The entries whose keys were not seen, each key once, in the order they come. -/
def fresh : Finset ι → List ρ → List ρ
  | _, [] => []
  | seen, r :: rest => if key r ∈ seen then fresh seen rest else r :: fresh (insert (key r) seen) rest

/-- The keys of a batch. -/
def keys (batch : List ρ) : Finset ι := (batch.map key).toFinset

@[simp] theorem mem_keys {batch : List ρ} {i : ι} : i ∈ keys key batch ↔ ∃ r ∈ batch, key r = i := by
  simp [keys]

@[simp] theorem keys_nil : keys key [] = ∅ := rfl

theorem keys_append (left right : List ρ) : keys key (left ++ right) = keys key left ∪ keys key right := by
  ext i
  simp only [mem_keys, Finset.mem_union, List.mem_append]
  grind

section Fresh

variable {key} {seen : Finset ι}

@[simp] theorem fresh_nil : fresh key seen [] = [] := rfl

theorem fresh_cons_of_mem {r : ρ} {rest : List ρ} (h : key r ∈ seen) :
    fresh key seen (r :: rest) = fresh key seen rest := if_pos h

theorem fresh_cons_of_notMem {r : ρ} {rest : List ρ} (h : key r ∉ seen) :
    fresh key seen (r :: rest) = r :: fresh key (insert (key r) seen) rest := if_neg h

theorem fresh_sublist (batch : List ρ) : (fresh key seen batch).Sublist batch := by
  induction batch generalizing seen with
  | nil => exact .slnil
  | cons r rest ih =>
      by_cases h : key r ∈ seen
      · rw [fresh_cons_of_mem h]
        exact ih.cons r
      · rw [fresh_cons_of_notMem h]
        exact ih.cons_cons r

theorem notMem_of_mem_fresh {batch : List ρ} {r : ρ} (h : r ∈ fresh key seen batch) : key r ∉ seen := by
  induction batch generalizing seen with
  | nil => cases h
  | cons first rest ih =>
      by_cases hfirst : key first ∈ seen
      · rw [fresh_cons_of_mem hfirst] at h
        exact ih h
      · rw [fresh_cons_of_notMem hfirst] at h
        rcases List.mem_cons.mp h with rfl | h
        · exact hfirst
        · exact fun hseen => ih h (Finset.mem_insert_of_mem hseen)

/-- Every key of the batch that was not seen is handed on. -/
theorem exists_mem_fresh {batch : List ρ} {r : ρ} (hr : r ∈ batch) (hseen : key r ∉ seen) :
    ∃ r' ∈ fresh key seen batch, key r' = key r := by
  induction batch generalizing seen with
  | nil => cases hr
  | cons first rest ih =>
      by_cases hfirst : key first ∈ seen
      · rw [fresh_cons_of_mem hfirst]
        rcases List.mem_cons.mp hr with rfl | hr
        · exact absurd hfirst hseen
        · exact ih hr hseen
      · rw [fresh_cons_of_notMem hfirst]
        by_cases heq : key first = key r
        · exact ⟨first, List.mem_cons_self, heq⟩
        · rcases List.mem_cons.mp hr with rfl | hr
          · exact absurd rfl heq
          · have hinsert : key r ∉ insert (key first) seen := by
              simp only [Finset.mem_insert, not_or]
              exact ⟨fun h => heq h.symm, hseen⟩
            obtain ⟨r', hr', hkey⟩ := ih hr hinsert
            exact ⟨r', List.mem_cons_of_mem _ hr', hkey⟩

theorem keys_fresh (batch : List ρ) : keys key (fresh key seen batch) = keys key batch \ seen := by
  ext i
  simp only [mem_keys, Finset.mem_sdiff]
  constructor
  · rintro ⟨r, hr, rfl⟩
    exact ⟨⟨r, (fresh_sublist batch).subset hr, rfl⟩, notMem_of_mem_fresh hr⟩
  · rintro ⟨⟨r, hr, rfl⟩, hseen⟩
    exact exists_mem_fresh hr hseen

theorem nodup_fresh (batch : List ρ) : ((fresh key seen batch).map key).Nodup := by
  induction batch generalizing seen with
  | nil => exact .nil
  | cons r rest ih =>
      by_cases h : key r ∈ seen
      · rw [fresh_cons_of_mem h]
        exact ih
      · rw [fresh_cons_of_notMem h, List.map_cons]
        refine List.nodup_cons.mpr ⟨fun hmem => ?_, ih⟩
        obtain ⟨r', hr', hkey⟩ := List.mem_map.mp hmem
        exact notMem_of_mem_fresh hr' (hkey ▸ Finset.mem_insert_self _ _)

/-- Only what was seen of the batch matters. -/
theorem fresh_congr {seen' : Finset ι} {batch : List ρ} (h : ∀ r ∈ batch, key r ∈ seen ↔ key r ∈ seen') :
    fresh key seen batch = fresh key seen' batch := by
  induction batch generalizing seen seen' with
  | nil => rfl
  | cons r rest ih =>
      obtain ⟨hr, hrest⟩ := List.forall_mem_cons.mp h
      by_cases hseen : key r ∈ seen
      · rw [fresh_cons_of_mem hseen, fresh_cons_of_mem (hr.mp hseen)]
        exact ih hrest
      · rw [fresh_cons_of_notMem hseen, fresh_cons_of_notMem (mt hr.mpr hseen)]
        refine congrArg _ (ih fun r' hr' => ?_)
        simp only [Finset.mem_insert, hrest r' hr']

theorem fresh_append (left right : List ρ) :
    fresh key seen (left ++ right) = fresh key seen left ++ fresh key (seen ∪ keys key left) right := by
  induction left generalizing seen with
  | nil => simp
  | cons r rest ih =>
      by_cases h : key r ∈ seen
      · rw [List.cons_append, fresh_cons_of_mem h, fresh_cons_of_mem h, ih]
        refine congrArg _ (fresh_congr fun r' hr' => ?_)
        simp only [Finset.mem_union, mem_keys, List.mem_cons]
        grind
      · rw [List.cons_append, fresh_cons_of_notMem h, fresh_cons_of_notMem h, ih, List.cons_append]
        refine congrArg _ (congrArg _ (fresh_congr fun r' hr' => ?_))
        simp only [Finset.mem_union, Finset.mem_insert, mem_keys, List.mem_cons]
        grind

theorem fresh_eq_self {batch : List ρ} (hnodup : (batch.map key).Nodup) (h : ∀ r ∈ batch, key r ∉ seen) :
    fresh key seen batch = batch := by
  induction batch generalizing seen with
  | nil => rfl
  | cons r rest ih =>
      obtain ⟨hr, hrest⟩ := List.forall_mem_cons.mp h
      obtain ⟨hnot, hnodup⟩ := List.nodup_cons.mp hnodup
      rw [fresh_cons_of_notMem hr]
      refine congrArg _ (ih hnodup fun r' hr' => ?_)
      simp only [Finset.mem_insert, not_or]
      exact ⟨fun heq => hnot (heq ▸ List.mem_map_of_mem hr'), hrest r' hr'⟩

end Fresh

/-- Nothing at or below the floor is read again; of the entries above it that were handed on, the keys are kept. -/
structure Reader (ι : Type*) where
  floor : ι
  sent : Finset ι

/-- What a reader is given: a batch, and where its floor may rise to. -/
structure Reading (ρ ι : Type*) where
  batch : List ρ
  floor : ι

/-- Hand on what of the batch was not, raise the floor, and forget what it passes. -/
def Reader.read (reader : Reader ι) (reading : Reading ρ ι) : Reader ι × List ρ :=
  (⟨reading.floor, (reader.sent ∪ keys key reading.batch).filter (reading.floor < ·)⟩,
    fresh key reader.sent reading.batch)

/-- The batch lies above the floor, which does not fall. -/
def Reader.Above (reader : Reader ι) (reading : Reading ρ ι) : Prop :=
  (∀ r ∈ reading.batch, reader.floor < key r) ∧ reader.floor ≤ reading.floor

/-- Of a history of keys handed on, the reader remembers those above its floor. -/
def Reader.Remembers (reader : Reader ι) (history : Finset ι) : Prop :=
  ∀ i, i ∈ reader.sent ↔ reader.floor < i ∧ i ∈ history

variable {key}

theorem Reader.Remembers.fresh_eq {reader : Reader ι} {history : Finset ι} (h : reader.Remembers history)
    {batch : List ρ} (habove : ∀ r ∈ batch, reader.floor < key r) :
    fresh key reader.sent batch = fresh key history batch :=
  fresh_congr fun r hr => (h _).trans (and_iff_right (habove r hr))

theorem Reader.Remembers.read {reader : Reader ι} {history : Finset ι} (h : reader.Remembers history)
    {reading : Reading ρ ι} (habove : reader.Above key reading) :
    (reader.read key reading).1.Remembers (history ∪ keys key reading.batch) := by
  intro i
  simp only [Reader.read, Finset.mem_filter, Finset.mem_union, h i]
  constructor
  · rintro ⟨⟨-, hi⟩ | hi, hfloor⟩
    · exact ⟨hfloor, Or.inl hi⟩
    · exact ⟨hfloor, Or.inr hi⟩
  · rintro ⟨hfloor, hi | hi⟩
    · exact ⟨Or.inl ⟨habove.2.trans_lt hfloor, hi⟩, hfloor⟩
    · exact ⟨Or.inr hi, hfloor⟩

/-- A run whose every step reads a batch hands on what a reader that forgot nothing would: the first coming of every
key it ever reads. -/
theorem Reader.answers_eq_fresh {σ α : Type*} {reply : σ → α → σ × List ρ} {view : σ → Reader ι}
    {batch : α → List ρ} {floor : σ → α → ι}
    (hreads : ∀ s a, (view (reply s a).1, (reply s a).2) = (view s).read key ⟨batch a, floor s a⟩) {s : σ}
    {history : Finset ι} (h : (view s).Remembers history) {acts : List α}
    (habove : Run.Meets (Run.next reply) (fun s a => (view s).Above key ⟨batch a, floor s a⟩) s acts) :
    (Run.answers reply s acts).flatten = fresh key history (acts.map batch).flatten := by
  induction acts generalizing s history with
  | nil => rfl
  | cons a acts ih =>
      obtain ⟨hfirst, hrest⟩ := habove
      have hview : view (Run.next reply s a) = _ := congrArg Prod.fst (hreads s a)
      have hanswer : (reply s a).2 = fresh key (view s).sent (batch a) := congrArg Prod.snd (hreads s a)
      have hnext : (view (Run.next reply s a)).Remembers (history ∪ keys key (batch a)) := by
        rw [hview]
        exact h.read hfirst
      calc (Run.answers reply s (a :: acts)).flatten
          = (reply s a).2 ++ (Run.answers reply (Run.next reply s a) acts).flatten := rfl
        _ = fresh key history (batch a) ++ fresh key (history ∪ keys key (batch a)) (acts.map batch).flatten := by
            rw [hanswer, h.fresh_eq hfirst.1, ih hnext hrest]
        _ = fresh key history ((a :: acts).map batch).flatten := by
            rw [List.map_cons, List.flatten_cons, fresh_append]

/-! Windows on a log, and draining one. -/

variable (key)

/-- The entries above the floor, in the order of their keys. -/
def above (floor : ι) (log : List ρ) : List ρ := SortBy.sortBy key (log.filter fun r => floor < key r)

/-- The first of them, up to the limit. -/
def window (limit : Nat) (floor : ι) (log : List ρ) : List ρ := (above key floor log).take limit

/-- The lowest floor that passes the whole batch. -/
def passed (floor : ι) (batch : List ρ) : ι := batch.foldl (fun floor r => max floor (key r)) floor

section Window

variable {key} {limit : Nat} {floor : ι} {log : List ρ}

@[simp] theorem mem_above {r : ρ} : r ∈ above key floor log ↔ r ∈ log ∧ floor < key r := by
  simp [above]

theorem mem_of_mem_window {r : ρ} (h : r ∈ window key limit floor log) : r ∈ log ∧ floor < key r :=
  mem_above.mp (List.mem_of_mem_take h)

theorem pairwise_lt_above (hlog : (log.map key).Nodup) : (above key floor log).Pairwise fun a b => key a < key b :=
  SortBy.pairwise_lt_sortBy key (hlog.sublist (List.filter_sublist.map key))

theorem pairwise_lt_window (hlog : (log.map key).Nodup) :
    (window key limit floor log).Pairwise fun a b => key a < key b :=
  (pairwise_lt_above hlog).sublist (List.take_sublist _ _)

/-- A window leaves out nothing below what it shows. -/
theorem mem_window_of_le (hlog : (log.map key).Nodup) {r r' : ρ} (hr : r ∈ log) (hfloor : floor < key r)
    (hr' : r' ∈ window key limit floor log) (hle : key r ≤ key r') : r ∈ window key limit floor log := by
  have hmem : r ∈ above key floor log := mem_above.mpr ⟨hr, hfloor⟩
  have hsorted : (above key floor log).Pairwise fun a b => key a < key b := pairwise_lt_above hlog
  rw [← List.take_append_drop limit (above key floor log)] at hmem hsorted
  rcases List.mem_append.mp hmem with htake | hdrop
  · exact htake
  · exact absurd ((List.pairwise_append.mp hsorted).2.2 r' hr' r hdrop) (not_lt.mpr hle)

theorem le_passed (batch : List ρ) : floor ≤ passed key floor batch := by
  unfold passed
  induction batch generalizing floor with
  | nil => exact le_refl floor
  | cons r rest ih => exact (le_max_left _ _).trans ih

theorem key_le_passed {batch : List ρ} {r : ρ} (hr : r ∈ batch) : key r ≤ passed key floor batch := by
  induction batch generalizing floor with
  | nil => cases hr
  | cons first rest ih =>
      rcases List.mem_cons.mp hr with rfl | hr
      · exact (le_max_right _ _).trans (le_passed rest)
      · exact ih hr

theorem passed_lt {batch : List ρ} {i : ι} (hfloor : floor < i) (h : ∀ r ∈ batch, key r < i) :
    passed key floor batch < i := by
  induction batch generalizing floor with
  | nil => exact hfloor
  | cons first rest ih =>
      obtain ⟨hfirst, hrest⟩ := List.forall_mem_cons.mp h
      exact ih (max_lt hfloor hfirst) hrest

/-- Past a window, what lies above is what lay above without it. -/
theorem above_passed (hlog : (log.map key).Nodup) :
    above key (passed key floor (window key limit floor log)) log = (above key floor log).drop limit := by
  have hsorted : (above key floor log).Pairwise fun a b => key a < key b := pairwise_lt_above hlog
  have hsplit := List.take_append_drop limit (above key floor log)
  refine SortBy.eq_of_pairwise_lt (pairwise_lt_above hlog) (hsorted.sublist (List.drop_sublist _ _)) fun r => ?_
  rw [← hsplit] at hsorted
  constructor
  · intro hr
    obtain ⟨hr, hpassed⟩ := mem_above.mp hr
    have hmem : r ∈ above key floor log := mem_above.mpr ⟨hr, (le_passed _).trans_lt hpassed⟩
    rw [← hsplit] at hmem
    rcases List.mem_append.mp hmem with htake | hdrop
    · exact absurd hpassed (not_lt.mpr (key_le_passed htake))
    · exact hdrop
  · intro hr
    obtain ⟨hlogged, hfloor⟩ := mem_above.mp (List.mem_of_mem_drop hr)
    refine mem_above.mpr ⟨hlogged, passed_lt hfloor fun r' hr' => ?_⟩
    exact (List.pairwise_append.mp hsorted).2.2 r' hr' r hr

end Window

/-- Read a window of the log and pass all of it. -/
def Reader.pass (limit : Nat) (log : List ρ) (reader : Reader ι) : Reader ι × List ρ :=
  reader.read key ⟨window key limit reader.floor log, passed key reader.floor (window key limit reader.floor log)⟩

variable {key}

/-- A log that stays as it is drains: so many windows after one another hand on what one large window would. -/
theorem Reader.drained (limit : Nat) {log : List ρ} (hlog : (log.map key).Nodup) (passes : List Unit)
    (reader : Reader ι) {history : Finset ι} (h : reader.Remembers history) :
    (Run.answers (fun reader (_ : Unit) => reader.pass key limit log) reader passes).flatten =
        fresh key history (window key (passes.length * limit) reader.floor log) ∧
      above key (Run.run (Run.next fun reader (_ : Unit) => reader.pass key limit log) reader passes).floor log =
        (above key reader.floor log).drop (passes.length * limit) := by
  induction passes generalizing reader history with
  | nil => simp [window]
  | cons pass passes ih =>
      have habove : reader.Above key ⟨window key limit reader.floor log,
          passed key reader.floor (window key limit reader.floor log)⟩ :=
        ⟨fun r hr => (mem_of_mem_window hr).2, le_passed _⟩
      have hnext : (Run.next (fun reader (_ : Unit) => reader.pass key limit log) reader pass).Remembers
          (history ∪ keys key (window key limit reader.floor log)) := h.read habove
      obtain ⟨hanswers, hfloor⟩ := ih _ hnext
      have hrest : above key (Run.next (fun reader (_ : Unit) => reader.pass key limit log) reader pass).floor log =
          (above key reader.floor log).drop limit := above_passed hlog
      have hread : fresh key reader.sent (window key limit reader.floor log) =
          fresh key history (window key limit reader.floor log) := h.fresh_eq habove.1
      have hwindow : window key (passes.length * limit)
          (Run.next (fun reader (_ : Unit) => reader.pass key limit log) reader pass).floor log =
            ((above key reader.floor log).drop limit).take (passes.length * limit) := congrArg (List.take _) hrest
      have hlimit : (pass :: passes).length * limit = limit + passes.length * limit := by
        rw [List.length_cons, Nat.succ_mul, Nat.add_comm]
      constructor
      · calc (Run.answers (fun reader (_ : Unit) => reader.pass key limit log) reader (pass :: passes)).flatten
            = fresh key reader.sent (window key limit reader.floor log) ++
                (Run.answers (fun reader (_ : Unit) => reader.pass key limit log)
                  (Run.next (fun reader (_ : Unit) => reader.pass key limit log) reader pass) passes).flatten := rfl
          _ = fresh key history (window key limit reader.floor log ++
                ((above key reader.floor log).drop limit).take (passes.length * limit)) := by
              rw [hread, hanswers, hwindow, ← fresh_append]
          _ = fresh key history (window key ((pass :: passes).length * limit) reader.floor log) := by
              rw [window, window, hlimit, List.take_add]
      · rw [Run.run_cons, hfloor, hrest, List.drop_drop, hlimit]

end Tailing
