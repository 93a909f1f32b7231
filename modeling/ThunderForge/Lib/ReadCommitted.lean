import Mathlib.Data.Fintype.Basic
import Mathlib.Logic.Function.Basic
import ThunderForge.Lib.Run

/-! Calls of several statements each that run at the same time on one database. A statement sees what is
committed and what its own call has written; it waits while another call holds a row it writes, and a row
written is held until its call ends. A statement also says what its call relies on, having read it before;
the rules are for the runs in which what is relied on still holds. -/

namespace ReadCommitted

variable {κ : Type}

/-- The rows of a database, by key. -/
abbrev Rows (ρ : κ → Type) := ∀ k, ρ k

/-- What a call has written and not yet committed. -/
abbrev Writes (ρ : κ → Type) := ∀ k, Option (ρ k)

/-- A call, committing with `α` or rolling back with `ε`. A statement writes some rows, is answered from
the state it sees, and relies on facts of the kinds `ℓ`. -/
inductive Call (ρ : κ → Type) (ℓ ε α : Type) : Type 1
  | done (result : α)
  | fail (error : ε)
  | statement {β : Type} (relies : ℓ → Rows ρ → Bool) (rows : Rows ρ → List κ) (value : Rows ρ → Rows ρ)
      (answer : Rows ρ → β) (next : β → Call ρ ℓ ε α)

variable {ρ : κ → Type} {ℓ ε α β : Type}

namespace Call

def bind (x : Call ρ ℓ ε α) (f : α → Call ρ ℓ ε β) : Call ρ ℓ ε β :=
  match x with
  | done result => f result
  | fail error => fail error
  | statement relies rows value answer next =>
    statement relies rows value answer fun b => (next b).bind f

instance : Monad (Call ρ ℓ ε) where
  pure := done
  bind := bind

theorem bind_pure (x : Call ρ ℓ ε α) : x.bind done = x := by
  induction x with
  | done result => rfl
  | fail error => rfl
  | statement relies rows value answer next ih => simp only [bind, ih]

theorem bind_assoc {γ : Type} (x : Call ρ ℓ ε α) (f : α → Call ρ ℓ ε β) (g : β → Call ρ ℓ ε γ) :
    (x.bind f).bind g = x.bind fun a => (f a).bind g := by
  induction x with
  | done result => rfl
  | fail error => rfl
  | statement relies rows value answer next ih => simp only [bind, ih]

instance : LawfulMonad (Call ρ ℓ ε) := LawfulMonad.mk' _ bind_pure (fun _ _ => rfl) bind_assoc

/-- Ask for something and change nothing. -/
def read (query : Rows ρ → α) : Call ρ ℓ ε α :=
  statement (fun _ _ => true) (fun _ => []) id query done

/-- Write one row, and get it as written: `UPDATE … RETURNING`. -/
def update [DecidableEq κ] (relies : ℓ → Rows ρ → Bool) (row : κ) (f : ρ row → ρ row) :
    Call ρ ℓ ε (ρ row) :=
  statement relies (fun _ => [row]) (fun db => Function.update db row (f (db row))) (fun db => f (db row)) done

/-- Write one row if it meets a condition, and learn whether it did: `UPDATE … WHERE`. -/
def updateWhere [DecidableEq κ] (row : κ) (condition : ρ row → Bool) (f : ρ row → ρ row) :
    Call ρ ℓ ε Bool :=
  statement (fun _ _ => true) (fun db => if condition (db row) then [row] else [])
    (fun db => Function.update db row (f (db row))) (fun db => condition (db row)) done

/-- Write the row a query finds, if it finds one, and ask something of the state before:
`UPDATE … WHERE … RETURNING`. -/
def updateFound [DecidableEq κ] (find : Rows ρ → Option κ) (write : ∀ row, ρ row → ρ row)
    (answer : Rows ρ → α) : Call ρ ℓ ε α :=
  statement (fun _ _ => true) (fun db => (find db).toList)
    (fun db => (find db).elim db fun row => Function.update db row (write row (db row))) answer done

/-- Write some rows if they are free, and learn whether they were: `INSERT`. -/
def insert (rows : List κ) (free : Rows ρ → Bool) (value : Rows ρ → Rows ρ) : Call ρ ℓ ε Bool :=
  statement (fun _ _ => true) (fun db => if free db then rows else []) value free done

/-- Hold some rows as they are, and ask for something: `SELECT … FOR UPDATE`. -/
def lock (rows : Rows ρ → List κ) (query : Rows ρ → α) : Call ρ ℓ ε α :=
  statement (fun _ _ => true) rows id query done

/-- Roll back with an error unless the condition holds. -/
def require (condition : Prop) [Decidable condition] (error : ε) : Call ρ ℓ ε Unit :=
  if condition then done () else fail error

/-- Roll back with an error unless there is a value. -/
def getOr (value : Option α) (error : ε) : Call ρ ℓ ε α := value.elim (fail error) done

/-- Do the same for every element, in order. -/
def forEach {γ : Type} (f : γ → Call ρ ℓ ε Unit) : List γ → Call ρ ℓ ε Unit
  | [] => done ()
  | x :: xs => (f x).bind fun _ => forEach f xs

/-- Roll back with the error there is. -/
def ofExcept : Except ε α → Call ρ ℓ ε α
  | .ok value => done value
  | .error error => fail error

end Call

/-- What a call sees. -/
def overlay (writes : Writes ρ) (db : Rows ρ) : Rows ρ := fun k => (writes k).getD (db k)

/-- What a call has written after one more statement. -/
def record [DecidableEq κ] (writes : Writes ρ) (rows : List κ) (value : Rows ρ) : Writes ρ :=
  fun k => if k ∈ rows then some (value k) else writes k

/-- A call with the database to itself: its answer and what it has written. -/
def Call.alone [DecidableEq κ] : Call ρ ℓ ε α → Writes ρ → Rows ρ → Except ε (α × Writes ρ)
  | done result, writes, _ => .ok (result, writes)
  | fail error, _, _ => .error error
  | statement _ rows value answer next, writes, db =>
    (next (answer (overlay writes db))).alone
      (record writes (rows (overlay writes db)) (value (overlay writes db))) db

section alone

variable [DecidableEq κ] (writes : Writes ρ) (db : Rows ρ)

theorem Call.alone_bind (x : Call ρ ℓ ε α) (f : α → Call ρ ℓ ε β) :
    (x >>= f).alone writes db = (x.alone writes db).bind fun (result, written) => (f result).alone written db := by
  change (x.bind f).alone writes db = _
  induction x generalizing writes with
  | done result => rfl
  | fail error => rfl
  | statement relies rows value answer next ih => exact ih _ _

variable {writes db}

theorem Call.alone_bind_ok {x : Call ρ ℓ ε α} {result : α} {written : Writes ρ}
    (h : x.alone writes db = .ok (result, written)) (f : α → Call ρ ℓ ε β) :
    (x >>= f).alone writes db = (f result).alone written db := by
  rw [alone_bind, h]
  rfl

theorem Call.alone_bind_error {x : Call ρ ℓ ε α} {error : ε} (h : x.alone writes db = .error error)
    (f : α → Call ρ ℓ ε β) : (x >>= f).alone writes db = .error error := by
  rw [alone_bind, h]
  rfl

theorem Call.alone_require_pos {condition : Prop} [Decidable condition] (h : condition) (error : ε) :
    (Call.require condition error : Call ρ ℓ ε Unit).alone writes db = .ok ((), writes) := by
  rw [Call.require, if_pos h]
  rfl

theorem Call.alone_require_neg {condition : Prop} [Decidable condition] (h : ¬condition) (error : ε) :
    (Call.require condition error : Call ρ ℓ ε Unit).alone writes db = .error error := by
  rw [Call.require, if_neg h]
  rfl

end alone

/-- How far a call has come. -/
inductive Progress (ρ : κ → Type) (ℓ ε α : Type) : Type 1
  | running (rest : Call ρ ℓ ε α) (writes : Writes ρ)
  | committed (result : α)
  | rolledBack (error : Option ε)

/-- The rows a call holds, with what it has written. -/
def Progress.held : Progress ρ ℓ ε α → Writes ρ
  | running _ writes => writes
  | committed _ | rolledBack _ => fun _ => none

/-- A commit: the call, its answer, what it wrote, and the database before. -/
structure Commit (n : Nat) (ρ : κ → Type) (α : Type) where
  call : Fin n
  result : α
  writes : Writes ρ
  before : Rows ρ

/-- The database, how far each call has come, and the commits so far, newest first. -/
structure System (n : Nat) (ρ : κ → Type) (ℓ ε α : Type) where
  db : Rows ρ
  call : Fin n → Progress ρ ℓ ε α
  commits : List (Commit n ρ α)

/-- A call takes its next step, or ends early: its client is gone, or the database gives it up. -/
inductive Action (n : Nat) where
  | step (i : Fin n)
  | abort (i : Fin n)

/-- No call has begun. -/
def System.start {n : Nat} (calls : Fin n → Call ρ ℓ ε α) (db : Rows ρ) : System n ρ ℓ ε α where
  db
  call i := .running (calls i) fun _ => none
  commits := []

/-- Another call holds one of the rows. -/
def System.Blocked {n : Nat} (s : System n ρ ℓ ε α) (i : Fin n) (rows : List κ) : Prop :=
  ∃ j, j ≠ i ∧ ∃ k ∈ rows, ((s.call j).held k).isSome

instance {n : Nat} (s : System n ρ ℓ ε α) (i : Fin n) (rows : List κ) : Decidable (s.Blocked i rows) :=
  inferInstanceAs (Decidable (∃ j, j ≠ i ∧ ∃ k ∈ rows, ((s.call j).held k).isSome))

/-- One call takes a step; a call that is blocked stays where it is. -/
def step [DecidableEq κ] {n : Nat} (s : System n ρ ℓ ε α) : Action n → System n ρ ℓ ε α
  | .abort i =>
    match s.call i with
    | .running _ _ => { s with call := Function.update s.call i (.rolledBack none) }
    | .committed _ | .rolledBack _ => s
  | .step i =>
    match s.call i with
    | .running (.done result) writes =>
      { db := overlay writes s.db
        call := Function.update s.call i (.committed result)
        commits := { call := i, result, writes, before := s.db } :: s.commits }
    | .running (.fail error) _ => { s with call := Function.update s.call i (.rolledBack (some error)) }
    | .running (.statement _ rows value answer next) writes =>
      let view := overlay writes s.db
      if s.Blocked i (rows view) then s
      else
        { s with
          call := Function.update s.call i
            (.running (next (answer view)) (record writes (rows view) (value view))) }
    | .committed _ | .rolledBack _ => s

/-- What the next statement of a call relies on, of the kinds given, holds when it takes effect. -/
def Relied (kinds : List ℓ) {n : Nat} (s : System n ρ ℓ ε α) : Action n → Prop
  | .abort _ => True
  | .step i =>
    match s.call i with
    | .running (.statement relies rows _ _ _) writes =>
      ¬s.Blocked i (rows (overlay writes s.db)) → ∀ kind ∈ kinds, relies kind (overlay writes s.db)
    | _ => True

instance (kinds : List ℓ) {n : Nat} (s : System n ρ ℓ ε α) (action : Action n) :
    Decidable (Relied kinds s action) :=
  match action with
  | .abort _ => inferInstanceAs (Decidable True)
  | .step i =>
    match h : s.call i with
    | .running (.statement relies rows _ _ _) writes =>
      decidable_of_iff (¬s.Blocked i (rows (overlay writes s.db)) →
        ∀ kind ∈ kinds, relies kind (overlay writes s.db)) (by rw [Relied, h])
    | .running (.done _) _ | .running (.fail _) _ | .committed _ | .rolledBack _ =>
      isTrue (by rw [Relied, h]; trivial)

theorem relied_nil {n : Nat} (s : System n ρ ℓ ε α) (action : Action n) : Relied [] s action := by
  unfold Relied
  split
  · trivial
  · split
    · exact fun _ kind hkind => absurd hkind List.not_mem_nil
    · trivial

/-- What calls may rely on from one another: the states that are valid, what the others may do to the
state while a call holds what it has written, and what each call has done to it at its commit. -/
structure Discipline (n : Nat) (ρ : κ → Type) (α : Type) where
  valid : Rows ρ → Prop
  rely : Writes ρ → Rows ρ → Rows ρ → Prop
  post : Fin n → Writes ρ → Rows ρ → α → Prop
  refl : ∀ writes db, rely writes db db
  trans : ∀ {writes db db' db''}, rely writes db db' → rely writes db' db'' → rely writes db db''
  keeps : ∀ {i writes db result}, valid db → post i writes db result → valid (overlay writes db)
  guarantees : ∀ {i writes others db result}, (∀ k, (writes k).isSome → others k = none) → valid db →
    post i writes db result → rely others db (overlay writes db)

/-- What a call finds later, when the others have kept to the discipline. -/
structure Discipline.Later {n : Nat} (discipline : Discipline n ρ β) (writes : Writes ρ) (db db' : Rows ρ) :
    Prop where
  valid : discipline.valid db'
  held : ∀ k, (writes k).isSome → db' k = db k
  rely : discipline.rely writes db db'

/-- The rest of a call, run among others that keep to the discipline, ends with `post`. -/
def Safe [DecidableEq κ] {n : Nat} (discipline : Discipline n ρ β) (kinds : List ℓ)
    (post : Writes ρ → Rows ρ → α → Prop) : Call ρ ℓ ε α → Writes ρ → Rows ρ → Prop
  | .done result, writes, db => ∀ db', discipline.Later writes db db' → post writes db' result
  | .fail _, _, _ => True
  | .statement relies rows value answer next, writes, db =>
    ∀ db', discipline.Later writes db db' → (∀ kind ∈ kinds, relies kind (overlay writes db')) →
      Safe discipline kinds post (next (answer (overlay writes db')))
        (record writes (rows (overlay writes db')) (value (overlay writes db'))) db'

/-- The commits lead from the first state to the last, each one with its `post` from a valid state. -/
def History {n : Nat} (discipline : Discipline n ρ α) (first : Rows ρ) : List (Commit n ρ α) → Rows ρ → Prop
  | [], last => first = last
  | commit :: earlier, last => History discipline first earlier commit.before ∧
      discipline.valid commit.before ∧ discipline.post commit.call commit.writes commit.before commit.result ∧
      overlay commit.writes commit.before = last

/-- The commits before one of them are a history of their own, and it was made from a valid state and did
what its call does. -/
theorem History.split {n : Nat} {discipline : Discipline n ρ α} {first last : Rows ρ}
    {later earlier : List (Commit n ρ α)} {commit : Commit n ρ α}
    (h : History discipline first (later ++ commit :: earlier) last) :
    History discipline first earlier commit.before ∧ discipline.valid commit.before ∧
      discipline.post commit.call commit.writes commit.before commit.result := by
  induction later generalizing last with
  | nil =>
      obtain ⟨hearlier, hvalid, hpost, -⟩ := h
      exact ⟨hearlier, hvalid, hpost⟩
  | cons latest later ih => exact ih h.1

/-- Each commit was made from a valid state, and did what its call does. -/
theorem History.of_mem {n : Nat} {discipline : Discipline n ρ α} {first last : Rows ρ}
    {commits : List (Commit n ρ α)} (h : History discipline first commits last) {commit : Commit n ρ α}
    (hcommit : commit ∈ commits) : discipline.valid commit.before ∧
      discipline.post commit.call commit.writes commit.before commit.result := by
  obtain ⟨later, earlier, rfl⟩ := List.append_of_mem hcommit
  exact h.split.2

/-- What each commit does to a part of the state, the commits do one after another. -/
theorem History.foldr {n : Nat} {discipline : Discipline n ρ α} {γ : Type} {observe : Rows ρ → γ}
    {effect : Commit n ρ α → γ → γ}
    (heffect : ∀ commit : Commit n ρ α, discipline.valid commit.before →
      discipline.post commit.call commit.writes commit.before commit.result →
      observe (overlay commit.writes commit.before) = effect commit (observe commit.before))
    {first last : Rows ρ} {commits : List (Commit n ρ α)} (h : History discipline first commits last) :
    observe last = commits.foldr effect (observe first) := by
  induction commits generalizing last with
  | nil => rw [List.foldr_nil, show first = last from h]
  | cons commit earlier ih =>
      obtain ⟨hearlier, hvalid, hpost, rfl⟩ := h
      rw [List.foldr_cons, heffect commit hvalid hpost, ih hearlier]

section overlay

variable {writes : Writes ρ} {db db' : Rows ρ} {k : κ}

@[simp] theorem overlay_none : overlay (fun _ => none) db = db := rfl

theorem overlay_of_isSome (db db' : Rows ρ) (h : (writes k).isSome) : overlay writes db k = overlay writes db' k := by
  obtain ⟨v, hv⟩ := Option.isSome_iff_exists.mp h
  simp [overlay, hv]

theorem overlay_of_none (h : writes k = none) : overlay writes db k = db k := by
  simp [overlay, h]

variable [DecidableEq κ]

@[simp] theorem record_nil {value : Rows ρ} : record writes [] value = writes := rfl

theorem record_of_mem {rows : List κ} {value : Rows ρ} (h : k ∈ rows) :
    record writes rows value k = some (value k) := if_pos h

theorem record_of_notMem {rows : List κ} {value : Rows ρ} (h : k ∉ rows) :
    record writes rows value k = writes k := if_neg h

theorem overlay_record_of_mem {rows : List κ} {value : Rows ρ} (h : k ∈ rows) :
    overlay (record writes rows value) db k = value k := by
  rw [overlay, record_of_mem h]
  rfl

theorem overlay_record_of_notMem {rows : List κ} {value : Rows ρ} (h : k ∉ rows) :
    overlay (record writes rows value) db k = overlay writes db k := by
  rw [overlay, overlay, record_of_notMem h]

/-- Rows held as they are change nothing that is seen. -/
theorem overlay_record_overlay (rows : List κ) :
    overlay (record writes rows (overlay writes db)) db = overlay writes db := by
  funext k
  by_cases hk : k ∈ rows
  · exact overlay_record_of_mem hk
  · exact overlay_record_of_notMem hk

theorem record_singleton (row : κ) (value : ρ row) (view : Rows ρ) :
    record writes [row] (Function.update view row value) = Function.update writes row (some value) := by
  funext k
  by_cases hk : k = row
  · subst hk
    simp [record]
  · simp [record, hk]

@[simp] theorem overlay_update (row : κ) (value : ρ row) :
    overlay (Function.update writes row (some value)) db = Function.update (overlay writes db) row value := by
  funext k
  by_cases hk : k = row
  · subst hk
    simp [overlay]
  · simp [overlay, hk]

end overlay

section exec

variable [DecidableEq κ] {db : Rows ρ}

/-- A call with the database to itself: its answer and the database it leaves. -/
def Call.exec (x : Call ρ ℓ ε α) (db : Rows ρ) : Except ε (α × Rows ρ) :=
  (x.alone (fun _ => none) db).map fun (result, written) => (result, overlay written db)

/-- What a call alone does depends on what it sees, however much of that it wrote itself. -/
theorem Call.alone_map_overlay (x : Call ρ ℓ ε α) (writes : Writes ρ) (db : Rows ρ) :
    ((x.alone writes db).map fun (result, written) => (result, overlay written db)) =
      x.exec (overlay writes db) := by
  unfold exec
  induction x generalizing writes db with
  | done result => rfl
  | fail error => rfl
  | statement relies rows value answer next ih =>
      have hseen : overlay (record writes (rows (overlay writes db)) (value (overlay writes db))) db =
          overlay (record (fun _ => none) (rows (overlay writes db)) (value (overlay writes db)))
            (overlay writes db) := by
        funext k
        by_cases hk : k ∈ rows (overlay writes db)
        · rw [overlay_record_of_mem hk, overlay_record_of_mem hk]
        · rw [overlay_record_of_notMem hk, overlay_record_of_notMem hk, overlay_none]
      calc ((statement relies rows value answer next).alone writes db).map _
        _ = ((next (answer (overlay writes db))).alone (fun _ => none) (overlay (record writes
              (rows (overlay writes db)) (value (overlay writes db))) db)).map _ := ih _ _ _
        _ = _ := by
            rw [hseen]
            exact (ih _ _ _).symm

theorem Call.exec_bind (x : Call ρ ℓ ε α) (f : α → Call ρ ℓ ε β) (db : Rows ρ) :
    (x >>= f).exec db = (x.exec db).bind fun (a, db') => (f a).exec db' := by
  have hbind : (x >>= f).exec db = ((x.alone (fun _ => none) db).bind fun (a, written) =>
      (f a).alone written db).map fun (result, written) => (result, overlay written db) := by
    rw [exec, alone_bind]
  rw [hbind, exec]
  cases x.alone (fun _ => none) db with
  | error error => rfl
  | ok result => exact alone_map_overlay (f result.1) result.2 db

theorem Call.exec_bind_eq_ok {x : Call ρ ℓ ε α} {f : α → Call ρ ℓ ε β} {r : β × Rows ρ} :
    (x >>= f).exec db = .ok r ↔ ∃ a db', x.exec db = .ok (a, db') ∧ (f a).exec db' = .ok r := by
  rw [exec_bind]
  cases x.exec db with
  | error error => simp [Except.bind]
  | ok result =>
      obtain ⟨a, db'⟩ := result
      simp [Except.bind, and_assoc]

@[simp] theorem Call.exec_pure (result : α) (db : Rows ρ) :
    (pure result : Call ρ ℓ ε α).exec db = .ok (result, db) := rfl

theorem Call.exec_pure_eq_ok {result a : α} {db' : Rows ρ} :
    (pure result : Call ρ ℓ ε α).exec db = .ok (a, db') ↔ result = a ∧ db = db' := by
  rw [exec_pure, Except.ok.injEq, Prod.mk.injEq]

theorem Call.exec_read (query : Rows ρ → α) (db : Rows ρ) :
    (Call.read query : Call ρ ℓ ε α).exec db = .ok (query db, db) := rfl

theorem Call.exec_read_bind_eq_ok {query : Rows ρ → α} {f : α → Call ρ ℓ ε β} {r : β × Rows ρ} :
    (Call.read query >>= f).exec db = .ok r ↔ (f (query db)).exec db = .ok r := Iff.rfl

theorem Call.exec_require_bind_eq_ok {condition : Prop} [Decidable condition] {error : ε}
    {f : Unit → Call ρ ℓ ε β} {r : β × Rows ρ} :
    (Call.require condition error >>= f).exec db = .ok r ↔ condition ∧ (f ()).exec db = .ok r := by
  unfold require
  split_ifs with h
  · exact ⟨fun hrest => ⟨h, hrest⟩, And.right⟩
  · exact iff_of_false nofun fun hrest => h hrest.1

theorem Call.exec_getOr_bind_eq_ok {value : Option α} {error : ε} {f : α → Call ρ ℓ ε β} {r : β × Rows ρ} :
    (Call.getOr value error >>= f).exec db = .ok r ↔ ∃ a, value = some a ∧ (f a).exec db = .ok r := by
  cases value with
  | none => exact iff_of_false nofun fun ⟨_, h, _⟩ => nomatch h
  | some a => exact ⟨fun h => ⟨a, rfl, h⟩, fun ⟨_, h, hrest⟩ => Option.some.inj h ▸ hrest⟩

theorem Call.exec_update (relies : ℓ → Rows ρ → Bool) (row : κ) (f : ρ row → ρ row) (db : Rows ρ) :
    (Call.update relies row f : Call ρ ℓ ε (ρ row)).exec db =
      .ok (f (db row), Function.update db row (f (db row))) := by
  change Except.ok (f (db row), overlay (record (fun _ => none) [row] (Function.update db row (f (db row)))) db) = _
  rw [record_singleton, overlay_update, overlay_none]

theorem Call.exec_updateWhere (row : κ) (condition : ρ row → Bool) (f : ρ row → ρ row) (db : Rows ρ) :
    (Call.updateWhere row condition f : Call ρ ℓ ε Bool).exec db =
      .ok (condition (db row), if condition (db row) then Function.update db row (f (db row)) else db) := by
  change Except.ok (condition (db row), overlay (record (fun _ => none) (if condition (db row) then [row] else [])
    (Function.update db row (f (db row)))) db) = _
  split_ifs with hmet
  · rw [record_singleton, overlay_update, overlay_none]
  · rfl

end exec

section Safe

variable {n : Nat} {discipline : Discipline n ρ β} {kinds : List ℓ} {γ : Type}
  {post : Writes ρ → Rows ρ → α → Prop} {writes : Writes ρ} {db db' db'' : Rows ρ}

namespace Discipline

theorem Later.refl (h : discipline.valid db) : discipline.Later writes db db where
  valid := h
  held _ _ := rfl
  rely := discipline.refl _ _

theorem Later.trans (h : discipline.Later writes db db') (h' : discipline.Later writes db' db'') :
    discipline.Later writes db db'' where
  valid := h'.valid
  held k hk := (h'.held k hk).trans (h.held k hk)
  rely := discipline.trans h.rely h'.rely

/-- One more row written is one more that the others leave alone. -/
theorem Later.of_update [DecidableEq κ] {row : κ} {value : ρ row}
    (h : discipline.Later (Function.update writes row (some value)) db db')
    (hrely : discipline.rely writes db db') : discipline.Later writes db db' where
  valid := h.valid
  held k hk := by
    refine h.held k ?_
    by_cases hrow : k = row
    · subst hrow
      simp
    · rwa [Function.update_of_ne hrow]
  rely := hrely

end Discipline

variable [DecidableEq κ]

theorem Safe.later {x : Call ρ ℓ ε α} (h : Safe discipline kinds post x writes db)
    (hlater : discipline.Later writes db db') : Safe discipline kinds post x writes db' := by
  cases x with
  | done result => exact fun db'' hdb'' => h db'' (hlater.trans hdb'')
  | fail error => trivial
  | statement relies rows value answer next =>
      exact fun db'' hdb'' hrelied => h db'' (hlater.trans hdb'') hrelied

/-- A call that ends with more than is asked for. -/
theorem Safe.mono {x : Call ρ ℓ ε α} {post' : Writes ρ → Rows ρ → α → Prop}
    (h : Safe discipline kinds post x writes db)
    (hpost : ∀ writes' db' result, post writes' db' result → post' writes' db' result) :
    Safe discipline kinds post' x writes db := by
  induction x generalizing writes db with
  | done result => exact fun db' hdb' => hpost _ _ _ (h db' hdb')
  | fail error => trivial
  | statement relies rows value answer next ih => exact fun db' hdb' hrelied => ih _ (h db' hdb' hrelied)

theorem Safe.pure {result : α} (h : ∀ db', discipline.Later writes db db' → post writes db' result) :
    Safe discipline kinds post (Pure.pure result : Call ρ ℓ ε α) writes db := h

/-- A call in two parts: what the first ends with is what the second begins with. -/
theorem Safe.bind {x : Call ρ ℓ ε γ} {f : γ → Call ρ ℓ ε α} {mid : Writes ρ → Rows ρ → γ → Prop}
    (hx : Safe discipline kinds mid x writes db) (hvalid : discipline.valid db)
    (hf : ∀ writes' db' c, discipline.valid db' → mid writes' db' c →
      Safe discipline kinds post (f c) writes' db') :
    Safe discipline kinds post (x >>= f) writes db := by
  change Safe discipline kinds post (x.bind f) writes db
  induction x generalizing writes db with
  | done result => exact hf writes db result hvalid (hx db (.refl hvalid))
  | fail error => trivial
  | statement relies rows value answer next ih =>
      exact fun db' hdb' hrelied => ih _ (hx db' hdb' hrelied) hdb'.valid

theorem Safe.read_bind {query : Rows ρ → γ} {f : γ → Call ρ ℓ ε α}
    (h : ∀ db', discipline.Later writes db db' →
      Safe discipline kinds post (f (query (overlay writes db'))) writes db') :
    Safe discipline kinds post (Call.read query >>= f) writes db :=
  fun db' hdb' _ => h db' hdb'

theorem Safe.update_bind {relies : ℓ → Rows ρ → Bool} {row : κ} {g : ρ row → ρ row}
    {f : ρ row → Call ρ ℓ ε α}
    (h : ∀ db', discipline.Later writes db db' → (∀ kind ∈ kinds, relies kind (overlay writes db')) →
      Safe discipline kinds post (f (g (overlay writes db' row)))
        (Function.update writes row (some (g (overlay writes db' row)))) db') :
    Safe discipline kinds post (Call.update relies row g >>= f) writes db := by
  intro db' hdb' hrelied
  simpa only [record_singleton] using! h db' hdb' hrelied

theorem Safe.updateWhere_bind {row : κ} {condition : ρ row → Bool} {g : ρ row → ρ row}
    {f : Bool → Call ρ ℓ ε α}
    (hwritten : ∀ db', discipline.Later writes db db' → condition (overlay writes db' row) = true →
      Safe discipline kinds post (f true)
        (Function.update writes row (some (g (overlay writes db' row)))) db')
    (hkept : ∀ db', discipline.Later writes db db' → condition (overlay writes db' row) = false →
      Safe discipline kinds post (f false) writes db') :
    Safe discipline kinds post (Call.updateWhere row condition g >>= f) writes db := by
  intro db' hdb' _
  change Safe discipline kinds post (f (condition (overlay writes db' row))) (record writes
    (if condition (overlay writes db' row) then [row] else []) _) db'
  cases hcondition : condition (overlay writes db' row) with
  | false => exact hkept db' hdb' hcondition
  | true => simpa only [if_true, record_singleton] using hwritten db' hdb' hcondition

theorem Safe.updateFound_bind {find : Rows ρ → Option κ} {write : ∀ row, ρ row → ρ row}
    {answer : Rows ρ → γ} {f : γ → Call ρ ℓ ε α}
    (hwritten : ∀ db' row, discipline.Later writes db db' → find (overlay writes db') = some row →
      Safe discipline kinds post (f (answer (overlay writes db')))
        (Function.update writes row (some (write row (overlay writes db' row)))) db')
    (hkept : ∀ db', discipline.Later writes db db' → find (overlay writes db') = none →
      Safe discipline kinds post (f (answer (overlay writes db'))) writes db') :
    Safe discipline kinds post (Call.updateFound find write answer >>= f) writes db := by
  intro db' hdb' _
  change Safe discipline kinds post (f (answer (overlay writes db'))) (record writes
    (find (overlay writes db')).toList _) db'
  cases hfind : find (overlay writes db') with
  | none => exact hkept db' hdb' hfind
  | some row =>
      simpa only [hfind, Option.toList_some, Option.elim_some, record_singleton] using! hwritten db' row hdb' hfind

theorem Safe.insert_bind {rows : List κ} {free : Rows ρ → Bool} {value : Rows ρ → Rows ρ}
    {f : Bool → Call ρ ℓ ε α}
    (hwritten : ∀ db', discipline.Later writes db db' → free (overlay writes db') = true →
      Safe discipline kinds post (f true) (record writes rows (value (overlay writes db'))) db')
    (hkept : ∀ db', discipline.Later writes db db' → free (overlay writes db') = false →
      Safe discipline kinds post (f false) writes db') :
    Safe discipline kinds post (Call.insert rows free value >>= f) writes db := by
  intro db' hdb' _
  change Safe discipline kinds post (f (free (overlay writes db'))) (record writes
    (if free (overlay writes db') then rows else []) _) db'
  cases hfree : free (overlay writes db') with
  | false => exact hkept db' hdb' hfree
  | true => exact hwritten db' hdb' hfree

theorem Safe.lock_bind {rows : Rows ρ → List κ} {query : Rows ρ → γ} {f : γ → Call ρ ℓ ε α}
    (h : ∀ db', discipline.Later writes db db' →
      Safe discipline kinds post (f (query (overlay writes db')))
        (record writes (rows (overlay writes db')) (overlay writes db')) db') :
    Safe discipline kinds post (Call.lock rows query >>= f) writes db :=
  fun db' hdb' _ => h db' hdb'

theorem Safe.require_bind {condition : Prop} [Decidable condition] {error : ε} {f : Unit → Call ρ ℓ ε α}
    (h : condition → Safe discipline kinds post (f ()) writes db) :
    Safe discipline kinds post (Call.require condition error >>= f) writes db := by
  unfold Call.require
  split_ifs with hcondition
  · exact h hcondition
  · trivial

theorem Safe.getOr_bind {value : Option γ} {error : ε} {f : γ → Call ρ ℓ ε α}
    (h : ∀ c, value = some c → Safe discipline kinds post (f c) writes db) :
    Safe discipline kinds post (Call.getOr value error >>= f) writes db := by
  cases value with
  | none => trivial
  | some c => exact h c rfl

end Safe

section Sound

variable [DecidableEq κ] {n : Nat} {discipline : Discipline n ρ α} {kinds : List ℓ} {first : Rows ρ}
  {s : System n ρ ℓ ε α}

/-- What a call is still to do is safe. -/
def Progress.Safe (discipline : Discipline n ρ α) (kinds : List ℓ) (i : Fin n) (db : Rows ρ) :
    Progress ρ ℓ ε α → Prop
  | running rest writes => ReadCommitted.Safe discipline kinds (discipline.post i) rest writes db
  | committed _ | rolledBack _ => True

/-- What holds at every state of a run in which what the calls rely on holds: the state is valid, its
history is one of commits that keep to the discipline, no row is held twice, every call is safe. -/
structure Sound (discipline : Discipline n ρ α) (kinds : List ℓ) (first : Rows ρ)
    (s : System n ρ ℓ ε α) : Prop where
  valid : discipline.valid s.db
  history : History discipline first s.commits s.db
  exclusive : ∀ i j, i ≠ j → ∀ k, ((s.call i).held k).isSome → (s.call j).held k = none
  safe : ∀ i, (s.call i).Safe discipline kinds i s.db

theorem Sound.start {calls : Fin n → Call ρ ℓ ε α} (hvalid : discipline.valid first)
    (hsafe : ∀ i, Safe discipline kinds (discipline.post i) (calls i) (fun _ => none) first) :
    Sound discipline kinds first (System.start calls first) where
  valid := hvalid
  history := rfl
  exclusive _ _ _ _ h := by simp [System.start, Progress.held] at h
  safe := hsafe

/-- A call goes on, having written what the others do not hold. -/
theorem Sound.goOn (h : Sound discipline kinds first s) {i : Fin n} {progress : Progress ρ ℓ ε α}
    (hheld : ∀ k, (progress.held k).isSome → ((s.call i).held k).isSome ∨ ∀ j, j ≠ i → (s.call j).held k = none)
    (hsafe : progress.Safe discipline kinds i s.db) :
    Sound discipline kinds first { s with call := Function.update s.call i progress } where
  valid := h.valid
  history := h.history
  exclusive a b hab k hk := by
    have hothers (j : Fin n) (hj : j ≠ i) (hk' : (progress.held k).isSome) : (s.call j).held k = none := by
      rcases hheld k hk' with hold | hfree
      · exact h.exclusive i j hj.symm k hold
      · exact hfree j hj
    by_cases ha : a = i
    · subst ha
      simp only [Function.update_self, Function.update_of_ne hab.symm] at hk ⊢
      exact hothers b hab.symm hk
    · by_cases hb : b = i
      · subst hb
        simp only [Function.update_self, Function.update_of_ne hab] at hk ⊢
        by_contra hnot
        rw [hothers a hab (Option.isSome_iff_ne_none.mpr hnot)] at hk
        exact nomatch hk
      · simp only [Function.update_of_ne ha, Function.update_of_ne hb] at hk ⊢
        exact h.exclusive a b hab k hk
  safe j := by
    by_cases hj : j = i
    · subst hj
      simpa using hsafe
    · simpa [hj] using h.safe j

/-- A call commits: what the others hold stays as it was. -/
theorem Sound.commit (h : Sound discipline kinds first s) {i : Fin n} {result : α} {writes : Writes ρ}
    (hcall : s.call i = .running (.done result) writes) :
    Sound discipline kinds first
      { db := overlay writes s.db
        call := Function.update s.call i (.committed result)
        commits := { call := i, result, writes, before := s.db } :: s.commits } := by
  have hpost : discipline.post i writes s.db result := by
    have hsafe := h.safe i
    rw [hcall] at hsafe
    exact hsafe s.db (.refl h.valid)
  have hfree (j : Fin n) (hj : j ≠ i) (k : κ) (hk : (writes k).isSome) : (s.call j).held k = none :=
    h.exclusive i j hj.symm k (by rwa [hcall])
  have hvalid := discipline.keeps h.valid hpost
  have hlater (j : Fin n) (hj : j ≠ i) : discipline.Later (s.call j).held s.db (overlay writes s.db) :=
    { valid := hvalid
      held := fun k hk => by
        refine overlay_of_none ?_
        by_contra hnot
        rw [hfree j hj k (Option.isSome_iff_ne_none.mpr hnot)] at hk
        exact nomatch hk
      rely := discipline.guarantees (hfree j hj) h.valid hpost }
  have hgone : Sound discipline kinds first { s with call := Function.update s.call i (.committed result) } :=
    h.goOn (fun k hk => absurd hk (by simp [Progress.held])) trivial
  exact
    { valid := hvalid
      history := ⟨h.history, h.valid, hpost, rfl⟩
      exclusive := hgone.exclusive
      safe := fun j => by
        by_cases hj : j = i
        · subst hj
          simp [Progress.Safe]
        · have hold := h.safe j
          simp only [Function.update_of_ne hj]
          cases hprogress : s.call j with
          | running rest writes' =>
              rw [hprogress] at hold
              have := hlater j hj
              rw [hprogress] at this
              exact hold.later this
          | committed result' => trivial
          | rolledBack error => trivial }

theorem Sound.step (h : Sound discipline kinds first s) (action : Action n) (hrelied : Relied kinds s action) :
    Sound discipline kinds first (step s action) := by
  have hend (i : Fin n) (error : Option ε) :
      Sound discipline kinds first { s with call := Function.update s.call i (.rolledBack error) } :=
    h.goOn (fun k hk => absurd hk (by simp [Progress.held])) trivial
  cases action with
  | abort i =>
      simp only [ReadCommitted.step]
      split
      · exact hend i none
      · exact h
      · exact h
  | step i =>
      simp only [ReadCommitted.step]
      split
      case h_1 result writes hcall => exact h.commit hcall
      case h_2 error writes hcall => exact hend i (some error)
      case h_3 relies rows value answer next writes hcall =>
          have hsafe := h.safe i
          simp only [hcall, Relied, Progress.Safe] at hrelied hsafe
          split_ifs with hblocked
          · exact h
          · refine h.goOn (fun k hk => ?_) ?_
            · by_cases hmem : k ∈ rows (overlay writes s.db)
              · refine .inr fun j hj => ?_
                by_contra hnot
                exact hblocked ⟨j, hj, k, hmem, Option.isSome_iff_ne_none.mpr hnot⟩
              · rw [hcall]
                rw [Progress.held, record_of_notMem hmem] at hk
                exact .inl hk
            · exact hsafe s.db (.refl h.valid) (hrelied hblocked)
      case h_4 => exact h
      case h_5 => exact h

/-- Every run of safe calls, at whose statements what they rely on holds, keeps to the discipline. -/
theorem Sound.run {calls : Fin n → Call ρ ℓ ε α} (hvalid : discipline.valid first)
    (hsafe : ∀ i, Safe discipline kinds (discipline.post i) (calls i) (fun _ => none) first)
    {actions : List (Action n)}
    (hmeets : Run.Meets ReadCommitted.step (Relied kinds) (System.start calls first) actions) :
    Sound discipline kinds first (Run.run ReadCommitted.step (System.start calls first) actions) :=
  hmeets.invariant (fun _ action h hrelied => h.step action hrelied) (.start hvalid hsafe)

/-- What the calls may rely on from one another holds from each state of such a run to every later one. -/
theorem Sound.rely_run (h : Sound discipline kinds first s) {actions : List (Action n)}
    (hmeets : Run.Meets ReadCommitted.step (Relied kinds) s actions) :
    discipline.rely (fun _ => none) s.db (Run.run ReadCommitted.step s actions).db := by
  have hstep (s : System n ρ ℓ ε α) (h : Sound discipline kinds first s) (action : Action n) :
      discipline.rely (fun _ => none) s.db (ReadCommitted.step s action).db := by
    have hsame := discipline.refl (fun _ => none) s.db
    cases action with
    | abort i =>
        simp only [ReadCommitted.step]
        split <;> exact hsame
    | step i =>
        simp only [ReadCommitted.step]
        split
        case h_1 result writes hcall =>
            have hsafe := h.safe i
            rw [hcall] at hsafe
            exact discipline.guarantees (fun _ _ => rfl) h.valid (hsafe s.db (.refl h.valid))
        case h_2 => exact hsame
        case h_3 => split_ifs <;> exact hsame
        case h_4 => exact hsame
        case h_5 => exact hsame
  induction actions generalizing s with
  | nil => exact discipline.refl _ _
  | cons action actions ih =>
      exact discipline.trans (hstep s h action) (ih (h.step action hmeets.1) hmeets.2)

end Sound

end ReadCommitted
