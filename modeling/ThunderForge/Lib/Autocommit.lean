import Mathlib.Tactic.SplitIfs

/-! Calls on a database outside a transaction. Each statement takes effect when it is made, and an error keeps what was
written before it. -/

/-- A call over states `σ`, failing with `ε` or answering with `α`. -/
def Autocommit (σ ε α : Type) : Type := σ → Except ε α × σ

namespace Autocommit

variable {σ ε α β : Type}

def done (result : α) : Autocommit σ ε α := fun s => (.ok result, s)

def fail (error : ε) : Autocommit σ ε α := fun s => (.error error, s)

def bind (x : Autocommit σ ε α) (f : α → Autocommit σ ε β) : Autocommit σ ε β := fun s =>
  match x s with
  | (.ok a, s') => f a s'
  | (.error error, s') => (.error error, s')

instance : Monad (Autocommit σ ε) where
  pure := done
  bind := bind

/-- Fail with an error unless the condition holds. -/
def require (condition : Prop) [Decidable condition] (error : ε) : Autocommit σ ε Unit :=
  if condition then done () else fail error

/-- A statement that reads, or the error the database fails it with. -/
def read (fault : Option ε) (query : σ → Except ε α) : Autocommit σ ε α := fun s =>
  match fault with
  | some error => (.error error, s)
  | none => (query s, s)

/-- A statement that writes, or the error the database fails it with. -/
def write (fault : Option ε) (apply : σ → σ) : Autocommit σ ε Unit := fun s =>
  match fault with
  | some error => (.error error, s)
  | none => (.ok (), apply s)

/-- A statement whose failure is passed over. -/
def attempt (fault : Option ε) (apply : σ → σ) : Autocommit σ ε Unit := fun s => (.ok (), if fault.isSome then s else apply s)

/-- Do something when there is something to do it with. -/
def whenSome (value : Option α) (f : α → Autocommit σ ε Unit) : Autocommit σ ε Unit := value.elim (done ()) f

@[simp] theorem pure_run (result : α) (s : σ) : (pure result : Autocommit σ ε α) s = (.ok result, s) := rfl

@[simp] theorem done_run (result : α) (s : σ) : (done result : Autocommit σ ε α) s = (.ok result, s) := rfl

@[simp] theorem fail_run (error : ε) (s : σ) : (fail error : Autocommit σ ε α) s = (.error error, s) := rfl

@[simp] theorem read_run (query : σ → Except ε α) (s : σ) : read none query s = (query s, s) := rfl

@[simp] theorem read_fault (error : ε) (query : σ → Except ε α) (s : σ) :
    read (some error) query s = (.error error, s) := rfl

@[simp] theorem write_run (apply : σ → σ) (s : σ) : (write none apply : Autocommit σ ε Unit) s = (.ok (), apply s) := rfl

@[simp] theorem write_fault (error : ε) (apply : σ → σ) (s : σ) : write (some error) apply s = (.error error, s) := rfl

@[simp] theorem attempt_run (apply : σ → σ) (s : σ) : (attempt none apply : Autocommit σ ε Unit) s = (.ok (), apply s) :=
  rfl

@[simp] theorem whenSome_none (f : α → Autocommit σ ε Unit) : whenSome none f = done () := rfl

@[simp] theorem whenSome_some (value : α) (f : α → Autocommit σ ε Unit) : whenSome (some value) f = f value := rfl

/-- What follows a part that succeeds. -/
theorem bind_of_ok {x : Autocommit σ ε α} {f : α → Autocommit σ ε β} {s s' : σ} {a : α} (h : x s = (.ok a, s')) :
    (x >>= f) s = f a s' := by
  change x.bind f s = _
  unfold bind
  rw [h]

/-- A part that fails ends the call. -/
theorem bind_of_error {x : Autocommit σ ε α} {f : α → Autocommit σ ε β} {s s' : σ} {error : ε}
    (h : x s = (.error error, s')) : (x >>= f) s = (.error error, s') := by
  change x.bind f s = _
  unfold bind
  rw [h]

theorem require_run {condition : Prop} [Decidable condition] {error : ε} (h : condition) (s : σ) :
    (require condition error : Autocommit σ ε Unit) s = (.ok (), s) := by
  unfold require
  rw [if_pos h, done_run]

instance : LawfulMonad (Autocommit σ ε) := by
  refine LawfulMonad.mk' _ (fun x => ?_) (fun _ _ => rfl) fun x f g => ?_
  · funext s
    change x.bind done s = x s
    unfold bind
    rcases x s with ⟨_ | _, _⟩ <;> rfl
  · funext s
    change (x.bind f).bind g s = x.bind (fun a => (f a).bind g) s
    unfold bind
    rcases x s with ⟨_ | _, _⟩ <;> rfl

/-- A sequence succeeds when its first part does and then its second. -/
theorem bind_eq_ok {x : Autocommit σ ε α} {f : α → Autocommit σ ε β} {s s' : σ} {b : β} :
    (x >>= f) s = (.ok b, s') ↔ ∃ a s₁, x s = (.ok a, s₁) ∧ f a s₁ = (.ok b, s') := by
  cases hx : x s with
  | mk answer s₁ =>
      cases answer with
      | ok a =>
          rw [bind_of_ok hx]
          constructor
          · exact fun h => ⟨a, s₁, rfl, h⟩
          · rintro ⟨a', s₁', heq, h⟩
            obtain ⟨ha, rfl⟩ := Prod.mk.inj heq
            obtain rfl := Except.ok.inj ha
            exact h
      | error error =>
          rw [bind_of_error hx]
          constructor
          · intro h
            exact nomatch (Prod.mk.inj h).1
          · rintro ⟨a', s₁', heq, -⟩
            exact nomatch (Prod.mk.inj heq).1

theorem read_eq_ok {fault : Option ε} {query : σ → Except ε α} {s s' : σ} {a : α} :
    read fault query s = (.ok a, s') ↔ fault = none ∧ query s = .ok a ∧ s = s' := by
  cases fault with
  | none => simp [Prod.ext_iff]
  | some error => simp

theorem write_eq_ok {fault : Option ε} {apply : σ → σ} {s s' : σ} {u : Unit} :
    write fault apply s = (.ok u, s') ↔ fault = none ∧ apply s = s' := by
  cases fault with
  | none => simp
  | some error => simp

theorem require_eq_ok {condition : Prop} [Decidable condition] {error : ε} {s s' : σ} {u : Unit} :
    (require condition error : Autocommit σ ε Unit) s = (.ok u, s') ↔ condition ∧ s = s' := by
  unfold require
  split_ifs with h <;> simp [h]

/-- A call that is not refused. -/
def Answers (x : Autocommit σ ε α) (s : σ) : Prop := ∃ answer s', x s = (.ok answer, s')

theorem answers_bind {x : Autocommit σ ε α} {f : α → Autocommit σ ε β} {s : σ} :
    (x >>= f).Answers s ↔ ∃ a s₁, x s = (.ok a, s₁) ∧ (f a).Answers s₁ := by
  unfold Answers
  constructor
  · rintro ⟨answer, s', h⟩
    obtain ⟨a, s₁, hx, hf⟩ := bind_eq_ok.mp h
    exact ⟨a, s₁, hx, answer, s', hf⟩
  · rintro ⟨a, s₁, hx, answer, s', hf⟩
    exact ⟨answer, s', bind_eq_ok.mpr ⟨a, s₁, hx, hf⟩⟩

theorem answers_done (result : α) (s : σ) : (pure result : Autocommit σ ε α).Answers s := ⟨result, s, rfl⟩

/-- A statement that always finds something answers unless the database fails it. -/
theorem answers_read_bind {fault : Option ε} {query : σ → Except ε α} {f : α → Autocommit σ ε β} {s : σ} {a : α}
    (h : query s = .ok a) : (read fault query >>= f).Answers s ↔ fault = none ∧ (f a).Answers s := by
  rw [answers_bind]
  constructor
  · rintro ⟨a', s₁, hread, hf⟩
    obtain ⟨hfault, ha, rfl⟩ := read_eq_ok.mp hread
    obtain rfl := Except.ok.inj (h.symm.trans ha)
    exact ⟨hfault, hf⟩
  · rintro ⟨hfault, hf⟩
    exact ⟨a, s, read_eq_ok.mpr ⟨hfault, h, rfl⟩, hf⟩

theorem answers_ask_bind {fault : Option ε} {query : σ → α} {f : α → Autocommit σ ε β} {s : σ} :
    (read fault (fun s => .ok (query s)) >>= f).Answers s ↔ fault = none ∧ (f (query s)).Answers s :=
  answers_read_bind rfl

/-- Do the same for every element, in order. -/
def forEach {γ : Type} (f : γ → Autocommit σ ε Unit) : List γ → Autocommit σ ε Unit
  | [] => done ()
  | x :: xs => do
    f x
    forEach f xs

theorem forEach_append {γ : Type} (f : γ → Autocommit σ ε Unit) (xs ys : List γ) :
    forEach f (xs ++ ys) = forEach f xs >>= fun _ => forEach f ys := by
  induction xs with
  | nil => rfl
  | cons x xs ih => simp only [List.cons_append, forEach, ih, bind_assoc]

theorem forEach_toList {γ δ : Type} (f : γ → Autocommit σ ε Unit) (g : δ → γ) (value : Option δ) :
    forEach f (value.map g).toList = whenSome value fun d => f (g d) := by
  cases value with
  | none => rfl
  | some d => exact bind_pure_unit (x := f (g d))

/-- A call that writes nothing, whether it fails or not. -/
def ReadOnly (x : Autocommit σ ε α) : Prop := ∀ s, (x s).2 = s

theorem ReadOnly.bind {x : Autocommit σ ε α} {f : α → Autocommit σ ε β} (hx : ReadOnly x) (hf : ∀ a, ReadOnly (f a)) :
    ReadOnly (x >>= f) := by
  intro s
  have hs := hx s
  cases hrun : x s with
  | mk answer s' =>
      rw [hrun] at hs
      obtain rfl : s' = s := hs
      cases answer with
      | ok a =>
          rw [bind_of_ok hrun]
          exact hf a s'
      | error error => rw [bind_of_error hrun]

theorem ReadOnly.done (result : α) : ReadOnly (done result : Autocommit σ ε α) := fun _ => rfl

theorem ReadOnly.read (fault : Option ε) (query : σ → Except ε α) : ReadOnly (read fault query) := by
  intro s
  cases fault <;> rfl

theorem ReadOnly.require (condition : Prop) [Decidable condition] (error : ε) :
    ReadOnly (require condition error : Autocommit σ ε Unit) := by
  intro s
  unfold Autocommit.require
  split_ifs <;> rfl

end Autocommit
