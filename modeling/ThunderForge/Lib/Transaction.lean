import Mathlib.Data.List.Basic

/-! Database transactions as programs of statements. A statement locks some rows, is answered from the
state it sees, and changes the state; an error rolls everything back. `exec` runs a transaction alone. -/

/-- A transaction over states `σ` with rows `κ`, failing with `ε` or answering with `α`. -/
inductive Transaction (σ κ ε : Type) (α : Type) : Type 1
  | done (result : α)
  | fail (error : ε)
  | statement {β : Type} (rows : σ → List κ) (answer : σ → Except ε β) (apply : σ → σ)
      (next : β → Transaction σ κ ε α)

namespace Transaction

variable {σ κ ε ε' α β : Type}

def bind (x : Transaction σ κ ε α) (f : α → Transaction σ κ ε β) : Transaction σ κ ε β :=
  match x with
  | done result => f result
  | fail error => fail error
  | statement rows answer apply next => statement rows answer apply fun b => (next b).bind f

instance : Monad (Transaction σ κ ε) where
  pure := done
  bind := bind

/-- Ask for something and change nothing. -/
def read (query : σ → α) : Transaction σ κ ε α :=
  statement (fun _ => []) (fun s => .ok (query s)) id done

/-- Change the rows named, or fail. -/
def write (rows : σ → List κ) (answer : σ → Except ε α) (apply : σ → σ) : Transaction σ κ ε α :=
  statement rows answer apply done

/-- `SELECT … FOR UPDATE` of one row. -/
def lock (row : κ) : Transaction σ κ ε Unit :=
  statement (fun _ => [row]) (fun _ => .ok ()) id done

/-- Fail with an error unless the condition holds. -/
def require (condition : Prop) [Decidable condition] (error : ε) : Transaction σ κ ε Unit :=
  if condition then done () else fail error

/-- Fail with an error unless there is a value. -/
def getOr (value : Option α) (error : ε) : Transaction σ κ ε α := value.elim (fail error) done

/-- Do the same for every element, in order. -/
def forEach {γ : Type} (f : γ → Transaction σ κ ε Unit) : List γ → Transaction σ κ ε Unit
  | [] => done ()
  | x :: xs => (f x).bind fun _ => forEach f xs

/-- Report errors in other words. -/
def mapError (f : ε → ε') : Transaction σ κ ε α → Transaction σ κ ε' α
  | done result => done result
  | fail error => fail (f error)
  | statement rows answer apply next =>
    statement rows (fun s => (answer s).mapError f) apply fun b => (next b).mapError f

/-- Run a transaction alone: its answer and the state it leaves, or its error. -/
def exec : Transaction σ κ ε α → σ → Except ε (α × σ)
  | done result, s => .ok (result, s)
  | fail error, _ => .error error
  | statement _ answer apply next, s =>
    match answer s with
    | .error error => .error error
    | .ok b => (next b).exec (apply s)

@[simp] theorem exec_done (result : α) (s : σ) :
    (done result : Transaction σ κ ε α).exec s = .ok (result, s) := rfl

@[simp] theorem exec_pure (result : α) (s : σ) :
    (pure result : Transaction σ κ ε α).exec s = .ok (result, s) := rfl

@[simp] theorem exec_fail (error : ε) (s : σ) :
    (fail error : Transaction σ κ ε α).exec s = .error error := rfl

@[simp] theorem exec_read (query : σ → α) (s : σ) :
    (read query : Transaction σ κ ε α).exec s = .ok (query s, s) := rfl

@[simp] theorem exec_lock (row : κ) (s : σ) :
    (lock row : Transaction σ κ ε Unit).exec s = .ok ((), s) := rfl

@[simp] theorem exec_read_bind (query : σ → α) (f : α → Transaction σ κ ε β) (s : σ) :
    (read query >>= f).exec s = (f (query s)).exec s := rfl

@[simp] theorem exec_lock_bind (row : κ) (f : Unit → Transaction σ κ ε β) (s : σ) :
    (lock row >>= f).exec s = (f ()).exec s := rfl

theorem exec_write (rows : σ → List κ) (answer : σ → Except ε α) (apply : σ → σ) (s : σ) :
    (write rows answer apply).exec s = (answer s).map fun b => (b, apply s) := by
  unfold write exec
  cases answer s <;> rfl

/-- A sequence succeeds when its first part does and then its second. -/
theorem exec_bind_eq_ok {x : Transaction σ κ ε α} {f : α → Transaction σ κ ε β} {s s' : σ} {b : β} :
    (x >>= f).exec s = .ok (b, s') ↔
      ∃ a s₁, x.exec s = .ok (a, s₁) ∧ (f a).exec s₁ = .ok (b, s') := by
  change (x.bind f).exec s = _ ↔ _
  induction x generalizing s with
  | done result => simp [bind]
  | fail error => simp [bind]
  | statement rows answer apply next ih =>
      simp only [bind, exec]
      cases answer s with
      | error error => simp
      | ok c => exact ih c

theorem exec_require_eq_ok {condition : Prop} [Decidable condition] {error : ε} {s s' : σ} {u : Unit} :
    (require condition error : Transaction σ κ ε Unit).exec s = .ok (u, s') ↔ condition ∧ s = s' := by
  unfold require
  split_ifs with h <;> simp [h]

theorem exec_require_bind_eq_ok {condition : Prop} [Decidable condition] {error : ε}
    {f : Unit → Transaction σ κ ε β} {s : σ} {r : β × σ} :
    (require condition error >>= f).exec s = .ok r ↔ condition ∧ (f ()).exec s = .ok r := by
  obtain ⟨b, s'⟩ := r
  rw [exec_bind_eq_ok]
  constructor
  · rintro ⟨a, s₁, hrequire, hrest⟩
    obtain ⟨hcondition, rfl⟩ := exec_require_eq_ok.mp hrequire
    exact ⟨hcondition, hrest⟩
  · rintro ⟨hcondition, hrest⟩
    exact ⟨(), s, exec_require_eq_ok.mpr ⟨hcondition, rfl⟩, hrest⟩

theorem exec_getOr_bind_eq_ok {value : Option α} {error : ε} {f : α → Transaction σ κ ε β} {s : σ} {r : β × σ} :
    (getOr value error >>= f).exec s = .ok r ↔ ∃ a, value = some a ∧ (f a).exec s = .ok r := by
  cases value with
  | none => simp [getOr, Bind.bind, bind]
  | some a => simp [getOr, Bind.bind, bind]

theorem exec_mapError_eq_ok {f : ε → ε'} {x : Transaction σ κ ε α} {s : σ} {r : α × σ} :
    (x.mapError f).exec s = .ok r ↔ x.exec s = .ok r := by
  induction x generalizing s with
  | done result => simp [mapError]
  | fail error => simp [mapError]
  | statement rows answer apply next ih =>
      simp only [mapError, exec]
      cases answer s with
      | error error => simp [Except.mapError]
      | ok c => exact ih c

theorem exec_mapError_bind_eq_ok {g : ε → ε'} {x : Transaction σ κ ε α} {f : α → Transaction σ κ ε' β}
    {s : σ} {r : β × σ} : (x.mapError g >>= f).exec s = .ok r ↔
      ∃ a s₁, x.exec s = .ok (a, s₁) ∧ (f a).exec s₁ = .ok r := by
  obtain ⟨b, s'⟩ := r
  simp only [exec_bind_eq_ok, exec_mapError_eq_ok]

theorem exec_write_eq_ok {rows : σ → List κ} {answer : σ → Except ε α} {apply : σ → σ} {s s' : σ} {a : α} :
    (write rows answer apply).exec s = .ok (a, s') ↔ answer s = .ok a ∧ apply s = s' := by
  rw [exec_write]
  cases answer s <;> simp [Except.map]

/-- Nothing this transaction does changes the state. -/
def ReadOnly (x : Transaction σ κ ε α) : Prop := ∀ s a s', x.exec s = .ok (a, s') → s = s'

theorem ReadOnly.bind {x : Transaction σ κ ε α} {f : α → Transaction σ κ ε β} (hx : ReadOnly x)
    (hf : ∀ a, ReadOnly (f a)) : ReadOnly (x >>= f) := by
  intro s b s' h
  obtain ⟨a, s₁, hfirst, hrest⟩ := exec_bind_eq_ok.mp h
  exact (hx s a s₁ hfirst).trans (hf a s₁ b s' hrest)

theorem ReadOnly.pure (result : α) : ReadOnly (pure result : Transaction σ κ ε α) :=
  fun _ _ _ h => (Prod.mk.inj (Except.ok.inj h)).2

theorem ReadOnly.fail (error : ε) : ReadOnly (fail error : Transaction σ κ ε α) := fun _ _ _ h => nomatch h

theorem ReadOnly.read (query : σ → α) : ReadOnly (read query : Transaction σ κ ε α) :=
  fun _ _ _ h => (Prod.mk.inj (Except.ok.inj h)).2

theorem ReadOnly.require (condition : Prop) [Decidable condition] (error : ε) :
    ReadOnly (require condition error : Transaction σ κ ε Unit) :=
  fun _ _ _ h => (exec_require_eq_ok.mp h).2

theorem ReadOnly.getOr (value : Option α) (error : ε) : ReadOnly (getOr value error : Transaction σ κ ε α) := by
  cases value with
  | none => exact .fail error
  | some a => exact .pure a

theorem ReadOnly.mapError {x : Transaction σ κ ε α} (hx : ReadOnly x) (f : ε → ε') :
    ReadOnly (x.mapError f) :=
  fun s a s' h => hx s a s' (exec_mapError_eq_ok.mp h)

/-- The state a transaction leaves, when it succeeds. -/
def landed (x : Transaction σ κ ε α) (s : σ) : Option σ :=
  (x.exec s).toOption.map Prod.snd

theorem landed_eq_some {x : Transaction σ κ ε α} {s s' : σ} :
    x.landed s = some s' ↔ ∃ a, x.exec s = .ok (a, s') := by
  unfold landed
  cases x.exec s with
  | error error => simp [Except.toOption]
  | ok result => simp [Except.toOption, Prod.ext_iff]

/-- Whatever this transaction does, the invariant still holds afterwards. -/
def Keeps (I : σ → Prop) (x : Transaction σ κ ε α) : Prop := ∀ s a s', I s → x.exec s = .ok (a, s') → I s'

theorem ReadOnly.keeps {x : Transaction σ κ ε α} (hx : ReadOnly x) (I : σ → Prop) : Keeps I x :=
  fun s a s' hinit h => hx s a s' h ▸ hinit

theorem Keeps.bind {I : σ → Prop} {x : Transaction σ κ ε α} {f : α → Transaction σ κ ε β} (hx : Keeps I x)
    (hf : ∀ a, Keeps I (f a)) : Keeps I (x >>= f) := by
  intro s b s' hinit h
  obtain ⟨a, s₁, hfirst, hrest⟩ := exec_bind_eq_ok.mp h
  exact hf a s₁ b s' (hx s a s₁ hinit hfirst) hrest

theorem Keeps.write {I : σ → Prop} {rows : σ → List κ} {answer : σ → Except ε α} {apply : σ → σ}
    (h : ∀ s a, I s → answer s = .ok a → I (apply s)) : Keeps I (write rows answer apply) := by
  intro s a s' hinit hexec
  obtain ⟨hanswer, rfl⟩ := exec_write_eq_ok.mp hexec
  exact h s a hinit hanswer

theorem Keeps.mapError {I : σ → Prop} {x : Transaction σ κ ε α} (hx : Keeps I x) (f : ε → ε') :
    Keeps I (x.mapError f) :=
  fun s a s' hinit h => hx s a s' hinit (exec_mapError_eq_ok.mp h)

theorem Keeps.landed {I : σ → Prop} {x : Transaction σ κ ε α} (hx : Keeps I x) {s s' : σ} (hinit : I s)
    (h : landed x s = some s') : I s' := by
  obtain ⟨a, hexec⟩ := landed_eq_some.mp h
  exact hx s a s' hinit hexec

/-- What the round of every element keeps, the loop keeps. -/
theorem exec_forEach_mem {γ : Type} {f : γ → Transaction σ κ ε Unit} {I : List γ → σ → Prop} {xs : List γ}
    (hstep : ∀ before x s u s', x ∈ xs → I before s → (f x).exec s = .ok (u, s') → I (before ++ [x]) s')
    {s s' : σ} {u : Unit} (hexec : (forEach f xs).exec s = .ok (u, s')) (hinit : I [] s) : I xs s' := by
  have hloop (before rest : List γ) (hsplit : before ++ rest = xs) (s : σ) (hbefore : I before s)
      (hexec : (forEach f rest).exec s = .ok (u, s')) : I xs s' := by
    induction rest generalizing before s with
    | nil =>
        obtain ⟨-, rfl⟩ := Prod.mk.inj (Except.ok.inj hexec)
        rwa [← hsplit, List.append_nil]
    | cons x rest ih =>
        obtain ⟨v, s₁, hx, hrest⟩ := exec_bind_eq_ok.mp hexec
        exact ih (before ++ [x]) (by simpa using hsplit) s₁
          (hstep before x s v s₁ (by simp [← hsplit]) hbefore hx) hrest
  exact hloop [] xs rfl s hinit hexec

/-- What every round of a loop keeps, the loop keeps. -/
theorem exec_forEach {γ : Type} {f : γ → Transaction σ κ ε Unit} {I : List γ → σ → Prop}
    (hstep : ∀ before x s u s', I before s → (f x).exec s = .ok (u, s') → I (before ++ [x]) s')
    {xs : List γ} {s s' : σ} {u : Unit} (hexec : (forEach f xs).exec s = .ok (u, s'))
    (hinit : I [] s) : I xs s' :=
  exec_forEach_mem (fun before x s u s' _ => hstep before x s u s') hexec hinit

theorem Keeps.forEach {γ : Type} {I : σ → Prop} {f : γ → Transaction σ κ ε Unit} {xs : List γ}
    (h : ∀ x ∈ xs, Keeps I (f x)) : Keeps I (forEach f xs) :=
  fun _ _ _ hinit hexec =>
    exec_forEach_mem (I := fun _ => I) (fun _ x s u s' hx hs => h x hx s u s' hs) hexec hinit

end Transaction
