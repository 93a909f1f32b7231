import Mathlib
import ThunderForge.Lib.ReadCommitted

/-! The part of a call that only asks: checks before anything is written. Among others that keep to a
discipline it may be answered from any later state, and does nothing else. -/

namespace ReadCommitted

variable {κ : Type} {ρ : κ → Type} {ℓ ε α β γ : Type}

/-- A call whose statements write no row. -/
inductive Call.ReadsOnly : Call ρ ℓ ε α → Prop
  | done (result : α) : ReadsOnly (.done result)
  | fail (error : ε) : ReadsOnly (.fail error)
  | statement {β : Type} {relies : ℓ → Rows ρ → Bool} {value : Rows ρ → Rows ρ} {answer : Rows ρ → β}
      {next : β → Call ρ ℓ ε α} : (∀ b, ReadsOnly (next b)) →
      ReadsOnly (.statement relies (fun _ => []) value answer next)

namespace Call

theorem ReadsOnly.pure (result : α) : (Pure.pure result : Call ρ ℓ ε α).ReadsOnly := .done result

theorem ReadsOnly.read (query : Rows ρ → α) : (Call.read query : Call ρ ℓ ε α).ReadsOnly := .statement fun b => .done b

theorem ReadsOnly.require (condition : Prop) [Decidable condition] (error : ε) :
    (Call.require condition error : Call ρ ℓ ε Unit).ReadsOnly := by
  unfold Call.require
  split_ifs
  · exact .done ()
  · exact .fail error

theorem ReadsOnly.getOr (value : Option α) (error : ε) : (Call.getOr value error : Call ρ ℓ ε α).ReadsOnly := by
  cases value with
  | none => exact .fail error
  | some a => exact .done a

theorem ReadsOnly.bind {x : Call ρ ℓ ε α} {f : α → Call ρ ℓ ε β} (hx : x.ReadsOnly) (hf : ∀ a, (f a).ReadsOnly) :
    (x >>= f).ReadsOnly := by
  change (x.bind f).ReadsOnly
  induction hx with
  | done result => exact hf result
  | fail error => exact .fail error
  | statement _ ih => exact .statement ih

end Call

/-- After checks that write nothing, a call goes on from a later state. -/
theorem Safe.readsOnly_bind [DecidableEq κ] {n : Nat} {discipline : Discipline n ρ β} {kinds : List ℓ}
    {post : Writes ρ → Rows ρ → α → Prop} {writes : Writes ρ} {db : Rows ρ} {x : Call ρ ℓ ε γ}
    {f : γ → Call ρ ℓ ε α} (hx : x.ReadsOnly) (hvalid : discipline.valid db)
    (h : ∀ db' c, discipline.Later writes db db' → Safe discipline kinds post (f c) writes db') :
    Safe discipline kinds post (x >>= f) writes db := by
  change Safe discipline kinds post (x.bind f) writes db
  induction hx generalizing db with
  | done result => exact h db result (.refl hvalid)
  | fail error => trivial
  | statement _ ih => exact fun db' hdb' _ => ih _ hdb'.valid fun db'' c hlater => h db'' c (hdb'.trans hlater)

end ReadCommitted
