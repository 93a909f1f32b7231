import Mathlib.Data.Prod.Lex
import Mathlib.Order.Lattice
import ThunderForge.Basic

/-! Who wins when two disconnected clients changed the same thing (`conflict.rs`). The rule is a linear
order on contenders, and everything later about it goes through that order. -/

namespace ThunderForge.Reconcile

/-- A participant's side of the table, as the server derives it. -/
inductive Role where
  | gameMaster
  | player
  deriving DecidableEq

/-- Position in the order clients reconnected, assigned by the server. -/
abbrev ReconnectSeq := UInt64

/-- One side of a conflict. -/
structure Contender where
  role : Role
  reconnectSeq : ReconnectSeq
  deriving DecidableEq

/-- Which of two conflicting changes stands. -/
inductive Winner where
  | a
  | b
  deriving DecidableEq

/-- A Game Master beats a player; within a role the earlier reconnection wins. -/
def resolve (a b : Contender) : Winner :=
  match a.role, b.role with
  | .gameMaster, .player => .a
  | .player, .gameMaster => .b
  | _, _ => if a.reconnectSeq ≤ b.reconnectSeq then .a else .b

namespace Contender

/-- The Game Master's side comes first. -/
def rank (contender : Contender) : Nat :=
  match contender.role with
  | .gameMaster => 0
  | .player => 1

theorem rank_inj {a b : Contender} : a.rank = b.rank ↔ a.role = b.role := by
  unfold rank
  cases a.role <;> cases b.role <;> simp

/-- Contenders in order of precedence, the one that wins first. -/
instance : LinearOrder Contender :=
  LinearOrder.lift' (fun contender => toLex (contender.rank, contender.reconnectSeq.toNat)) fun a b h => by
    have hpair := congrArg ofLex h
    simp only [ofLex_toLex, Prod.mk.injEq] at hpair
    obtain ⟨hrank, hseq⟩ := hpair
    have hrole := rank_inj.mp hrank
    have hseq := UInt64.toNat_inj.mp hseq
    cases a; cases b; simp_all

theorem le_iff {a b : Contender} :
    a ≤ b ↔ a.rank < b.rank ∨ a.rank = b.rank ∧ a.reconnectSeq ≤ b.reconnectSeq := by
  change toLex (a.rank, a.reconnectSeq.toNat) ≤ toLex (b.rank, b.reconnectSeq.toNat) ↔ _
  rw [Prod.Lex.toLex_le_toLex, UInt64.le_iff_toNat_le]

end Contender

/-- The rule is the order: the side that comes first stands. -/
theorem resolve_eq_a {a b : Contender} : resolve a b = .a ↔ a ≤ b := by
  rw [Contender.le_iff]
  unfold resolve Contender.rank
  cases a.role <;> cases b.role <;> simp

theorem resolve_eq_b {a b : Contender} : resolve a b = .b ↔ b < a := by
  rw [← not_le, ← resolve_eq_a]
  cases resolve a b <;> simp

/-- Nobody wins against themselves: the mark one edit leaves holds back the next of the same call. -/
theorem resolve_self (a : Contender) : resolve a a = .a := resolve_eq_a.mpr le_rfl

/-- A Game Master comes before every player. -/
theorem lt_of_roles {a b : Contender} (ha : a.role = .gameMaster) (hb : b.role = .player) : a < b := by
  rw [← resolve_eq_b, resolve, ha, hb]

/-- Within a role, only the reconnection counts. -/
theorem le_iff_of_role_eq {a b : Contender} (h : a.role = b.role) :
    a ≤ b ↔ a.reconnectSeq ≤ b.reconnectSeq := by
  rw [Contender.le_iff, Contender.rank_inj.mpr h]
  simp

end ThunderForge.Reconcile
