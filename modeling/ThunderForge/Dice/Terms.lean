import ThunderForge.Dice.Outcomes
import ThunderForge.Lib.Trail

/-! The dice terms of a formula in the order they are rolled: an evaluation that succeeds has rolled each of them
once, and nothing else has changed its state. -/

namespace ThunderForge.Dice

variable {α : Type}

mutual

/-- The terms of a formula; those in a term's count and in its size come before it. -/
def Expr.terms : Expr α → List (DiceTerm α)
  | .number _ => []
  | .placeholder _ => []
  | .neg inner => inner.terms
  | .binOp lhs _ rhs => lhs.terms ++ rhs.terms
  | .mathFn _ inner => inner.terms
  | .dice term => term.terms
  | .pool items _ => itemsTerms items

def DiceTerm.terms : DiceTerm α → List (DiceTerm α)
  | .mk count sides modifiers => count.terms ++ (sides.terms ++ [.mk count sides modifiers])

def Sides.terms : Sides α → List (DiceTerm α)
  | .fate => []
  | .coin => []
  | .numeric sides => sides.terms

def itemsTerms : List (Expr α) → List (DiceTerm α)
  | [] => []
  | item :: items => item.terms ++ itemsTerms items

end

theorem itemsTerms_append (items more : List (Expr α)) :
    itemsTerms (items ++ more) = itemsTerms items ++ itemsTerms more := by
  induction items with
  | nil => rw [List.nil_append, itemsTerms, List.nil_append]
  | cons item items ih => rw [List.cons_append, itemsTerms, itemsTerms, ih, List.append_assoc]

/-- A term as it is rolled: whose term it is, its count and its sides. -/
structure Roll (α : Type) where
  term : DiceTerm α
  count : Nat
  sides : DieSides

/-- A term is rolled. -/
def RollStep [Double α] (env : Env α) (ctx : EvalCtx) (roll : Roll α) (ctx' : EvalCtx) : Prop :=
  ∃ v : ExprValue α, rollTerm env roll.term.modifiers roll.count roll.sides ctx = .ok (v, ctx')

section leaves

variable [Double α] (env : Env α)

theorem leaves_rollTerm (term : DiceTerm α) (count : Nat) (sides : DieSides) :
    Leaves (RollStep env) Roll.term [term] (rollTerm env term.modifiers count sides) := by
  intro ctx v ctx' h
  exact ⟨[⟨term, count, sides⟩], rfl, .cons ⟨v, h⟩ (.nil ctx')⟩

mutual

/-- An evaluation rolls the terms of its formula, one after another. -/
theorem leaves_evalExpr : ∀ expr : Expr α, Leaves (RollStep env) Roll.term expr.terms (evalExpr env expr)
  | .number n => Leaves.pure _
  | .placeholder name => by
      rw [evalExpr_placeholder]
      cases env.bindings name with
      | none => exact Leaves.fail _ _
      | some value => exact Leaves.pure _
  | .neg inner => by
      rw [evalExpr_neg, Expr.terms, ← List.append_nil inner.terms]
      exact (leaves_evalExpr inner).andThen fun v => Leaves.pure _
  | .binOp lhs op rhs => by
      rw [evalExpr_binOp, Expr.terms, ← List.append_nil rhs.terms]
      exact (leaves_evalExpr lhs).andThen fun l => (leaves_evalExpr rhs).andThen fun r =>
        Leaves.after _ fun value => Leaves.after _ fun value => Leaves.after _ fun successCount => Leaves.pure _
  | .mathFn kind inner => by
      rw [evalExpr_mathFn, Expr.terms, ← List.append_nil inner.terms]
      exact (leaves_evalExpr inner).andThen fun v => Leaves.after _ fun value => Leaves.pure _
  | .dice term => by
      rw [evalExpr_dice, Expr.terms]
      exact leaves_evalDiceTerm term
  | .pool items modifiers => by
      rw [evalExpr_pool, Expr.terms, ← List.append_nil (itemsTerms items)]
      exact (leaves_evalItems items).andThen fun totals => Leaves.after _ fun value => Leaves.pure _

theorem leaves_evalDiceTerm : ∀ term : DiceTerm α, Leaves (RollStep env) Roll.term term.terms (evalDiceTerm env term)
  | .mk count sides modifiers => by
      rw [evalDiceTerm_mk, DiceTerm.terms]
      refine (leaves_evalExpr count).andThen fun v => Leaves.after _ fun n => ?_
      by_cases hneg : n < 0
      · simp only [if_pos hneg]
        exact Leaves.fail _ _
      · simp only [if_neg hneg]
        exact (leaves_evalSides sides).andThen fun dieSides =>
          leaves_rollTerm env (.mk count sides modifiers) (asU32 n) dieSides

theorem leaves_evalSides : ∀ sides : Sides α, Leaves (RollStep env) Roll.term sides.terms (evalSides env sides)
  | .fate => Leaves.pure _
  | .coin => Leaves.pure _
  | .numeric sides => by
      rw [evalSides_numeric, Sides.terms, ← List.append_nil sides.terms]
      refine (leaves_evalExpr sides).andThen fun v => Leaves.after _ fun n => ?_
      by_cases hless : n < 1
      · simp only [if_pos hless]
        exact Leaves.fail _ _
      · simp only [if_neg hless]
        exact Leaves.pure _

theorem leaves_evalItems : ∀ items : List (Expr α),
    Leaves (RollStep env) Roll.term (itemsTerms items) (evalItems env items)
  | [] => Leaves.pure _
  | item :: items => by
      rw [evalItems_cons, itemsTerms, ← List.append_nil (itemsTerms items)]
      exact (leaves_evalExpr item).andThen fun v => (leaves_evalItems items).andThen fun totals => Leaves.pure _

end

end leaves

end ThunderForge.Dice
