import ThunderForge.Dice.Parsed
import ThunderForge.Lib.SortBy

/-! A formula's dice terms rewritten by an edit (`thunderforge-dice/src/rewrite.rs`). -/

namespace ThunderForge.Dice

variable {α : Type} [Double α] {σ : Type}

/-- What an edit sees of one dice term. -/
structure TermView where
  index : Nat
  count : Option Nat
  sides : Option Nat
  keeps : Bool
  rerolls : Bool
  clamps : Bool

/-- A modifier an edit may add to a term. -/
inductive AddModifier where
  | keepHighest (n : UInt32)
  | keepLowest (n : UInt32)
  | rerollOnceEq (n : Int64)
  | min (n : Int64)

/-- What to change about one term; without a count it keeps its own. -/
structure TermEdit where
  count : Option UInt32 := none
  add : List AddModifier := []

/-- An edit is called on one term after another, and may keep a state. -/
abbrev Edit (σ : Type) := σ → TermView → Option TermEdit × σ

/-- The canonical order: rerolls, explosions, keep and drop, clamps, counting. -/
def family : Modifier → Nat
  | .reroll _ | .rerollRecursive _ => 0
  | .explode _ | .explodeOnce _ => 1
  | .keepHighest _ | .keepLowest _ | .dropHighest _ | .dropLowest _ => 2
  | .min _ | .max _ => 3
  | .countSuccesses _ | .countFailures _ | .subtractFailureValue _ | .even | .odd | .marginOfSuccess _ => 4

def literal : Expr α → Option Nat
  | .number n => if Double.isNonNegative n = true ∧ Double.isWhole n = true then some (Double.toU32 n) else none
  | _ => none

def viewOf (term : DiceTerm α) (index : Nat) : TermView where
  index
  count := literal term.count
  sides :=
    match term.sides with
    | .numeric expr => literal expr
    | .fate | .coin => none
  keeps := term.modifiers.any fun modifier => family modifier = 2
  rerolls := term.modifiers.any fun modifier => family modifier = 0
  clamps := term.modifiers.any fun modifier => family modifier = 3

def AddModifier.modifier : AddModifier → Modifier
  | keepHighest n => .keepHighest n.toNat
  | keepLowest n => .keepLowest n.toNat
  | rerollOnceEq n => .reroll (.eq n.toInt)
  | min n => .min n.toInt

def TermEdit.modifiers (change : TermEdit) : List Modifier := change.add.map AddModifier.modifier

def apply : DiceTerm α → TermEdit → DiceTerm α
  | .mk count sides modifiers, change =>
    .mk (change.count.elim count fun n => .number (Double.ofInt n.toNat)) sides
      (SortBy.sortBy family (modifiers ++ change.modifiers))

/-- What the closure of `rewrite_dice_terms` keeps, with the state of the edit. -/
structure Visit (σ : Type) where
  state : σ
  index : Nat
  changed : Bool

mutual

def visitTerms (edit : Edit σ) : Expr α → Visit σ → Expr α × Visit σ
  | .number n, visit => (.number n, visit)
  | .placeholder name, visit => (.placeholder name, visit)
  | .dice term, visit =>
    let (term, visit) := visitTerm edit term visit
    (.dice term, visit)
  | .pool items modifiers, visit =>
    let (items, visit) := visitItems edit items visit
    (.pool items modifiers, visit)
  | .neg inner, visit =>
    let (inner, visit) := visitTerms edit inner visit
    (.neg inner, visit)
  | .mathFn kind inner, visit =>
    let (inner, visit) := visitTerms edit inner visit
    (.mathFn kind inner, visit)
  | .binOp lhs op rhs, visit =>
    let (lhs, visit) := visitTerms edit lhs visit
    let (rhs, visit) := visitTerms edit rhs visit
    (.binOp lhs op rhs, visit)

/-- A term is edited before the terms in its count and in its size; a new count is a number, which has none. -/
def visitTerm (edit : Edit σ) : DiceTerm α → Visit σ → DiceTerm α × Visit σ
  | .mk count sides modifiers, visit =>
    let (change, state) := edit visit.state (viewOf (.mk count sides modifiers) visit.index)
    let visit : Visit σ := { state, index := visit.index + 1, changed := visit.changed || change.isSome }
    let edited := change.elim (.mk count sides modifiers) (apply (.mk count sides modifiers))
    let (count, visit) :=
      if (change.bind TermEdit.count).isSome then (edited.count, visit) else visitTerms edit count visit
    let (sides, visit) := visitSides edit sides visit
    (.mk count sides edited.modifiers, visit)

def visitSides (edit : Edit σ) : Sides α → Visit σ → Sides α × Visit σ
  | .fate, visit => (.fate, visit)
  | .coin, visit => (.coin, visit)
  | .numeric sides, visit =>
    let (sides, visit) := visitTerms edit sides visit
    (.numeric sides, visit)

def visitItems (edit : Edit σ) : List (Expr α) → Visit σ → List (Expr α) × Visit σ
  | [], visit => ([], visit)
  | item :: items, visit =>
    let (item, visit) := visitTerms edit item visit
    let (items, visit) := visitItems edit items visit
    (item :: items, visit)

end

/-- A formula none of whose terms was changed comes back as it was. -/
def rewriteDiceTerms (α : Type) [Double α] (formula : String) (edit : Edit σ) (state : σ) :
    Except FormulaError String := do
  let ast ← parse (α := α) formula
  let (ast, visit) := visitTerms edit ast { state, index := 0, changed := false }
  return if visit.changed then printExpr ast else formula

/-! What an edit says of a tree. -/

/-- The modifiers in the canonical order, those of one family as they were. -/
def StablySorted (modifiers sorted : List Modifier) : Prop :=
  (sorted.Pairwise fun a b => family a ≤ family b) ∧
    ∀ k, (sorted.filter fun modifier => family modifier = k) = modifiers.filter fun modifier => family modifier = k

/-- How an edit is called next: in a state, and for an index. -/
structure Call (σ : Type) where
  state : σ
  index : Nat

mutual

/-- A tree with each edit that was answered applied to its term, and those answers; the calls go from one to another. -/
inductive Edited (edit : Edit σ) : Call σ → Expr α → Expr α → Call σ → List TermEdit → Prop where
  | number (n : α) (call : Call σ) : Edited edit call (.number n) (.number n) call []
  | placeholder (name : String) (call : Call σ) : Edited edit call (.placeholder name) (.placeholder name) call []
  | kept {count count' : Expr α} {sides sides' : Sides α} {modifiers : List Modifier} {call mid last : Call σ} {state : σ}
      {changes changes' : List TermEdit}
      (hanswer : edit call.state (viewOf (.mk count sides modifiers) call.index) = (none, state))
      (hcount : Edited edit ⟨state, call.index + 1⟩ count count' mid changes)
      (hsides : EditedSides edit mid sides sides' last changes') :
      Edited edit call (.dice (.mk count sides modifiers)) (.dice (.mk count' sides' modifiers)) last (changes ++ changes')
  | changed {count count' : Expr α} {sides sides' : Sides α} {modifiers sorted : List Modifier} {call mid last : Call σ}
      {state : σ} {change : TermEdit} {changes changes' : List TermEdit}
      (hanswer : edit call.state (viewOf (.mk count sides modifiers) call.index) = (some change, state))
      (hkeeps : change.count = none) (hsorted : StablySorted (modifiers ++ change.modifiers) sorted)
      (hcount : Edited edit ⟨state, call.index + 1⟩ count count' mid changes)
      (hsides : EditedSides edit mid sides sides' last changes') :
      Edited edit call (.dice (.mk count sides modifiers)) (.dice (.mk count' sides' sorted)) last
        (change :: (changes ++ changes'))
  | recounted {count : Expr α} {sides sides' : Sides α} {modifiers sorted : List Modifier} {call last : Call σ} {state : σ}
      {change : TermEdit} {n : UInt32} {changes : List TermEdit}
      (hanswer : edit call.state (viewOf (.mk count sides modifiers) call.index) = (some change, state))
      (hcount : change.count = some n) (hsorted : StablySorted (modifiers ++ change.modifiers) sorted)
      (hsides : EditedSides edit ⟨state, call.index + 1⟩ sides sides' last changes) :
      Edited edit call (.dice (.mk count sides modifiers)) (.dice (.mk (.number (Double.ofInt n.toNat)) sides' sorted)) last
        (change :: changes)
  | pool {items items' : List (Expr α)} (modifiers : List Modifier) {call last : Call σ} {changes : List TermEdit}
      (hitems : EditedItems edit call items items' last changes) :
      Edited edit call (.pool items modifiers) (.pool items' modifiers) last changes
  | neg {inner inner' : Expr α} {call last : Call σ} {changes : List TermEdit}
      (hinner : Edited edit call inner inner' last changes) : Edited edit call (.neg inner) (.neg inner') last changes
  | mathFn (kind : MathFn) {inner inner' : Expr α} {call last : Call σ} {changes : List TermEdit}
      (hinner : Edited edit call inner inner' last changes) :
      Edited edit call (.mathFn kind inner) (.mathFn kind inner') last changes
  | binOp {lhs lhs' rhs rhs' : Expr α} (op : BinOp) {call mid last : Call σ} {changes changes' : List TermEdit}
      (hlhs : Edited edit call lhs lhs' mid changes) (hrhs : Edited edit mid rhs rhs' last changes') :
      Edited edit call (.binOp lhs op rhs) (.binOp lhs' op rhs') last (changes ++ changes')

inductive EditedSides (edit : Edit σ) : Call σ → Sides α → Sides α → Call σ → List TermEdit → Prop where
  | fate (call : Call σ) : EditedSides edit call .fate .fate call []
  | coin (call : Call σ) : EditedSides edit call .coin .coin call []
  | numeric {sides sides' : Expr α} {call last : Call σ} {changes : List TermEdit}
      (hsides : Edited edit call sides sides' last changes) :
      EditedSides edit call (.numeric sides) (.numeric sides') last changes

inductive EditedItems (edit : Edit σ) : Call σ → List (Expr α) → List (Expr α) → Call σ → List TermEdit → Prop where
  | nil (call : Call σ) : EditedItems edit call [] [] call []
  | cons {item item' : Expr α} {items items' : List (Expr α)} {call mid last : Call σ} {changes changes' : List TermEdit}
      (hitem : Edited edit call item item' mid changes) (hitems : EditedItems edit mid items items' last changes') :
      EditedItems edit call (item :: items) (item' :: items') last (changes ++ changes')

end

theorem stablySorted_iff {modifiers sorted : List Modifier} :
    StablySorted modifiers sorted ↔ sorted = SortBy.sortBy family modifiers := by
  constructor
  · rintro ⟨hpairwise, hfilter⟩
    refine SortBy.eq_of_filter_eq hpairwise (SortBy.pairwise_le_sortBy family modifiers) fun k => ?_
    rw [hfilter k, SortBy.filter_sortBy]
  · rintro rfl
    exact ⟨SortBy.pairwise_le_sortBy family modifiers, fun k => SortBy.filter_sortBy family k modifiers⟩

theorem changed_append (changed : Bool) (changes changes' : List TermEdit) :
    (changed || !(changes ++ changes').isEmpty) = ((changed || !changes.isEmpty) || !changes'.isEmpty) := by
  cases changes with
  | nil => simp
  | cons => simp

section edited

variable {edit : Edit σ}

mutual

/-- The code edits a tree as the answers say. -/
theorem Edited.visitTerms {call last : Call σ} {expr edited : Expr α} {changes : List TermEdit} (changed : Bool) :
    Edited edit call expr edited last changes →
      visitTerms edit expr ⟨call.state, call.index, changed⟩ = (edited, ⟨last.state, last.index, changed || !changes.isEmpty⟩)
  | .number n call => by simp [Dice.visitTerms]
  | .placeholder name call => by simp [Dice.visitTerms]
  | .kept hanswer hcount hsides => by
      rw [changed_append]
      simp [Dice.visitTerms, visitTerm, hanswer, hcount.visitTerms, hsides.visitSides, DiceTerm.modifiers]
  | .changed hanswer hkeeps hsorted hcount hsides => by
      have hmodifiers := stablySorted_iff.mp hsorted
      simp [Dice.visitTerms, visitTerm, hanswer, hkeeps, hcount.visitTerms, hsides.visitSides, apply, DiceTerm.modifiers,
        hmodifiers]
  | .recounted hanswer hcount hsorted hsides => by
      have hmodifiers := stablySorted_iff.mp hsorted
      simp [Dice.visitTerms, visitTerm, hanswer, hcount, hsides.visitSides, apply, DiceTerm.modifiers, DiceTerm.count,
        hmodifiers]
  | .pool modifiers hitems => by
      simp [Dice.visitTerms, hitems.visitItems]
  | .neg hinner => by
      simp [Dice.visitTerms, hinner.visitTerms]
  | .mathFn kind hinner => by
      simp [Dice.visitTerms, hinner.visitTerms]
  | .binOp op hlhs hrhs => by
      rw [changed_append]
      simp [Dice.visitTerms, hlhs.visitTerms, hrhs.visitTerms]

theorem EditedSides.visitSides {call last : Call σ} {sides edited : Sides α} {changes : List TermEdit} (changed : Bool) :
    EditedSides edit call sides edited last changes →
      visitSides edit sides ⟨call.state, call.index, changed⟩ = (edited, ⟨last.state, last.index, changed || !changes.isEmpty⟩)
  | .fate call => by simp [Dice.visitSides]
  | .coin call => by simp [Dice.visitSides]
  | .numeric hsides => by simp [Dice.visitSides, hsides.visitTerms]

theorem EditedItems.visitItems {call last : Call σ} {items edited : List (Expr α)} {changes : List TermEdit} (changed : Bool) :
    EditedItems edit call items edited last changes →
      visitItems edit items ⟨call.state, call.index, changed⟩ = (edited, ⟨last.state, last.index, changed || !changes.isEmpty⟩)
  | .nil call => by simp [Dice.visitItems]
  | .cons hitem hitems => by
      rw [changed_append]
      simp [Dice.visitItems, hitem.visitTerms, hitems.visitItems]

end

mutual

/-- Every tree is edited somehow. -/
theorem exists_edited (edit : Edit σ) : ∀ (expr : Expr α) (call : Call σ), ∃ edited last changes,
    Edited edit call expr edited last changes
  | .number n, call => ⟨_, _, _, .number n call⟩
  | .placeholder name, call => ⟨_, _, _, .placeholder name call⟩
  | .dice (.mk count sides modifiers), call => by
      rcases hanswer : edit call.state (viewOf (.mk count sides modifiers) call.index) with ⟨change, state⟩
      obtain ⟨count', mid, changes, hcount⟩ := exists_edited edit count ⟨state, call.index + 1⟩
      cases change with
      | none =>
          obtain ⟨sides', last, changes', hsides⟩ := exists_editedSides edit sides mid
          exact ⟨_, _, _, .kept hanswer hcount hsides⟩
      | some change =>
          have hsorted := stablySorted_iff.mpr (Eq.refl (SortBy.sortBy family (modifiers ++ change.modifiers)))
          cases hnumber : change.count with
          | none =>
              obtain ⟨sides', last, changes', hsides⟩ := exists_editedSides edit sides mid
              exact ⟨_, _, _, .changed hanswer hnumber hsorted hcount hsides⟩
          | some n =>
              obtain ⟨sides', last, changes', hsides⟩ := exists_editedSides edit sides ⟨state, call.index + 1⟩
              exact ⟨_, _, _, .recounted hanswer hnumber hsorted hsides⟩
  | .pool items modifiers, call => by
      obtain ⟨items', last, changes, hitems⟩ := exists_editedItems edit items call
      exact ⟨_, _, _, .pool modifiers hitems⟩
  | .neg inner, call => by
      obtain ⟨inner', last, changes, hinner⟩ := exists_edited edit inner call
      exact ⟨_, _, _, .neg hinner⟩
  | .mathFn kind inner, call => by
      obtain ⟨inner', last, changes, hinner⟩ := exists_edited edit inner call
      exact ⟨_, _, _, .mathFn kind hinner⟩
  | .binOp lhs op rhs, call => by
      obtain ⟨lhs', mid, changes, hlhs⟩ := exists_edited edit lhs call
      obtain ⟨rhs', last, changes', hrhs⟩ := exists_edited edit rhs mid
      exact ⟨_, _, _, .binOp op hlhs hrhs⟩

theorem exists_editedSides (edit : Edit σ) : ∀ (sides : Sides α) (call : Call σ), ∃ edited last changes,
    EditedSides edit call sides edited last changes
  | .fate, call => ⟨_, _, _, .fate call⟩
  | .coin, call => ⟨_, _, _, .coin call⟩
  | .numeric sides, call => by
      obtain ⟨sides', last, changes, hsides⟩ := exists_edited edit sides call
      exact ⟨_, _, _, .numeric hsides⟩

theorem exists_editedItems (edit : Edit σ) : ∀ (items : List (Expr α)) (call : Call σ), ∃ edited last changes,
    EditedItems edit call items edited last changes
  | [], call => ⟨_, _, _, .nil call⟩
  | item :: items, call => by
      obtain ⟨item', mid, changes, hitem⟩ := exists_edited edit item call
      obtain ⟨items', last, changes', hitems⟩ := exists_editedItems edit items mid
      exact ⟨_, _, _, .cons hitem hitems⟩

end

/-- The number of an added modifier is read as itself. -/
def AddModifier.ReadsBack (α : Type) [Double α] : AddModifier → Prop
  | keepHighest _ | keepLowest _ => True
  | rerollOnceEq n | min n => Dice.ReadsBack α n.toInt

theorem printable_add (add : AddModifier) : add.modifier.Printable α ↔ add.ReadsBack α := by
  cases add with
  | keepHighest n | keepLowest n =>
      refine iff_of_true ?_ trivial
      have := n.toNat_lt
      show n.toNat ≤ 4294967295
      omega
  | rerollOnceEq n | min n => exact Iff.rfl

theorem printable_sorted {modifiers sorted : List Modifier} {change : TermEdit}
    (hsorted : StablySorted (modifiers ++ change.modifiers) sorted)
    (hmodifiers : ∀ modifier ∈ modifiers, modifier.Printable α) :
    (∀ modifier ∈ sorted, modifier.Printable α) ↔ ∀ add ∈ change.add, add.ReadsBack α := by
  rw [stablySorted_iff.mp hsorted]
  simp only [SortBy.mem_sortBy, List.mem_append, TermEdit.modifiers, List.mem_map]
  constructor
  · intro h add hadd
    exact (printable_add add).mp (h _ (Or.inr ⟨add, hadd, rfl⟩))
  · rintro h modifier (hmem | ⟨add, hadd, rfl⟩)
    · exact hmodifiers modifier hmem
    · exact (printable_add add).mpr (h add hadd)

section lexical

variable {P : α → Prop}

theorem EditedItems.ne_nil {call last : Call σ} {items edited : List (Expr α)} {changes : List TermEdit}
    (h : EditedItems edit call items edited last changes) (hne : items ≠ []) : edited ≠ [] := by
  cases h with
  | nil => exact hne
  | cons => exact List.cons_ne_nil _ _

mutual

/-- An edited tree can be printed where all that the edit answered can be. -/
theorem Edited.lexical {call last : Call σ} {expr edited : Expr α} {changes : List TermEdit}
    (hcounts : ∀ n : UInt32, P (Double.ofInt n.toNat)) :
    Edited edit call expr edited last changes → expr.Lexical P →
      (edited.Lexical P ↔ ∀ change ∈ changes, ∀ add ∈ change.add, add.ReadsBack α)
  | .number n call, h => by simp [h]
  | .placeholder name call, h => by simp [h]
  | .kept hanswer hcount hsides, h => by
      simp only [Expr.Lexical, DiceTerm.Lexical] at h ⊢
      rw [hcount.lexical hcounts h.1, hsides.lexical hcounts h.2.1, List.forall_mem_append]
      exact ⟨fun hall => ⟨hall.1, hall.2.1⟩, fun hall => ⟨hall.1, hall.2, h.2.2⟩⟩
  | .changed hanswer hkeeps hsorted hcount hsides, h => by
      simp only [Expr.Lexical, DiceTerm.Lexical] at h ⊢
      rw [hcount.lexical hcounts h.1, hsides.lexical hcounts h.2.1, printable_sorted hsorted h.2.2, List.forall_mem_cons,
        List.forall_mem_append]
      tauto
  | .recounted (n := n) hanswer hcount hsorted hsides, h => by
      simp only [Expr.Lexical, DiceTerm.Lexical] at h ⊢
      rw [hsides.lexical hcounts h.2.1, printable_sorted hsorted h.2.2, List.forall_mem_cons]
      have hliteral : IsLiteral (Double.ofInt n.toNat : α) := isLiteral_ofInt (n.toNat_lt.le.trans (by decide))
      exact ⟨fun hall => ⟨hall.2.2, hall.2.1⟩, fun hall => ⟨⟨hliteral, hcounts n⟩, hall.2, hall.1⟩⟩
  | .pool modifiers hitems, h => by
      simp only [Expr.Lexical] at h ⊢
      rw [hitems.lexical hcounts h.2.1]
      exact ⟨fun hall => hall.2.1, fun hall => ⟨hitems.ne_nil h.1, hall, h.2.2⟩⟩
  | .neg hinner, h => by
      simp only [Expr.Lexical] at h ⊢
      exact hinner.lexical hcounts h
  | .mathFn kind hinner, h => by
      simp only [Expr.Lexical] at h ⊢
      exact hinner.lexical hcounts h
  | .binOp op hlhs hrhs, h => by
      simp only [Expr.Lexical] at h ⊢
      rw [hlhs.lexical hcounts h.1, hrhs.lexical hcounts h.2, List.forall_mem_append]

theorem EditedSides.lexical {call last : Call σ} {sides edited : Sides α} {changes : List TermEdit}
    (hcounts : ∀ n : UInt32, P (Double.ofInt n.toNat)) :
    EditedSides edit call sides edited last changes → sides.Lexical P →
      (edited.Lexical P ↔ ∀ change ∈ changes, ∀ add ∈ change.add, add.ReadsBack α)
  | .fate call, h => by simp [h]
  | .coin call, h => by simp [h]
  | .numeric hsides, h => by
      simp only [Sides.Lexical] at h ⊢
      exact hsides.lexical hcounts h

theorem EditedItems.lexical {call last : Call σ} {items edited : List (Expr α)} {changes : List TermEdit}
    (hcounts : ∀ n : UInt32, P (Double.ofInt n.toNat)) :
    EditedItems edit call items edited last changes → itemsLexical P items →
      (itemsLexical P edited ↔ ∀ change ∈ changes, ∀ add ∈ change.add, add.ReadsBack α)
  | .nil call, h => by simp [h]
  | .cons hitem hitems, h => by
      simp only [itemsLexical] at h ⊢
      rw [hitem.lexical hcounts h.1, hitems.lexical hcounts h.2, List.forall_mem_append]

end

end lexical

end edited

theorem isFinite_count (n : UInt32) : Double.isFinite (Double.ofInt n.toNat : α) = true := by
  have hvalue : Double.magnitude (Double.ofInt n.toNat : α) = .finite n.toNat :=
    Double.magnitude_ofInt n.toNat (n.toNat_lt.le.trans (by decide))
  rw [Double.isFinite, hvalue]

/-- A formula that is changed is printed with its edits. -/
theorem rewriteDiceTerms_eq {formula : String} {expr edited : Expr α} {edit : Edit σ} {state : σ} {last : Call σ}
    {changes : List TermEdit} (hparse : parse formula = .ok expr)
    (hedited : Edited edit ⟨state, 0⟩ expr edited last changes) :
    rewriteDiceTerms α formula edit state = .ok (if changes.isEmpty then formula else printExpr edited) := by
  have hvisit := hedited.visitTerms false
  rw [rewriteDiceTerms, hparse]
  simp only [bind, Except.bind, hvisit]
  cases changes <;> rfl

def oneDie (count : Nat) (modifiers : List Modifier) : Expr ℚ :=
  .dice (.mk (.number (Double.ofInt count)) (.numeric (.number (Double.ofInt 20))) modifiers)

theorem parse_oneDie : parse "1d20" = .ok (oneDie 1 []) := by
  have hprintable : (oneDie 1 []).Printable := by
    simp only [oneDie, Expr.Printable, Expr.Lexical, DiceTerm.Lexical, Sides.Lexical]
    exact ⟨⟨isLiteral_ofInt (by decide), rfl⟩, ⟨isLiteral_ofInt (by decide), rfl⟩, fun _ h => nomatch h⟩
  have hprint : printExpr (oneDie 1 []) = "1d20" := by decide +kernel
  rw [← hprint]
  exact parse_of_printable hprintable

/-- An edit that answers each term with the same change. -/
def always (change : TermEdit) : Edit Unit := fun _ _ => (some change, ())

theorem edited_oneDie (add : AddModifier) : Edited (always { add := [add] }) ⟨(), 0⟩ (oneDie 1 [])
    (oneDie 1 [add.modifier]) ⟨(), 1⟩ [{ add := [add] }] := by
  have hsorted : StablySorted ([] ++ TermEdit.modifiers { add := [add] }) [add.modifier] := stablySorted_iff.mpr rfl
  have hanswer : always { add := [add] } () (viewOf (.mk (.number (Double.ofInt 1))
      (.numeric (.number (Double.ofInt 20 : ℚ))) []) 0) = (some { add := [add] }, ()) := rfl
  exact @Edited.changed ℚ _ Unit (always { add := [add] }) _ _ _ _ _ _ ⟨(), 0⟩ _ _ _ _ _ _ hanswer rfl hsorted
    (.number _ _) (.numeric (.number _ _))

end ThunderForge.Dice
