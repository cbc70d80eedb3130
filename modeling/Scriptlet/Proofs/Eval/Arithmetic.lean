import Mathlib.Logic.Basic
import Scriptlet.Proofs.Eval.Outcome

/-!
# Arithmetic with values that are no numbers

An operator gives null for operands that are not both numbers, and so does every operator around
it.  Nothing goes wrong, and nothing is left out: in a tree of operators all operands are evaluated,
from left to right, each in the store that the one before it left, whatever the others gave.

`Formula` is the shape of such a tree, over operands of any kind.  Folded with `Expr.binary` a
formula of expressions is an expression, and folded with `Operator.onValues` a formula of values is
a value.  What a formula of numbers stands for is said without the operators of the evaluation, by
`Formula.number`.  `Formula.eval_iff` says that evaluation only takes the operands one after the
other (`Evaluated`) and then folds their values, and the rest is about values alone.
-/

namespace Scriptlet

/-- A tree of operators. -/
inductive Formula (α : Type) where
  /-- An operand. -/
  | leaf (a : α)
  /-- An operator between two formulas. -/
  | node (op : Operator) (left right : Formula α)

namespace Formula

variable {α β : Type}

/-- The operands, from left to right. -/
def leaves : Formula α → List α
  | leaf a => [a]
  | node _ left right => left.leaves ++ right.leaves

/-- The same tree over other operands. -/
def map (f : α → β) : Formula α → Formula β
  | leaf a => leaf (f a)
  | node op left right => node op (left.map f) (right.map f)

/-- The operators applied along the tree. -/
def fold (f : Operator → α → α → α) : Formula α → α
  | leaf a => a
  | node op left right => f op (left.fold f) (right.fold f)

/-- The expression that a tree of operators over expressions is. -/
def expr (f : Formula Expr) : Expr := f.fold .binary

/-- The number that a tree of operators over numbers stands for. -/
def number : Formula Float → Float
  | leaf x => x
  | node .add left right => left.number + right.number
  | node .sub left right => left.number - right.number
  | node .mul left right => left.number * right.number
  | node .div left right => left.number / right.number

end Formula

/-! ## Operands in order -/

/-- The expressions are evaluated one after the other in the scope `e`, each in the store that the
one before it left, from `s` to `t`.  They all go well, with the values that stand beside them. -/
inductive Evaluated (e : ScopeId) : List (Expr × Value) → Store → Store → Prop where
  /-- No expression. -/
  | nil (s : Store) : Evaluated e [] s s
  /-- An expression, and those behind it. -/
  | cons {x : Expr} {v : Value} {ps : List (Expr × Value)} {s mid t : Store} :
      (x.eval e).outcome s = (.ok v, mid) → Evaluated e ps mid t → Evaluated e ((x, v) :: ps) s t

section Evaluated

variable {e : ScopeId} {s t : Store} {v : Value}

/-- Evaluating one expression is its evaluation. -/
lemma evaluated_singleton_iff {p : Expr × Value} :
    Evaluated e [p] s t ↔ (p.1.eval e).outcome s = (.ok p.2, t) := by
  refine ⟨fun h => ?_, fun h => .cons h (.nil t)⟩
  cases h with
  | cons hx hnil =>
    cases hnil
    exact hx

/-- Two lists are evaluated one after the other, the second one in the store that the first one
left. -/
lemma evaluated_append_iff {ps qs : List (Expr × Value)} :
    Evaluated e (ps ++ qs) s t ↔ ∃ mid, Evaluated e ps s mid ∧ Evaluated e qs mid t := by
  induction ps generalizing s with
  | nil =>
    refine ⟨fun h => ⟨s, .nil s, h⟩, ?_⟩
    rintro ⟨_, ⟨⟩, h⟩
    exact h
  | cons p ps ih =>
    constructor
    · intro h
      cases h with
      | cons hx hrest =>
        obtain ⟨mid, hps, hqs⟩ := ih.1 hrest
        exact ⟨mid, .cons hx hps, hqs⟩
    · rintro ⟨mid, h, hqs⟩
      cases h with
      | cons hx hps => exact .cons hx (ih.2 ⟨mid, hps, hqs⟩)

/-- Evaluating arithmetic is evaluating its operands in order, and then folding their values. -/
lemma Formula.eval_iff (f : Formula Expr) :
    (f.expr.eval e).outcome s = (.ok v, t) ↔
      ∃ g : Formula (Expr × Value), g.map Prod.fst = f ∧ Evaluated e g.leaves s t ∧
        v = (g.map Prod.snd).fold Operator.onValues := by
  induction f generalizing s t v with
  | leaf x =>
    constructor
    · intro h
      exact ⟨leaf (x, v), rfl, evaluated_singleton_iff.2 h, rfl⟩
    · rintro ⟨g, hg, hleaves, rfl⟩
      cases g with
      | leaf p =>
        cases hg
        exact evaluated_singleton_iff.1 hleaves
      | node op left right => cases hg
  | node op left right ihl ihr =>
    have hnode : ((node op left right).expr.eval e) = (do
        let x ← left.expr.eval e
        let y ← right.expr.eval e
        pure (op.onValues x y)) := by
      rw [expr, fold, Expr.eval]
      rfl
    rw [hnode]
    constructor
    · intro h
      obtain ⟨x, mid, hx, hafter⟩ := Eval.outcome_bind_eq_ok_iff.1 h
      obtain ⟨y, t', hy, hpure⟩ := Eval.outcome_bind_eq_ok_iff.1 hafter
      cases hpure
      obtain ⟨gl, rfl, hl, rfl⟩ := ihl.1 hx
      obtain ⟨gr, rfl, hr, rfl⟩ := ihr.1 hy
      exact ⟨node op gl gr, rfl, evaluated_append_iff.2 ⟨mid, hl, hr⟩, rfl⟩
    · rintro ⟨g, hg, hleaves, rfl⟩
      cases g with
      | leaf p => cases hg
      | node op' gl gr =>
        cases hg
        obtain ⟨mid, hl, hr⟩ := evaluated_append_iff.1 hleaves
        rw [Eval.outcome_bind_of_ok (ihl.2 ⟨gl, rfl, hl, rfl⟩),
          Eval.outcome_bind_of_ok (ihr.2 ⟨gr, rfl, hr, rfl⟩)]
        rfl

end Evaluated

/-! ## The value of a formula -/

/-- An operator gives null if one of its operands is no number. -/
lemma Operator.onValues_eq_null (op : Operator) {v w : Value}
    (h : (∀ x, v ≠ .number x) ∨ ∀ y, w ≠ .number y) : op.onValues v w = .null := by
  unfold onValues
  split
  · next x y => exact h.elim (fun hv => absurd rfl (hv x)) fun hw => absurd rfl (hw y)
  · rfl

namespace Formula

/-- The operands are numbers, or one of them is not. -/
lemma numbers_or_other (g : Formula Value) :
    (∃ ys : Formula Float, g = ys.map .number) ∨ ∃ v ∈ g.leaves, ∀ y, v ≠ .number y := by
  induction g with
  | leaf v =>
    by_cases hv : ∃ y, v = .number y
    · obtain ⟨y, rfl⟩ := hv
      exact .inl ⟨leaf y, rfl⟩
    · exact .inr ⟨v, List.mem_singleton_self v, not_exists.1 hv⟩
  | node op left right ihl ihr =>
    rcases ihl with ⟨xs, rfl⟩ | ⟨v, hmem, hv⟩
    · rcases ihr with ⟨ys, rfl⟩ | ⟨v, hmem, hv⟩
      · exact .inl ⟨node op xs ys, rfl⟩
      · exact .inr ⟨v, List.mem_append_right _ hmem, hv⟩
    · exact .inr ⟨v, List.mem_append_left _ hmem, hv⟩

/-- On numbers, the operators on values are sum, difference, product and quotient. -/
lemma fold_map_number (ys : Formula Float) :
    (ys.map .number).fold Operator.onValues = .number ys.number := by
  induction ys with
  | leaf y => rfl
  | node op left right ihl ihr =>
    rw [map, fold, ihl, ihr]
    cases op with
    | add => rfl
    | sub => rfl
    | mul => rfl
    | div => rfl

/-- One operand that is no number is enough, however deep it stands. -/
lemma fold_ne_number {g : Formula Value} (h : ∃ v ∈ g.leaves, ∀ y, v ≠ .number y) (x : Float) :
    g.fold Operator.onValues ≠ .number x := by
  induction g generalizing x with
  | leaf v =>
    obtain ⟨u, hmem, hu⟩ := h
    rw [List.mem_singleton.1 hmem] at hu
    exact hu x
  | node op left right ihl ihr =>
    obtain ⟨v, hmem, hv⟩ := h
    rw [fold, op.onValues_eq_null]
    · nofun
    · exact (List.mem_append.1 hmem).imp (fun hl => ihl ⟨v, hl, hv⟩) fun hr => ihr ⟨v, hr, hv⟩

/-- An operation gives null if any operand at its leaves is no number. -/
lemma fold_node_eq_null {op : Operator} {left right : Formula Value}
    (h : ∃ v ∈ (node op left right).leaves, ∀ y, v ≠ .number y) :
    (node op left right).fold Operator.onValues = .null := by
  obtain ⟨v, hmem, hv⟩ := h
  refine op.onValues_eq_null ((List.mem_append.1 hmem).imp (fun hl => ?_) fun hr => ?_)
  · exact fold_ne_number ⟨v, hl, hv⟩
  · exact fold_ne_number ⟨v, hr, hv⟩

/-- The value of an operator between two formulas: a number if all operands are, and else null. -/
lemma eq_fold_node_iff {op : Operator} {left right : Formula Value} {v : Value} :
    v = (node op left right).fold Operator.onValues ↔
      ((∃ x, v = .number x) ↔ ∀ u ∈ (node op left right).leaves, ∃ y, u = .number y) ∧
      (∀ ys : Formula Float, node op left right = ys.map .number →
        v = .number ys.number) ∧
      ((∃ u ∈ (node op left right).leaves, ∀ y, u ≠ .number y) → v = .null) := by
  have hcases := numbers_or_other (node op left right)
  constructor
  · rintro rfl
    refine ⟨⟨?_, fun hall => ?_⟩, fun ys hys => ?_, fold_node_eq_null⟩
    · rintro ⟨x, hx⟩ u hu
      refine Classical.byContradiction fun hother => ?_
      exact fold_ne_number ⟨u, hu, not_exists.1 hother⟩ x hx
    · rcases hcases with ⟨ys, hys⟩ | ⟨u, hu, hother⟩
      · exact ⟨ys.number, by rw [hys, fold_map_number]⟩
      · obtain ⟨y, hy⟩ := hall u hu
        exact absurd hy (hother y)
    · rw [hys, fold_map_number]
  · rintro ⟨-, hnumbers, hnull⟩
    rcases hcases with ⟨ys, hys⟩ | hother
    · rw [hnumbers ys hys, hys, fold_map_number]
    · rw [hnull hother, fold_node_eq_null hother]

/-- Changing the leaves of a formula changes them in their order. -/
lemma leaves_map {α β : Type} (f : α → β) (g : Formula α) : (g.map f).leaves = g.leaves.map f := by
  induction g with
  | leaf a => rfl
  | node op left right ihl ihr => rw [map, leaves, leaves, ihl, ihr, List.map_append]

end Formula

/-- Null spreads through arithmetic of any shape.  The evaluation of operators nested over any
operands goes well exactly if all operands do, evaluated from left to right, each in the store that
the one before it left; and the store that the last of them left is the one that is left in the end.
The value is a number exactly if all operands are numbers, and then it is the number that the tree
of sums, differences, products and quotients over these stands for.  If one operand is no number,
wherever it stands, the value is null. -/
theorem null_spreads_through_arithmetic (e : ScopeId) (op : Operator) (left right : Formula Expr)
    (s t : Store) (v : Value) :
    ((Formula.node op left right).expr.eval e).outcome s = (.ok v, t) ↔
      ∃ g : Formula (Expr × Value), g.map Prod.fst = .node op left right ∧
        Evaluated e g.leaves s t ∧
        ((∃ x, v = .number x) ↔ ∀ p ∈ g.leaves, ∃ y, p.2 = .number y) ∧
        (∀ ys : Formula Float, g.map Prod.snd = ys.map .number →
          v = .number ys.number) ∧
        ((∃ p ∈ g.leaves, ∀ y, p.2 ≠ .number y) → v = .null) := by
  rw [Formula.eval_iff]
  refine exists_congr fun g => and_congr_right fun hg => and_congr_right fun _ => ?_
  cases g with
  | leaf p => cases hg
  | node op' gl gr =>
    rw [Formula.map, Formula.eq_fold_node_iff, ← Formula.map, Formula.leaves_map]
    simp only [List.mem_map, forall_exists_index, and_imp, forall_apply_eq_imp_iff₂,
      exists_exists_and_eq_and]

/-- In `(x = 2) * null + (x = 3)` the null stands between two assignments: the value is null, and
both assignments are made. -/
example :
    let assign (n : Float) : Formula Expr := .leaf (.assign (.name "x") (.number n))
    let sum : Formula Expr := .node .add (.node .mul (assign 2) (.leaf .null)) (assign 3)
    let bound (v : Value) : Store := ⟨Heap.empty.push ⟨.ofList [("x", v)], [], []⟩, .empty⟩
    (sum.expr.eval 0).outcome (bound .null) = (.ok .null, bound (.number 3)) := rfl

end Scriptlet
