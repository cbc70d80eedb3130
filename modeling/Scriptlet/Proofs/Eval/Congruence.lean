import Scriptlet.Proofs.Eval.Outcome

/-!
# Relations that pass through evaluation

A program that is run in two scopes takes the same steps in both, as long as both go well: what is
computed decides which values are bound, but not what is done next.  So a relation between two
computations holds of the two runs of a program if it holds of the steps that they are made of, and
passes from the parts of a sequence to the sequence whatever values the first parts gave.
`Eval.Congruent` says this of a relation, and the lemmas below give it for every part of a program.

A property of single computations is a relation that looks at the first of the two only.
-/

namespace Scriptlet

namespace Eval

/-- The relation `R` holds between the steps of programs that run in the scopes `e` and `f`, and
passes to sequences. -/
structure Congruent (R : ∀ {α : Type}, Eval α → Eval α → Prop) (e f : ScopeId) : Prop where
  /-- Giving a value. -/
  pure : ∀ {α : Type} (a b : α), R (pure a : Eval α) (pure b)
  /-- Going wrong. -/
  throw : ∀ {α : Type} (err : RuntimeError), R (throw err : Eval α) (throw err)
  /-- Looking up a name. -/
  lookup : ∀ name, R (read fun s => s.lookup e name) (read fun s => s.lookup f name)
  /-- Assigning to a name. -/
  assign : ∀ name v u, R (change fun s => s.assign e name v) (change fun s => s.assign f name u)
  /-- Declaring a name. -/
  declare : ∀ name v u constant,
    R (change fun s => s.declare e name v constant) (change fun s => s.declare f name u constant)
  /-- Making an object. -/
  newObject : ∀ properties properties', R (newObject properties) (newObject properties')
  /-- A sequence. -/
  bind : ∀ {α β : Type} {x y : Eval α} {g h : α → Eval β},
    R x y → (∀ a b, R (g a) (h b)) → R (x >>= g) (y >>= h)

namespace Congruent

variable {R : ∀ {α : Type}, Eval α → Eval α → Prop} {e f : ScopeId}

mutual

/-- Evaluations of the same expression are related, by induction on it. -/
lemma expr (hR : Congruent R e f) (x : Expr) : R (x.eval e) (x.eval f) := by
  unfold Expr.eval
  cases x with
  | number v => exact hR.pure _ _
  | null => exact hR.pure _ _
  | name n => exact hR.lookup n
  | binary op left right =>
    exact hR.bind (hR.expr left) fun _ _ => hR.bind (hR.expr right) fun _ _ => hR.pure _ _
  | assign target value =>
    dsimp only
    -- What stands on the left decides whether anything is computed at all.
    cases target.name? with
    | none => exact hR.throw _
    | some n =>
      exact hR.bind (hR.expr value) fun v u => hR.bind (hR.assign n v u) fun _ _ => hR.pure _ _
  | object ps => exact hR.bind (hR.properties .empty .empty ps) fun _ _ => hR.newObject _ _
  | dot object property => exact hR.throw _
  | index object property => exact hR.throw _
  | call callee args => exact hR.throw _

/-- Evaluations of the same properties are related, whatever tables they add to. -/
lemma properties (hR : Congruent R e f) (table table' : Table Value) (ps : List Property) :
    R (evalProperties e table ps) (evalProperties f table' ps) := by
  unfold evalProperties
  match ps with
  | [] => exact hR.pure _ _
  | .shorthand key :: ps => exact hR.bind (hR.lookup key) fun _ _ => hR.properties _ _ ps
  | .pair key value :: ps => exact hR.bind (hR.expr value) fun _ _ => hR.properties _ _ ps

end

/-- Runs of the same statement are related. -/
lemma statement (hR : Congruent R e f) (stmt : Statement) : R (stmt.eval e) (stmt.eval f) := by
  cases stmt with
  | expr x => exact hR.expr x
  | declaration name constant value =>
    have hdeclare : ∀ v u : Value,
        R (do change fun s => s.declare e name v constant; Pure.pure v)
          (do change fun s => s.declare f name u constant; Pure.pure u) :=
      fun v u => hR.bind (hR.declare name v u constant) fun _ _ => hR.pure v u
    cases value with
    | none => exact hR.bind (hR.pure Value.null Value.null) hdeclare
    | some x => exact hR.bind (hR.expr x) hdeclare

/-- Runs of the same statements are related, whatever values came last before them. -/
lemma statements (hR : Congruent R e f) (last last' : Value) (stmts : List Statement) :
    R (evalStatements e last stmts) (evalStatements f last' stmts) := by
  induction stmts generalizing last last' with
  | nil => exact hR.pure _ _
  | cons stmt stmts ih => exact hR.bind (hR.statement stmt) fun v u => ih v u

/-- Runs of the same program are related. -/
lemma program (hR : Congruent R e f) (p : Program) : R (p.eval e) (p.eval f) :=
  hR.statements .null .null p.body

/-- Runs of the same phrase are related. -/
lemma phrase (hR : Congruent R e f) (p : Phrase) : R (p.eval e) (p.eval f) := by
  cases p with
  | program p => exact hR.program p
  | statement stmt => exact hR.statement stmt
  | expr x => exact hR.expr x

end Congruent

end Eval

end Scriptlet
