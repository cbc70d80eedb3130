import Scriptlet.Program
import Scriptlet.Store

/-!
# Running programs

An expression is evaluated in a scope, from left to right, and may change the store on the way.  A
program that goes wrong stops at once, and what it did before stays done: the store is kept beside
the outcome, not inside it.

The recursion is on the tree.
-/

namespace Scriptlet

/-- A computation that reads and changes the store and may go wrong. -/
abbrev Eval := ExceptT RuntimeError (StateM Store)

namespace Eval

/-- Reads from the store. -/
def read {α : Type} (f : Store → Except RuntimeError α) : Eval α := do
  ExceptT.mk (pure (f (← get)))

/-- Changes the store, or leaves it as it is and goes wrong. -/
def change (f : Store → Except RuntimeError Store) : Eval Unit := do
  set (← read f)

/-- Makes a new object. -/
def newObject (properties : Table Value) : Eval Value :=
  modifyGet fun s => (.object s.objects.next, s.addObject properties)

end Eval

/-- The name that an expression is, if it is one. -/
def Expr.name? : Expr → Option String
  | .name n => some n
  | _ => none

mutual

/-- The value of an expression in the scope `e`. -/
def Expr.eval (e : ScopeId) : Expr → Eval Value
  | .number x => pure (.number x)
  | .null => pure .null
  | .name n => .read fun s => s.lookup e n
  | .binary op left right => do
    let x ← left.eval e
    let y ← right.eval e
    pure (op.onValues x y)
  | .assign target value =>
    match target.name? with
    | none => throw (.notAssignable target.kind)
    | some n => do
      let v ← value.eval e
      Eval.change fun s => s.assign e n v
      pure v
  | .object ps => do
    let table ← evalProperties e .empty ps
    Eval.newObject table
  | .dot _ _ => throw (.notEvaluable .member)
  | .index _ _ => throw (.notEvaluable .member)
  | .call _ _ => throw (.notEvaluable .call)

/-- Evaluates properties and sets them in a table, one after the other. -/
def evalProperties (e : ScopeId) (table : Table Value) : List Property → Eval (Table Value)
  | [] => pure table
  | .shorthand key :: ps => do
    let v ← Eval.read fun s => s.lookup e key
    evalProperties e (table.insert key v) ps
  | .pair key value :: ps => do
    let v ← value.eval e
    evalProperties e (table.insert key v) ps

end

/-- Runs a statement in the scope `e`.  The value of a declaration is computed before the name is
found to be free. -/
def Statement.eval (e : ScopeId) : Statement → Eval Value
  | .expr x => x.eval e
  | .declaration name constant value => do
    let v ← match value with
      | some x => x.eval e
      | none => pure .null
    Eval.change fun s => s.declare e name v constant
    pure v

/-- Runs statements one after the other; the value is that of the last one, or `last` if there is
none. -/
def evalStatements (e : ScopeId) (last : Value) : List Statement → Eval Value
  | [] => pure last
  | stmt :: stmts => do
    let v ← stmt.eval e
    evalStatements e v stmts

/-- Runs a program in the scope `e`; an empty program gives null. -/
def Program.eval (e : ScopeId) (p : Program) : Eval Value :=
  evalStatements e .null p.body

/-- Runs a phrase in the scope `e`. -/
def Phrase.eval (e : ScopeId) : Phrase → Eval Value
  | .program p => p.eval e
  | .statement stmt => stmt.eval e
  | .expr x => x.eval e

end Scriptlet
