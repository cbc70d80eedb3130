import Scriptlet.Eval
import Scriptlet.Grammar

/-!
# Scripts

A script is a source text that is read and run in one go.  `parse` is its reading, `Script.run` runs
it in a scope of a store, and `Script.result` in a fresh global scope.
-/

namespace Scriptlet

/-- The program that a source text spells. -/
def parse (source : String) : Except Error Program :=
  match lex source with
  | .error e => .error (.lex e)
  | .ok ts =>
    match Grammar.parseTokens ts with
    | .error e => .error (.parse e)
    | .ok p => .ok p

namespace Script

/-- An outcome, and the store that is left. -/
abbrev Result (α : Type) := Except Error α × Store

/-- Runs a computation, with its errors as errors of a script. -/
def perform {α : Type} (x : Eval α) (s : Store) : Result α :=
  match x.run.run s with
  | (.ok v, s) => (.ok v, s)
  | (.error e, s) => (.error (.runtime e), s)

/-- Runs a source text in the scope `e` of a store.  A text that cannot be read changes nothing. -/
def run (source : String) (e : ScopeId) (s : Store) : Result Value :=
  match parse source with
  | .error err => (.error err, s)
  | .ok p => perform (p.eval e) s

/-- Runs a source text in a global scope of its own. -/
def result (source : String) : Result Value :=
  run source Store.empty.nextScope Store.empty.openGlobal

end Script

end Scriptlet
