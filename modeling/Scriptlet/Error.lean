import Scriptlet.Grammar.Violation
import Scriptlet.Program
import Scriptlet.Token.Lexer

/-!
# Errors

A source text can fail in three ways, one after the other: it has no tokens, its tokens are no
program, or its program goes wrong when it is run.  `Error` joins the three, and `Error.message` is
what a user is shown.
-/

namespace Scriptlet

/-- What can go wrong when a program is run. -/
inductive RuntimeError where
  /-- The name is bound already in the scope where it is declared. -/
  | alreadyBound (name : String)
  /-- No scope in reach binds the name. -/
  | unbound (name : String)
  /-- The name that is assigned to is bound as a constant. -/
  | constantAssigned (name : String)
  /-- What is assigned to is no name. -/
  | notAssignable (target : ExprKind)
  /-- Expressions of this kind have no value. -/
  | notEvaluable (kind : ExprKind)
deriving DecidableEq, Repr

/-- The text of a runtime error. -/
def RuntimeError.message : RuntimeError → String
  | .alreadyBound name => "Cannot declare variable '" ++ name ++ "' as it is already defined."
  | .unbound name => "Cannot resolve '" ++ name ++ "' as it does not exist."
  | .constantAssigned name => "Cannot reassign constant variable '" ++ name ++ "'."
  | .notAssignable target =>
    "Invalid left-hand side in assignment: " ++ target.text ++ "."
  | .notEvaluable kind => kind.text ++ " cannot be evaluated."

/-- What can go wrong with a source text. -/
inductive Error where
  /-- It has no tokens. -/
  | lex (error : LexError)
  /-- Its tokens are no program. -/
  | parse (error : ParseError)
  /-- Its program goes wrong. -/
  | runtime (error : RuntimeError)
deriving DecidableEq, Repr

/-- The text of an error. -/
def Error.message : Error → String
  | .lex e => e.message
  | .parse e => e.message
  | .runtime e => e.message

end Scriptlet
