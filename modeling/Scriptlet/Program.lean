import Scriptlet.Operator

/-!
# Programs

A program is a list of statements, and a statement is a declaration or an expression.  The tree of
an expression holds no parentheses: they only decide how it is built.
-/

namespace Scriptlet

mutual

/-- Expressions. -/
inductive Expr where
  /-- `target = value`. -/
  | assign (target value : Expr)
  /-- `object.property`. -/
  | dot (object property : Expr)
  /-- `object[property]`. -/
  | index (object property : Expr)
  /-- `callee(args)`. -/
  | call (callee : Expr) (args : List Expr)
  /-- An object written out property by property. -/
  | object (properties : List Property)
  /-- A number. -/
  | number (value : Float)
  /-- The null literal. -/
  | null
  /-- A variable, by its name. -/
  | name (name : String)
  /-- An operator between two operands. -/
  | binary (op : Operator) (left right : Expr)

/-- The properties of an object that is written out. -/
inductive Property where
  /-- A key that stands for itself and the variable of the same name. -/
  | shorthand (key : String)
  /-- `key: value`. -/
  | pair (key : String) (value : Expr)

end

/-- The key of a property. -/
def Property.key : Property → String
  | .shorthand key => key
  | .pair key _ => key

/-- Statements. -/
inductive Statement where
  /-- A declaration; without a value the name starts out as null. -/
  | declaration (name : String) (constant : Bool) (value : Option Expr)
  /-- An expression on its own. -/
  | expr (expr : Expr)

/-- A program: statements in the order in which they run. -/
structure Program where
  /-- The statements. -/
  body : List Statement

/-- A part of a program that can be run on its own. -/
inductive Phrase where
  /-- A whole program. -/
  | program (program : Program)
  /-- One statement. -/
  | statement (statement : Statement)
  /-- One expression. -/
  | expr (expr : Expr)

/-- The kinds of expressions that messages tell apart. -/
inductive ExprKind where
  /-- An assignment. -/
  | assignment
  /-- An access to a property, in either form. -/
  | member
  /-- A call. -/
  | call
  /-- An object that is written out. -/
  | object
  /-- A number. -/
  | number
  /-- The null literal. -/
  | null
  /-- A variable. -/
  | identifier
  /-- An operator between two operands. -/
  | binary
deriving DecidableEq, Repr

/-- The name of a kind in a message. -/
def ExprKind.text : ExprKind → String
  | .assignment => "AssignmentExpression"
  | .member => "MemberExpression"
  | .call => "CallExpression"
  | .object => "ObjectLiteral"
  | .number => "NumericLiteral"
  | .null => "NullLiteral"
  | .identifier => "Identifier"
  | .binary => "BinaryExpression"

/-- The kind of an expression. -/
def Expr.kind : Expr → ExprKind
  | .assign _ _ => .assignment
  | .dot _ _ => .member
  | .index _ _ => .member
  | .call _ _ => .call
  | .object _ => .object
  | .number _ => .number
  | .null => .null
  | .name _ => .identifier
  | .binary _ _ _ => .binary

end Scriptlet
