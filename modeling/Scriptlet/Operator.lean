/-!
# Arithmetic operators

The four operators on numbers, their symbols, and the two levels at which they bind.
-/

namespace Scriptlet

/-- The arithmetic operators. -/
inductive Operator where
  /-- Addition. -/
  | add
  /-- Subtraction. -/
  | sub
  /-- Multiplication. -/
  | mul
  /-- Division. -/
  | div
deriving DecidableEq, Repr

/-- How tightly an operator binds. -/
inductive Operator.Level where
  /-- The loose level of sums and differences. -/
  | sum
  /-- The tight level of products and quotients. -/
  | product
deriving DecidableEq, Repr

namespace Operator

/-- The sign of an operator. -/
def symbol : Operator → String
  | .add => "+"
  | .sub => "-"
  | .mul => "*"
  | .div => "/"

/-- The operator with the given sign. -/
def ofSymbol? (s : String) : Option Operator :=
  if s = "+" then some .add
  else if s = "-" then some .sub
  else if s = "*" then some .mul
  else if s = "/" then some .div
  else none

/-- The level of an operator. -/
def level : Operator → Level
  | .add | .sub => .sum
  | .mul | .div => .product

/-- The operator on numbers. -/
def apply : Operator → Float → Float → Float
  | .add, x, y => x + y
  | .sub, x, y => x - y
  | .mul, x, y => x * y
  | .div, x, y => x / y

/-- Every operator is found again from its own sign. -/
@[simp] theorem ofSymbol?_symbol (op : Operator) : ofSymbol? op.symbol = some op := by
  cases op <;> rfl

end Operator

end Scriptlet
