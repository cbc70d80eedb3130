import Scriptlet.Number.Decimal

/-!
# The doubles behind a number

The sign apart, a finite double is a mantissa below `2 ^ 53` times a power of two, and the least
positive double is the unit of them all: `Magnitude` is `mantissa * 2 ^ scale` of these units.  In
the bit pattern the scale stands above the 52 lower bits of the mantissa, so that
`scale * 2 ^ 52 + mantissa` is the pattern of a magnitude, and a mantissa that is rounded up to
`2 ^ 53` carries into the scale by itself.  `nearest` relies on that: it rounds a quotient of
natural numbers to the nearest double, a tie to the even mantissa, in one division.
-/

namespace Scriptlet.Binary64

/-- The number of bits below the leading bit of a mantissa. -/
def fractionBits : Nat := 52

/-- The least positive double is one over two to this power. -/
def unitExponent : Nat := 1074

/-- The pattern of infinity; every finite magnitude has a smaller one. -/
def infinity : Nat := 2047 * Nat.pow 2 fractionBits

/-- The weight of the sign in a pattern. -/
def signWeight : Nat := Nat.pow 2 63

/-- The size of a finite double: `mantissa * 2 ^ scale` times the least positive double. -/
structure Magnitude where
  /-- The significant bits. -/
  mantissa : Nat
  /-- The power of two they are multiplied with. -/
  scale : Nat
deriving DecidableEq, Repr

/-- The magnitude with the given pattern. -/
def Magnitude.ofPattern (b : Nat) : Magnitude :=
  if b < Nat.pow 2 fractionBits then ⟨b, 0⟩
  else ⟨b % Nat.pow 2 fractionBits + Nat.pow 2 fractionBits, b / Nat.pow 2 fractionBits - 1⟩

/-- A double, taken apart. -/
inductive Parts where
  /-- No number at all. -/
  | nan
  /-- An infinity. -/
  | infinite (negative : Bool)
  /-- A finite number; zero too has a sign. -/
  | finite (negative : Bool) (magnitude : Magnitude)
deriving DecidableEq, Repr

/-- Takes a double apart. -/
def parts (x : Float) : Parts :=
  let b := x.toBits.toNat
  let negative : Bool := signWeight ≤ b
  let magnitude := b % signWeight
  if magnitude < infinity then .finite negative (.ofPattern magnitude)
  else if magnitude = infinity then .infinite negative
  else .nan

/-- The double with the given sign and pattern. -/
def ofPattern (negative : Bool) (b : Nat) : Float :=
  Float.ofBits (UInt64.ofNat (if negative then signWeight + b else b))

/-- The quotient of two natural numbers, rounded to the nearest natural number; a tie goes to the
even one. -/
def roundDiv (num den : Nat) : Nat :=
  let q := num / den
  let twice := 2 * (num % den)
  if twice < den then q
  else if den < twice then q + 1
  else q + q % 2

/-- The pattern of the double nearest to `num / den`; too large a quotient is infinite. -/
def nearest (num den : Nat) : Nat :=
  let units := num * Nat.pow 2 unitExponent
  let scale := (units / den).log2 - fractionBits
  min infinity (scale * Nat.pow 2 fractionBits + roundDiv units (den * Nat.pow 2 scale))

/-- The pattern of the double nearest to a decimal.  A coefficient other than zero reaches infinity
with 309 further zeros, and with its first digit 324 places behind the point it is less than half
the least double: the two tests keep the powers of ten small. -/
def ofDecimal (d : Decimal) : Nat :=
  if d.coefficient = 0 then 0
  else if 309 ≤ d.exponent then infinity
  else if Decimal.digitCount d.coefficient + d.exponent ≤ -324 then 0
  else nearest (d.coefficient * Nat.pow 10 d.exponent.toNat) (Nat.pow 10 (-d.exponent).toNat)

end Scriptlet.Binary64
