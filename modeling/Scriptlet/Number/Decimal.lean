/-!
# Decimal numbers

A `Decimal` is a natural coefficient times a power of ten.  `Decimal.read?` reads one from digits
with an optional point and an optional exponent, keeping every digit, and `Decimal.positional`
writes one out in full, never with an exponent.
-/

namespace Scriptlet

/-- The number `coefficient * 10 ^ exponent`. -/
structure Decimal where
  /-- The digits, read as one natural number. -/
  coefficient : Nat
  /-- The power of ten they are multiplied with. -/
  exponent : Int
deriving DecidableEq, Repr

namespace Decimal

/-- The natural number a list of digits stands for. -/
def ofDigits (ds : List Char) : Nat :=
  ds.foldl (fun n d => 10 * n + (d.toNat - '0'.toNat)) 0

/-- How many digits a natural number has; zero has none. -/
def digitCount (n : Nat) : Nat :=
  if n = 0 then 0 else digitCount (n / 10) + 1
termination_by n
decreasing_by exact Nat.div_lt_self (Nat.pos_of_ne_zero ‹_›) (by decide)

/-- Reads a nonempty run of digits and nothing else. -/
def readDigits? (cs : List Char) : Option Nat :=
  if cs.isEmpty || !cs.all Char.isDigit then none else some (ofDigits cs)

/-- Reads digits with an optional sign. -/
def readSigned? : List Char → Option Int
  | '-' :: cs => (readDigits? cs).map fun n => -(n : Int)
  | '+' :: cs => (readDigits? cs).map fun n => (n : Int)
  | cs => (readDigits? cs).map fun n => (n : Int)

/-- Reads what may follow the digits of a number: nothing, or an exponent. -/
def readExponent? : List Char → Option Int
  | [] => some 0
  | c :: cs => if c = 'e' ∨ c = 'E' then readSigned? cs else none

/-- Splits off the digits behind a point, if there is a point. -/
def splitFraction : List Char → List Char × List Char
  | '.' :: cs => (cs.takeWhile Char.isDigit, cs.dropWhile Char.isDigit)
  | cs => ([], cs)

/-- Reads an unsigned decimal: digits with an optional point among, before or behind them, then an
optional exponent.  At least one digit must stand before the exponent. -/
def read? (cs : List Char) : Option Decimal :=
  let whole := cs.takeWhile Char.isDigit
  let (fraction, rest) := splitFraction (cs.dropWhile Char.isDigit)
  if whole.isEmpty && fraction.isEmpty then none
  else (readExponent? rest).map fun e => ⟨ofDigits (whole ++ fraction), e - fraction.length⟩

/-- The digits of `d` in full: zeros fill the places up to the point, and there is a point only if
digits stand behind it. -/
def positional (d : Decimal) : List Char :=
  let digits := Nat.toDigits 10 d.coefficient
  if 0 ≤ d.exponent then
    digits ++ List.replicate d.exponent.toNat '0'
  else
    let places := (-d.exponent).toNat
    let padded := List.replicate (places + 1 - digits.length) '0' ++ digits
    padded.take (padded.length - places) ++ '.' :: padded.drop (padded.length - places)

end Decimal

end Scriptlet
