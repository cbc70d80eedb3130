import Scriptlet.Number.Shortest

/-!
# Numbers as text

Numbers are doubles.  `Number.text` writes the fewest digits that read back, always in full and
without a point for whole values; `Number.read?` accepts every text that `Number.text` writes, and
also signs, exponents and the words for infinity in any case.
-/

namespace Scriptlet.Number

/-- The sign in front of a number. -/
def signText (negative : Bool) : String :=
  if negative then "-" else ""

/-- The text of a number: `NaN`, `inf` and `-inf` for what is not finite, else digits; the sign of
zero is written. -/
def text (x : Float) : String :=
  match Binary64.parts x with
  | .nan => "NaN"
  | .infinite negative => signText negative ++ "inf"
  | .finite negative m => signText negative ++ String.ofList m.shortest.positional

/-- Reads a number without a sign. -/
def readUnsigned? (negative : Bool) (cs : List Char) : Option Float :=
  let word := cs.map Char.toLower
  if word = "inf".toList || word = "infinity".toList then
    some (Binary64.ofPattern negative Binary64.infinity)
  else if word = "nan".toList then
    some (Binary64.ofPattern negative (Binary64.infinity + 1))
  else
    (Decimal.read? cs).map fun d => Binary64.ofPattern negative (Binary64.ofDecimal d)

/-- Reads a number: an optional sign, then a decimal or one of the words `inf`, `infinity` and
`nan` in any case.  A decimal gives the nearest double, a tie the even one. -/
def read? (s : String) : Option Float :=
  match s.toList with
  | '-' :: cs => readUnsigned? true cs
  | '+' :: cs => readUnsigned? false cs
  | cs => readUnsigned? false cs

end Scriptlet.Number
