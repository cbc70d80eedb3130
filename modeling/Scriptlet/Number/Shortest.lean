import Scriptlet.Number.Binary64

/-!
# The fewest digits that read back

The reals that round to a double form an interval around it.  `shortest` looks for the coarsest
grid of powers of ten with a point in that interval: the fewer digits, the coarser the grid.  Only
the double's two neighbours on a grid can be the nearest point, so `gridPoint?` tests these two,
takes the nearer one, and the upper one if both are equally near.

Everything is counted in quarters of the double's last place, where the ends of the interval are
whole: two quarters away on either side, but a single one below a power of two, where the next
smaller double is only half a place off.  The ends round to the double exactly if its mantissa is
even.
-/

namespace Scriptlet.Binary64

namespace Magnitude

/-- Whether the next smaller double is only half a place off. -/
def narrowBelow (m : Magnitude) : Bool :=
  m.mantissa == Nat.pow 2 fractionBits && m.scale != 0

/-- The lower end of the interval that rounds to `m`, in quarters of its last place. -/
def lower (m : Magnitude) : Nat :=
  4 * m.mantissa - if m.narrowBelow then 1 else 2

/-- The upper end of the interval that rounds to `m`, in quarters of its last place. -/
def upper (m : Magnitude) : Nat :=
  4 * m.mantissa + 2

/-- The point of the grid of multiples of `10 ^ g` that is nearest to `m`, if it rounds to `m`.
On the common scale a quarter of the last place of `m` weighs `quarter` and a step of the grid
weighs `step`. -/
def gridPoint? (m : Magnitude) (g : Int) : Option Nat :=
  let quarter := Nat.pow 2 m.scale * Nat.pow 10 (-g).toNat
  let step := Nat.pow 2 (unitExponent + 2) * Nat.pow 10 g.toNat
  let value := 4 * m.mantissa * quarter
  let inside (k : Nat) : Bool :=
    if m.mantissa % 2 = 0 then m.lower * quarter ≤ k * step && k * step ≤ m.upper * quarter
    else m.lower * quarter < k * step && k * step < m.upper * quarter
  let below := value / step
  let above := below + 1
  if inside below && (!inside above || value - below * step < above * step - value) then
    some below
  else if inside above then some above
  else none

/-- The decimal with the fewest digits that reads back as `m`, and of these the nearest to it.  The
search starts at a power of ten above `m`, and the last grid is finer than the least double. -/
def shortest (m : Magnitude) : Decimal :=
  let top := Decimal.digitCount (m.mantissa * Nat.pow 2 m.scale / Nat.pow 2 unitExponent)
  let found := (List.range (top + 325)).findSome? fun (k : Nat) =>
    let g : Int := (top : Int) - k
    (m.gridPoint? g).map fun c => (⟨c, g⟩ : Decimal)
  found.getD ⟨0, 0⟩

end Magnitude

end Scriptlet.Binary64
