import Mathlib
import Scriptlet.Proofs.Number.Digits

/-!
# Digits read back

The digits that a number is written with are read as that number (`Number.read?_text`).  Writing
looks for a decimal in the interval of the reals that round to the number, and reading rounds: the
two meet in `Magnitude.Attracts`, which says that a quotient lies in the interval.  What the search
finds does (`attracts_of_gridPoint?`), it always finds something since its last grid is finer than
every interval (`exists_gridPoint?_eq_shortest`), and what lies in the interval is rounded to the
number (`nearest_of_attracts`).

The one case where reading works at another scale than writing is a quotient a little below a power
of two: its own scale is one smaller, and it is rounded up to the power (`nearest_below_power`).
-/

namespace Scriptlet.Binary64

/-! ## The parts of a double -/

/-- Every double that is a number equals itself. -/
lemma beq_self {x : Float} (h : parts x ≠ .nan) : (x == x) = true := by
  rw [Float.beq_self_iff]
  rintro rfl
  exact h (by decide +kernel)

/-- A finite double has a pattern below that of infinity, and is the double with its sign and that
pattern. -/
lemma exists_pattern_of_parts {x : Float} {negative : Bool} {m : Magnitude}
    (h : parts x = .finite negative m) :
    ∃ b < infinity, m = .ofPattern b ∧ x = ofPattern negative b := by
  rw [parts] at h
  split_ifs at h with hfinite
  obtain ⟨rfl, rfl⟩ := Parts.finite.inj h
  refine ⟨_, hfinite, rfl, ?_⟩
  have hbits : (if decide (signWeight ≤ x.toBits.toNat) = true
      then signWeight + x.toBits.toNat % signWeight
      else x.toBits.toNat % signWeight) = x.toBits.toNat := by
    have hlt : x.toBits.toNat < 2 ^ 64 := x.toBits.toNat_lt
    show (if decide (2 ^ 63 ≤ x.toBits.toNat) = true then 2 ^ 63 + x.toBits.toNat % 2 ^ 63
      else x.toBits.toNat % 2 ^ 63) = x.toBits.toNat
    split_ifs with hsign
    · have hle := of_decide_eq_true hsign
      omega
    · have hle := of_decide_eq_false (Bool.eq_false_iff.2 hsign)
      omega
  rw [ofPattern, hbits, UInt64.ofNat_toNat, Float.ofBits_toBits]

/-- The powers of two are positive, written as the layout of the bits has them. -/
lemma twoPow_pos (n : Nat) : 0 < Nat.pow 2 n := Nat.two_pow_pos n

/-! ## Rounding a quotient -/

section Rounding

variable {num den q n scale k : Nat}

/-- A quotient with a remainder is nearest to one of two natural numbers. -/
lemma eq_or_eq_of_near {r : Nat} (hr : r < den) (hlow : 2 * (q * den) ≤ 2 * (k * den + r) + den)
    (hhigh : 2 * (k * den + r) ≤ 2 * (q * den) + den) : q = k ∨ q = k + 1 := by
  have hk : k ≤ q := by
    by_contra hlt
    have hmul : (q + 1) * den ≤ k * den := Nat.mul_le_mul_right den (by omega)
    rw [Nat.succ_mul] at hmul
    omega
  have hq : q ≤ k + 1 := by
    by_contra hlt
    have hmul : (k + 2) * den ≤ q * den := Nat.mul_le_mul_right den (by omega)
    rw [Nat.add_mul] at hmul
    omega
  omega

/-- The quotient is rounded to the natural number that is at most half a denominator off, and to an
odd one only if it is nearer than that. -/
lemma roundDiv_eq (hden : 0 < den) (hlow : 2 * (q * den) ≤ 2 * num + den)
    (hhigh : 2 * num ≤ 2 * (q * den) + den)
    (hodd : q % 2 = 1 → 2 * (q * den) ≠ 2 * num + den ∧ 2 * num ≠ 2 * (q * den) + den) :
    roundDiv num den = q := by
  have hnum : num = num / den * den + num % den := by
    rw [Nat.mul_comm, Nat.div_add_mod]
  have hrem : num % den < den := Nat.mod_lt num hden
  unfold roundDiv
  generalize num / den = k at *
  generalize num % den = r at *
  subst hnum
  dsimp only
  rcases eq_or_eq_of_near hrem hlow hhigh with rfl | rfl
  · split_ifs <;> omega
  · simp only [Nat.add_one_mul] at hlow hhigh hodd
    split_ifs <;> omega

/-- The scale of a natural number, from the powers of two around it. -/
lemma log2_sub_fractionBits (hlow : Nat.pow 2 fractionBits * Nat.pow 2 scale ≤ n ∨ scale = 0)
    (hhigh : n < 2 * Nat.pow 2 fractionBits * Nat.pow 2 scale) :
    n.log2 - fractionBits = scale := by
  simp only [Nat.pow_eq] at hlow hhigh
  rw [← Nat.pow_add] at hlow
  rw [← Nat.pow_succ', ← Nat.pow_add] at hhigh
  by_cases hn : n = 0
  · subst hn
    rcases hlow with hlow | rfl
    · have hpos : 0 < 2 ^ (fractionBits + scale) := Nat.two_pow_pos _
      omega
    · rfl
  · have hupper : n.log2 < fractionBits + 1 + scale := (Nat.log2_lt hn).2 hhigh
    rcases hlow with hlow | rfl
    · have hlower : fractionBits + scale ≤ n.log2 := (Nat.le_log2 hn).2 hlow
      omega
    · omega

/-- What is nearest is a rounded quotient, once its scale is known. -/
lemma nearest_eq (hden : 0 < den)
    (hlow : Nat.pow 2 fractionBits * (den * Nat.pow 2 scale) ≤ num * Nat.pow 2 unitExponent ∨
      scale = 0)
    (hhigh : num * Nat.pow 2 unitExponent < 2 * Nat.pow 2 fractionBits * (den * Nat.pow 2 scale)) :
    nearest num den = min infinity (scale * Nat.pow 2 fractionBits +
      roundDiv (num * Nat.pow 2 unitExponent) (den * Nat.pow 2 scale)) := by
  have hscale : (num * Nat.pow 2 unitExponent / den).log2 - fractionBits = scale := by
    refine log2_sub_fractionBits (hlow.imp_left fun h => ?_) ?_
    · rw [Nat.le_div_iff_mul_le hden, Nat.mul_assoc, Nat.mul_comm _ den]
      exact h
    · rw [Nat.div_lt_iff_lt_mul hden, Nat.mul_assoc, Nat.mul_comm _ den]
      exact hhigh
  unfold nearest
  dsimp only
  rw [hscale]

/-- A quotient at most a quarter of a place below a power of two is rounded to that power, which is
the mantissa `2 ^ 53` at the scale of the quotient. -/
lemma nearest_below_power (hden : 0 < den)
    (hless : num * Nat.pow 2 unitExponent < Nat.pow 2 fractionBits * (den * Nat.pow 2 (k + 1)))
    (hquarter : 4 * (Nat.pow 2 fractionBits * (den * Nat.pow 2 (k + 1))) ≤
      4 * (num * Nat.pow 2 unitExponent) + den * Nat.pow 2 (k + 1)) :
    nearest num den =
      min infinity ((k + 1) * Nat.pow 2 fractionBits + Nat.pow 2 fractionBits) := by
  have hplace : 0 < den * Nat.pow 2 k := Nat.mul_pos hden (twoPow_pos k)
  have hdouble : den * Nat.pow 2 (k + 1) = 2 * (den * Nat.pow 2 k) := by
    simp only [Nat.pow_eq, Nat.pow_succ]
    ring
  have hpower : Nat.pow 2 fractionBits * (den * Nat.pow 2 (k + 1)) =
      2 * Nat.pow 2 fractionBits * (den * Nat.pow 2 k) := by
    rw [hdouble]
    ring
  have hle : den * Nat.pow 2 k ≤ Nat.pow 2 fractionBits * (den * Nat.pow 2 k) :=
    Nat.le_mul_of_pos_left _ (twoPow_pos fractionBits)
  have hsplit := Nat.mul_assoc 2 (Nat.pow 2 fractionBits) (den * Nat.pow 2 k)
  rw [hpower] at hless hquarter
  have hround : roundDiv (num * Nat.pow 2 unitExponent) (den * Nat.pow 2 k) =
      2 * Nat.pow 2 fractionBits :=
    roundDiv_eq hplace (by omega) (by omega) (by omega)
  have hcarry : k * Nat.pow 2 fractionBits + 2 * Nat.pow 2 fractionBits =
      (k + 1) * Nat.pow 2 fractionBits + Nat.pow 2 fractionBits := by
    rw [Nat.add_one_mul k]
    omega
  rw [nearest_eq hden (.inl (by omega)) hless, hround, hcarry]

end Rounding

/-! ## The interval of a double -/

namespace Magnitude

/-- The pattern of a magnitude. -/
def pattern (m : Magnitude) : Nat :=
  m.scale * Nat.pow 2 fractionBits + m.mantissa

/-- The leading bit of the mantissa is set, but for the least scale. -/
def IsNormal (m : Magnitude) : Prop :=
  m.mantissa < 2 * Nat.pow 2 fractionBits ∧ (m.scale = 0 ∨ Nat.pow 2 fractionBits ≤ m.mantissa)

/-- A pattern is split so that the leading bit is set, but for the least scale. -/
lemma isNormal_ofPattern (b : Nat) : (ofPattern b).IsNormal := by
  have hpos := twoPow_pos fractionBits
  unfold ofPattern IsNormal
  split_ifs with hlt
  · dsimp only
    omega
  · have hmod := Nat.mod_lt b hpos
    dsimp only
    omega

/-- A pattern is put together again from its parts. -/
lemma pattern_ofPattern (b : Nat) : (ofPattern b).pattern = b := by
  have hpos := twoPow_pos fractionBits
  unfold pattern ofPattern
  split_ifs with hlt
  · exact (congrArg (· + b) (Nat.zero_mul _)).trans (Nat.zero_add b)
  · have hdiv : 0 < b / Nat.pow 2 fractionBits := Nat.div_pos (Nat.le_of_not_lt hlt) hpos
    obtain ⟨k, hk⟩ := Nat.exists_eq_add_of_le' hdiv
    have hb := Nat.div_add_mod' b (Nat.pow 2 fractionBits)
    rw [hk, Nat.add_one_mul] at hb
    dsimp only
    rw [hk, Nat.add_sub_cancel]
    omega

/-- The quotient `units / place` lies in the interval that rounds to `m`. -/
structure Attracts (m : Magnitude) (units place : Nat) : Prop where
  /-- It is at most half a place below `m`. -/
  low : 2 * (m.mantissa * place) ≤ 2 * units + place
  /-- It is at most half a place above `m`. -/
  high : 2 * units ≤ 2 * (m.mantissa * place) + place
  /-- The two ends belong to the even mantissas. -/
  odd : m.mantissa % 2 = 1 →
    2 * (m.mantissa * place) ≠ 2 * units + place ∧ 2 * units ≠ 2 * (m.mantissa * place) + place
  /-- Below a power of two it is at most a quarter of a place off. -/
  narrow : m.mantissa = Nat.pow 2 fractionBits → m.scale ≠ 0 →
    4 * (m.mantissa * place) ≤ 4 * units + place

end Magnitude

/-- A quotient in the interval that rounds to `m` is rounded to `m`. -/
lemma nearest_of_attracts {m : Magnitude} {num den : Nat} (hden : 0 < den) (hm : m.IsNormal)
    (h : m.Attracts (num * Nat.pow 2 unitExponent) (den * Nat.pow 2 m.scale)) :
    nearest num den = min infinity m.pattern := by
  obtain ⟨mantissa, scale⟩ := m
  obtain ⟨hbound, hlead⟩ := hm
  obtain ⟨hlow, hhigh, hodd, hnarrow⟩ := h
  dsimp only [Magnitude.pattern] at *
  have hplace : 0 < den * Nat.pow 2 scale := Nat.mul_pos hden (twoPow_pos scale)
  have hbelow : num * Nat.pow 2 unitExponent <
      2 * Nat.pow 2 fractionBits * (den * Nat.pow 2 scale) := by
    have hmantissa : (mantissa + 1) * (den * Nat.pow 2 scale) ≤
        2 * Nat.pow 2 fractionBits * (den * Nat.pow 2 scale) := Nat.mul_le_mul_right _ hbound
    rw [Nat.add_one_mul] at hmantissa
    omega
  by_cases hscale : Nat.pow 2 fractionBits * (den * Nat.pow 2 scale) ≤
      num * Nat.pow 2 unitExponent ∨ scale = 0
  · rw [nearest_eq hden hscale hbelow, roundDiv_eq hplace hlow hhigh hodd]
  · -- The quotient is below the power of two that it is rounded to, and its scale is smaller.
    obtain ⟨hless, hpos⟩ := not_or.1 hscale
    obtain ⟨k, rfl⟩ := Nat.exists_eq_add_one_of_ne_zero hpos
    have hpower : mantissa = Nat.pow 2 fractionBits := by
      rcases hlead with hzero | hle
      · exact absurd hzero hpos
      · by_contra hne
        have hlt : (Nat.pow 2 fractionBits + 1) * (den * Nat.pow 2 (k + 1)) ≤
            mantissa * (den * Nat.pow 2 (k + 1)) := Nat.mul_le_mul_right _ (by omega)
        rw [Nat.add_one_mul] at hlt
        omega
    subst hpower
    exact nearest_below_power hden (Nat.lt_of_not_le hless) (hnarrow rfl hpos)

/-! ## The search for a decimal -/

namespace Magnitude

variable {m : Magnitude} {g : Int} {c units place point : Nat}

/-- The lower end of the interval is half a place off, and a quarter below a power of two. -/
lemma lower_bounds (m : Magnitude) :
    4 * m.mantissa ≤ m.lower + 2 ∧
      (m.mantissa = Nat.pow 2 fractionBits → m.scale ≠ 0 → 4 * m.mantissa ≤ m.lower + 1) := by
  unfold lower
  constructor
  · split_ifs <;> omega
  · intro hmantissa hscale
    have hnarrow : m.narrowBelow = true := by
      simp [narrowBelow, hmantissa, hscale]
    rw [if_pos hnarrow]
    omega

/-- The test of the search: whether `point`, counted in quarters of a place, lies in the interval
that rounds to `m`. -/
def holds (m : Magnitude) (place point : Nat) : Bool :=
  if m.mantissa % 2 = 0 then m.lower * place ≤ point && point ≤ m.upper * place
  else m.lower * place < point && point < m.upper * place

/-- The ends of the interval belong to it when the mantissa is even. -/
lemma holds_iff :
    m.holds place point = true ↔ m.lower * place ≤ point ∧ point ≤ m.upper * place ∧
      (m.mantissa % 2 = 1 → m.lower * place < point ∧ point < m.upper * place) := by
  unfold holds
  split_ifs with heven
  · simp only [Bool.and_eq_true, decide_eq_true_eq]
    omega
  · simp only [Bool.and_eq_true, decide_eq_true_eq]
    omega

/-- What lies in the interval of a double rounds to it. -/
lemma attracts_of_holds (h : m.holds place (4 * units) = true) : m.Attracts units place := by
  obtain ⟨hlow, hhigh, hodd⟩ := holds_iff.1 h
  obtain ⟨hhalf, hquarter⟩ := m.lower_bounds
  have hlower : 4 * (m.mantissa * place) ≤ m.lower * place + 2 * place := by
    rw [← Nat.mul_assoc, ← Nat.add_mul]
    exact Nat.mul_le_mul_right place hhalf
  have hupper : m.upper * place = 4 * (m.mantissa * place) + 2 * place := by
    rw [upper, Nat.add_mul, Nat.mul_assoc]
  refine ⟨by omega, by omega, fun hone => ?_, fun hpower hscale => ?_⟩
  · have hstrict := hodd hone
    omega
  · have hnarrow : 4 * (m.mantissa * place) ≤ m.lower * place + place := by
      rw [← Nat.mul_assoc, ← Nat.add_one_mul]
      exact Nat.mul_le_mul_right place (hquarter hpower hscale)
    omega

/-- One grid of the search, in the terms of its test. -/
lemma gridPoint?_eq (m : Magnitude) (g : Int) :
    let quarter := Nat.pow 2 m.scale * Nat.pow 10 (-g).toNat
    let step := Nat.pow 2 (unitExponent + 2) * Nat.pow 10 g.toNat
    let value := 4 * m.mantissa * quarter
    let below := value / step
    m.gridPoint? g =
      if m.holds quarter (below * step) && (!m.holds quarter ((below + 1) * step) ||
        value - below * step < (below + 1) * step - value) then some below
      else if m.holds quarter ((below + 1) * step) then some (below + 1)
      else none :=
  rfl

/-- What the search finds lies in the interval. -/
lemma attracts_of_gridPoint? (h : m.gridPoint? g = some c) :
    m.Attracts (c * Nat.pow 10 g.toNat * Nat.pow 2 unitExponent)
      (Nat.pow 10 (-g).toNat * Nat.pow 2 m.scale) := by
  have hstep : c * (Nat.pow 2 (unitExponent + 2) * Nat.pow 10 g.toNat) =
      4 * (c * Nat.pow 10 g.toNat * Nat.pow 2 unitExponent) := by
    simp only [Nat.pow_eq, Nat.pow_add]
    ring
  apply attracts_of_holds
  rw [Nat.mul_comm (Nat.pow 10 _), ← hstep]
  rw [gridPoint?_eq] at h
  split_ifs at h with hbelow habove
  · cases h
    exact (Bool.and_eq_true_iff.1 hbelow).1
  · cases h
    exact habove

/-- A grid that is finer than a quarter of a place has a point in the interval. -/
lemma gridPoint?_isSome
    (h : Nat.pow 2 (unitExponent + 2) * Nat.pow 10 g.toNat ≤
      Nat.pow 2 m.scale * Nat.pow 10 (-g).toNat) : (m.gridPoint? g).isSome := by
  rw [gridPoint?_eq]
  have hpos : 0 < Nat.pow 2 (unitExponent + 2) * Nat.pow 10 g.toNat :=
    Nat.mul_pos (twoPow_pos _) (Nat.pow_pos (by decide))
  generalize Nat.pow 2 (unitExponent + 2) * Nat.pow 10 g.toNat = step at *
  generalize Nat.pow 2 m.scale * Nat.pow 10 (-g).toNat = quarter at *
  -- The point below is less than a step away from the double, and the ends a quarter or more.
  have hbelow : m.holds quarter (4 * m.mantissa * quarter / step * step) = true := by
    have hpoint := Nat.div_add_mod' (4 * m.mantissa * quarter) step
    have hrest := Nat.mod_lt (4 * m.mantissa * quarter) hpos
    have hupper : m.upper * quarter = 4 * m.mantissa * quarter + 2 * quarter := by
      rw [upper, Nat.add_mul]
    rw [holds_iff]
    by_cases hzero : m.mantissa = 0
    · have hlower : m.lower = 0 := by
        rw [lower, hzero, Nat.mul_zero, Nat.zero_sub]
      rw [hlower, hzero]
      simp
    · have hlower : (m.lower + 1) * quarter ≤ 4 * m.mantissa * quarter := by
        refine Nat.mul_le_mul_right quarter ?_
        unfold lower
        split_ifs <;> omega
      rw [Nat.add_one_mul] at hlower
      omega
  split_ifs with hchoice habove
  · rfl
  · rfl
  · simp [hbelow, habove] at hchoice

/-- The search ends with a point in the interval: its last grid is fine enough for every double. -/
lemma exists_gridPoint?_eq_shortest (m : Magnitude) :
    ∃ g c, m.gridPoint? g = some c ∧ m.shortest = ⟨c, g⟩ := by
  have hlast : (m.gridPoint? (-324)).isSome := by
    have hpow : Nat.pow 2 (unitExponent + 2) * Nat.pow 10 (-324 : Int).toNat ≤
        Nat.pow 10 (- -324 : Int).toNat := by
      decide +kernel
    exact gridPoint?_isSome (hpow.trans (Nat.le_mul_of_pos_left _ (twoPow_pos m.scale)))
  unfold shortest
  dsimp only
  generalize Decimal.digitCount (m.mantissa * Nat.pow 2 m.scale / Nat.pow 2 unitExponent) = top
  cases hfound : (List.range (top + 325)).findSome? fun (k : Nat) =>
      (m.gridPoint? ((top : Int) - k)).map fun c => (⟨c, (top : Int) - k⟩ : Decimal) with
  | none =>
    have hmem : top + 324 ∈ List.range (top + 325) := List.mem_range.2 (Nat.lt_succ_self _)
    have hnone := List.findSome?_eq_none_iff.1 hfound (top + 324) hmem
    have hexponent : (top : Int) - ((top + 324 : Nat) : Int) = -324 := by omega
    rw [Option.map_eq_none_iff, hexponent] at hnone
    rw [hnone] at hlast
    cases hlast
  | some d =>
    obtain ⟨k, -, hk⟩ := List.exists_of_findSome?_eq_some hfound
    obtain ⟨c, hc, rfl⟩ := Option.map_eq_some_iff.1 hk
    exact ⟨_, c, hc, rfl⟩

end Magnitude

end Scriptlet.Binary64

namespace Scriptlet.Number

open Lexer

/-! ## Numbers that are written with digits -/

/-- A number that is written with digits only is finite and has no sign. -/
lemma parts_of_isNumeral {x : Float} (h : IsNumeral (text x).toList) :
    ∃ m, Binary64.parts x = .finite false m ∧ text x = String.ofList m.shortest.positional := by
  unfold text at h ⊢
  cases hparts : Binary64.parts x with
  | nan =>
    rw [hparts] at h
    exact absurd h (by decide)
  | infinite negative =>
    rw [hparts] at h
    cases negative <;> exact absurd h (by decide)
  | finite negative m =>
    rw [hparts] at h
    cases negative with
    | false => exact ⟨m, rfl, by simp [signText]⟩
    | true => exact absurd (h.2 '-' (by simp [signText])) (by decide)

/-- The digits that a number is written with are read as that number. -/
theorem read?_text {x : Float} (h : IsNumeral (text x).toList) : read? (text x) = some x := by
  obtain ⟨m, hparts, htext⟩ := parts_of_isNumeral h
  obtain ⟨b, hb, rfl, hx⟩ := Binary64.exists_pattern_of_parts hparts
  obtain ⟨g, c, hpoint, hshortest⟩ :=
    Binary64.Magnitude.exists_gridPoint?_eq_shortest (.ofPattern b)
  rw [htext, String.toList_ofList] at h
  have hg : 0 ≤ g := by
    have hnonneg := Decimal.exponent_nonneg_of_digits h.2
    rw [hshortest] at hnonneg
    exact hnonneg
  have hnearest : Binary64.nearest (c * Nat.pow 10 g.toNat) 1 = b := by
    have hattracts := Binary64.Magnitude.attracts_of_gridPoint? hpoint
    rw [Int.toNat_of_nonpos (by omega : -g ≤ 0)] at hattracts
    have hnormal := Binary64.Magnitude.isNormal_ofPattern b
    rw [Binary64.nearest_of_attracts Nat.one_pos hnormal hattracts,
      Binary64.Magnitude.pattern_ofPattern, Nat.min_eq_right hb.le]
  rw [htext, read?_of_isNumeral h, hshortest, Decimal.ofDigits_positional hg, hnearest, hx]

end Scriptlet.Number
