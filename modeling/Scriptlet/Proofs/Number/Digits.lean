import Mathlib.Logic.Basic
import Mathlib.Tactic.ByContra
import Mathlib.Tactic.Lemma
import Mathlib.Tactic.SplitIfs
import Scriptlet.Number.Text
import Scriptlet.Proofs.Lexer.Spelling

/-!
# Digits as numbers

A run of digits can always be read: it is a decimal without places behind the point, and the number
is the double nearest to it (`Number.read?_of_isNumeral`).  And a decimal that is written with
digits only is a natural number, which the digits stand for (`Decimal.ofDigits_positional`).
-/

namespace Scriptlet

open Lexer

namespace Binary64

/-- A natural number is rounded as it is: no test for very large or small decimals gets in. -/
lemma ofDecimal_natural (n : Nat) : ofDecimal ⟨n, 0⟩ = nearest n 1 := by
  unfold ofDecimal
  split_ifs with hzero hlarge hsmall
  · dsimp only at hzero
    subst hzero
    simp [nearest, roundDiv]
  · dsimp only at hlarge
    omega
  · dsimp only at hsmall
    omega
  · show nearest (n * Nat.pow 10 0) (Nat.pow 10 0) = nearest n 1
    rw [Nat.pow_eq, Nat.pow_zero, Nat.mul_one]

end Binary64

namespace Decimal

/-- Digits alone are a decimal without places behind the point. -/
lemma read?_of_isNumeral {digits : List Char} (h : IsNumeral digits) :
    read? digits = some ⟨ofDigits digits, 0⟩ := by
  obtain ⟨hne, hdigits⟩ := h
  have hstop : ∀ d ∈ ([] : List Char).head?, d.isDigit = false := nofun
  obtain ⟨htake, hdrop⟩ := takeWhile_append_of_stop hdigits hstop
  rw [List.append_nil] at htake hdrop
  unfold read?
  rw [htake, hdrop]
  simp [splitFraction, readExponent?, hne]

/-- A decimal that is written without a point is a natural number. -/
lemma exponent_nonneg_of_digits {d : Decimal} (h : ∀ c ∈ d.positional, c.isDigit = true) :
    0 ≤ d.exponent := by
  by_contra hneg
  rw [positional, if_neg hneg] at h
  exact absurd (h '.' (List.mem_append_right _ List.mem_cons_self)) (by decide)

/-- The digits of a natural number stand for it. -/
lemma ofDigits_positional {c : Nat} {g : Int} (hg : 0 ≤ g) :
    ofDigits (positional ⟨c, g⟩) = c * Nat.pow 10 g.toNat := by
  have hdigits : ofDigits (positional ⟨c, g⟩) = Nat.ofDigitChars 10 (positional ⟨c, g⟩) 0 :=
    Nat.ofDigitChars_eq_foldl.symm
  rw [hdigits, positional, if_pos hg, Nat.ofDigitChars_append, Nat.ofDigitChars_ten_toDigits,
    Nat.ofDigitChars_replicate_zero, Nat.mul_comm, Nat.pow_eq]

end Decimal

namespace Number

/-- Putting a digit in lower case does not change it. -/
lemma toLower_eq_of_isDigit {c : Char} (h : c.isDigit = true) : c.toLower = c := by
  have hhigh : c.val ≤ '9'.val := of_decide_eq_true (Bool.and_eq_true_iff.1 h).2
  have hrange : ¬ (c.val ≥ 'A'.val ∧ c.val ≤ 'Z'.val) := by
    rintro ⟨hletter, -⟩
    exact absurd (UInt32.le_trans hletter hhigh) (by decide)
  exact dif_neg hrange

/-- Digits are read as the double nearest to the natural number that they stand for. -/
lemma read?_of_isNumeral {digits : List Char} (h : IsNumeral digits) :
    read? (String.ofList digits) =
      some (Binary64.ofPattern false (Binary64.nearest (Decimal.ofDigits digits) 1)) := by
  have hlower : digits.map Char.toLower = digits :=
    (List.map_congr_left fun c hc => toLower_eq_of_isDigit (h.2 c hc)).trans (List.map_id digits)
  have hword : ∀ word : List Char, ¬ IsNumeral word → digits ≠ word := by
    rintro word hnot rfl
    exact hnot h
  unfold read?
  rw [String.toList_ofList]
  split
  · exact absurd (h.2 '-' List.mem_cons_self) (by decide)
  · exact absurd (h.2 '+' List.mem_cons_self) (by decide)
  · unfold readUnsigned?
    rw [hlower, if_neg, if_neg (hword _ (by decide)), Decimal.read?_of_isNumeral h,
      Option.map_some, Binary64.ofDecimal_natural]
    simp only [Bool.or_eq_true, decide_eq_true_eq, not_or]
    exact ⟨hword _ (by decide), hword _ (by decide)⟩

/-- Digits can be read as a number. -/
lemma read?_isSome_of_isNumeral {digits : List Char} (h : IsNumeral digits) :
    (read? (String.ofList digits)).isSome = true := by
  rw [read?_of_isNumeral h]
  rfl

end Number

end Scriptlet
