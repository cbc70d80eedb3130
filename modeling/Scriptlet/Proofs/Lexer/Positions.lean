import Mathlib.Data.List.DropRight
import Scriptlet.Proofs.Lexer.Layout

/-!
# Where tokens stand

The lexer carries a place along and moves it past each token and each blank, so that the place of a
token comes from that of the token before it.  `Position.behind` counts the place behind a text from
scratch: its newlines, and the characters behind the last of them.  `Position.start_past_eq` says
that both ways of counting agree, and the main result says it of every token: it stands behind all
of the text in front of it, and so behind the token before it.
-/

namespace Scriptlet

/-! ## Places, counted from scratch -/

namespace Position

/-- The place just behind the characters `cs` at the start of a text: one line for each newline, and
one column for each character behind the last newline. -/
def behind (cs : List Char) : Position :=
  ⟨1 + cs.count '\n', 1 + (cs.rtakeWhile (· ≠ '\n')).length⟩

/-- The place `p` comes before the place `q` in the order of reading. -/
def Before (p q : Position) : Prop :=
  p.line < q.line ∨ (p.line = q.line ∧ p.column < q.column)

variable {p q r : Position} {c : Char} {cs : List Char}

/-- One more character moves the counted place as it moves any place. -/
lemma behind_concat (cs : List Char) (c : Char) : behind (cs ++ [c]) = (behind cs).advance c := by
  unfold behind advance
  by_cases hc : c = '\n'
  · have hcolumn : (cs ++ [c]).rtakeWhile (· ≠ '\n') = [] :=
      List.rtakeWhile_concat_neg _ _ _ (by simp [hc])
    rw [if_pos hc, hcolumn, List.count_append, hc, List.count_singleton_self, Nat.add_assoc]
    rfl
  · have hcolumn : (cs ++ [c]).rtakeWhile (· ≠ '\n') = cs.rtakeWhile (· ≠ '\n') ++ [c] :=
      List.rtakeWhile_concat_pos _ _ _ (by simp [hc])
    have hline : (cs ++ [c]).count '\n' = cs.count '\n' := by
      rw [List.count_append, List.count_singleton, beq_eq_false_iff_ne.2 hc]
      rfl
    rw [if_neg hc, hcolumn, hline, List.length_append, List.length_singleton, Nat.add_assoc]

/-- Moving along a text character by character leads to the place that is counted from scratch. -/
lemma start_past_eq (cs : List Char) : start.past cs = behind cs := by
  induction cs using List.reverseRecOn with
  | nil => rfl
  | append_singleton cs c ih =>
    rw [past_append, ih, behind_concat]
    rfl

/-- The place behind two texts is reached from the one behind the first. -/
lemma behind_append (cs ds : List Char) : behind (cs ++ ds) = (behind cs).past ds := by
  rw [← start_past_eq, past_append, start_past_eq]

/-! ## The order of reading -/

/-- What is before a place that is before another is before that, too. -/
lemma Before.trans (hpq : p.Before q) (hqr : q.Before r) : p.Before r := by
  unfold Before at *
  omega

/-- No place is before itself. -/
lemma Before.ne (h : p.Before q) : p ≠ q := by
  rintro rfl
  unfold Before at h
  omega

/-- Every character, a line break included, leads to a later place. -/
lemma before_advance (p : Position) (c : Char) : p.Before (p.advance c) := by
  unfold advance
  by_cases hc : c = '\n'
  · rw [if_pos hc]
    exact .inl (Nat.lt_succ_self p.line)
  · rw [if_neg hc]
    exact .inr ⟨rfl, Nat.lt_succ_self p.column⟩

/-- Every text that is not empty leads on. -/
lemma before_past_cons (p : Position) (c : Char) (cs : List Char) :
    p.Before (p.past (c :: cs)) := by
  induction cs generalizing p c with
  | nil => exact before_advance p c
  | cons d cs ih => exact (before_advance p c).trans (ih (p.advance c) d)

end Position

/-! ## The places of tokens -/

namespace Lexer

open Position

variable {x : Piece} {xs : List Piece}

/-- A token of a layout stands behind the pieces in front of it. -/
lemma Piece.position_of_tokens {lead : List Char} {i : Nat} {t : Token}
    (h : (Piece.tokens (behind lead) xs)[i]? = some t) :
    t.position = behind (layout lead (xs.take i)) := by
  induction xs generalizing lead i with
  | nil =>
    cases i with
    | zero =>
      cases h
      rw [List.take_nil, layout_nil]
      rfl
    | succ i => cases h
  | cons x xs ih =>
    cases i with
    | zero =>
      cases h
      rw [List.take_zero, layout_nil]
    | succ i =>
      -- The piece goes over into what stands in front of all the others.
      rw [Piece.tokens, List.getElem?_cons_succ, ← behind_append] at h
      rw [ih h, List.take_succ_cons, layout, layout, List.flatMap_cons, List.append_assoc]

/-- A piece leads on. -/
lemma Piece.before_past_chars (p : Position) (x : Piece) : p.Before (p.past x.chars) := by
  obtain ⟨c, cs, htext, -⟩ := x.spells.extends_head
  rw [Piece.chars, htext, List.cons_append]
  exact before_past_cons p c _

/-- No token of a layout stands before its start. -/
lemma Piece.position_of_mem_tokens {p : Position} {t : Token} (h : t ∈ Piece.tokens p xs) :
    t.position = p ∨ p.Before t.position := by
  induction xs generalizing p with
  | nil =>
    rw [List.mem_singleton.1 h]
    exact .inl rfl
  | cons x xs ih =>
    rcases List.mem_cons.1 h with rfl | h
    · exact .inl rfl
    · have hstep := x.before_past_chars p
      rcases ih h with heq | hbefore
      · exact .inr (heq ▸ hstep)
      · exact .inr (hstep.trans hbefore)

/-- The tokens of a layout stand in the order of reading. -/
lemma Piece.pairwise_tokens (p : Position) (xs : List Piece) :
    (Piece.tokens p xs).Pairwise fun t u => t.position.Before u.position := by
  induction xs generalizing p with
  | nil => exact List.pairwise_singleton _ _
  | cons x xs ih =>
    refine List.pairwise_cons.2 ⟨fun t ht => ?_, ih (p.past x.chars)⟩
    have hstep := x.before_past_chars p
    rcases Piece.position_of_mem_tokens ht with heq | hbefore
    · exact heq ▸ hstep
    · exact hstep.trans hbefore

/-- The place of each token is the one that is counted from scratch, over all of the text in front
of it; for the end marker this is the whole source.  So each token stands behind all the tokens
before it, and no two of them in the same place. -/
theorem lex_positions (source : String) (ts : List Token) (h : lex source = .ok ts) :
    (∃ lead xs us q, IsGap lead ∧ source = String.ofList (layout lead xs) ∧
      ts = us ++ [.endMarker q] ∧ us.map spelling = xs.map Piece.spelling ∧
      (∀ i t, us[i]? = some t → t.position = behind (layout lead (xs.take i))) ∧
      q = behind source.toList) ∧
    (ts.Pairwise fun t u => t.position.Before u.position) ∧ (ts.map Token.position).Nodup := by
  obtain ⟨lead, xs, hlead, -, hsource, hts⟩ := exists_layout h
  rw [start_past_eq] at hts
  have hpairwise : ts.Pairwise fun t u => t.position.Before u.position :=
    hts ▸ Piece.pairwise_tokens _ xs
  refine ⟨?_, hpairwise, List.pairwise_map.2 (hpairwise.imp Before.ne)⟩
  obtain ⟨us, q, heq, hshown⟩ := Piece.exists_tokens_eq xs (behind lead)
  have hlength : us.length = xs.length := by simpa using congrArg List.length hshown
  refine ⟨lead, xs, us, q, hlead, ?_, hts.trans heq, hshown, fun i t ht => ?_, ?_⟩
  · rw [← hsource, String.ofList_toList]
  · refine Piece.position_of_tokens ?_
    rw [heq, List.getElem?_append_left (List.getElem?_eq_some_iff.1 ht).1, ht]
  · have hmarker : (Piece.tokens (behind lead) xs)[us.length]? = some (.endMarker q) := by
      rw [heq, List.getElem?_concat_length]
    rw [hsource, ← List.take_length (l := xs), ← hlength]
    exact Piece.position_of_tokens hmarker

/-- In the source `ab` tab `=` newline blank `12` return newline, the number stands in the second
line and the end marker in the third. -/
theorem lex_positions_over_lines :
    ∃ ts, lex "ab\t=\n 12\r\n" = .ok ts ∧
      ts.map Token.position = [⟨1, 1⟩, ⟨1, 4⟩, ⟨2, 2⟩, ⟨3, 1⟩] ∧
      (ts.Pairwise fun t u => t.position.Before u.position) ∧ (ts.map Token.position).Nodup := by
  have hlex : lex "ab\t=\n 12\r\n" =
      .ok [⟨.identifier, "ab", ⟨1, 1⟩⟩, ⟨.equals, "=", ⟨1, 4⟩⟩, ⟨.number, "12", ⟨2, 2⟩⟩,
        .endMarker ⟨3, 1⟩] := by
    decide +kernel
  obtain ⟨-, hpairwise, hnodup⟩ := lex_positions _ _ hlex
  exact ⟨_, hlex, rfl, hpairwise, hnodup⟩

end Lexer

end Scriptlet
