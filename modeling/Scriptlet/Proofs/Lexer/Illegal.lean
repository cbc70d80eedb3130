import Scriptlet.Proofs.Lexer.Positions

/-!
# Texts without tokens

Whether a character may stand in a text depends on itself and on the character before it: most
characters may stand anywhere or nowhere, and an underscore only behind a letter or another
underscore (`IsLegal`).  The lexer does not look at characters one by one, but cuts a text into
tokens that are as long as possible.  It comes to the same: the text has tokens if all characters
are legal, and otherwise it is refused at the first that is not.

`Judges cs r` says that the result `r` is right in this sense about the text `cs`.  The induction is
over the steps of the lexer, with the text that was read already (`judges_lexFrom`).  At each step
an underscore that comes next is illegal, because otherwise the last token would have gone on.
-/

namespace Scriptlet.Lexer

open Position

/-! ## Legal characters -/

/-- The characters that are tokens by themselves. -/
def marks : List Char :=
  ['(', ')', '\x7b', '\x7d', '[', ']', ',', '.', ':', ';', '=', '+', '-', '*', '/', '%']

/-- The characters that may stand anywhere. -/
def IsPlain (c : Char) : Prop :=
  c.isAlpha = true ∨ c.isDigit = true ∨ c ∈ [' ', '\t', '\n', '\r'] ∨ c ∈ marks

/-- The character `c` may stand behind the text `before`. -/
def IsLegal (before : List Char) (c : Char) : Prop :=
  IsPlain c ∨ (c = '_' ∧ ∃ d ∈ before.getLast?, d.isAlpha = true ∨ d = '_')

/-- All characters of a text are legal where they stand. -/
def AllLegal (cs : List Char) : Prop :=
  ∀ before c after, cs = before ++ c :: after → IsLegal before c

section Legal

variable {c d : Char} {cs run text before : List Char} {kind : TokenKind}

/-- A character that is read as a mark is one of the marks. -/
lemma mem_marks_of_markKind? (h : markKind? c = some kind) : c ∈ marks := by
  unfold markKind? at h
  rcases ite_eq_iff.1 h with ⟨hop, -⟩ | ⟨-, h⟩
  · rcases hop with rfl | rfl | rfl | rfl | rfl <;> decide
  iterate 11
    rcases ite_eq_iff.1 h with ⟨rfl, -⟩ | ⟨-, h⟩
    · decide
  cases h

/-- A character that is not read as a mark is none of the marks. -/
lemma not_mem_marks_of_markKind? (h : markKind? c = none) : c ∉ marks := by
  have hmarks : marks.all (fun d => (markKind? d).isSome) = true := by decide
  intro hc
  have hsome : (markKind? c).isSome = true := List.all_eq_true.1 hmarks c hc
  rw [h] at hsome
  cases hsome

/-- An underscore is none of the characters that may stand anywhere. -/
lemma isLegal_underscore_iff : IsLegal before '_' ↔ ∃ d ∈ before.getLast?, isWordChar d = true := by
  have hplain : ¬ IsPlain '_' := by
    unfold IsPlain
    decide
  simp [IsLegal, hplain, isWordChar_iff]

/-- In the empty text nothing is illegal. -/
lemma allLegal_nil : AllLegal [] := by
  intro before c after h
  cases before <;> cases h

/-- Legal characters can be put behind a text. -/
lemma AllLegal.append (hcs : AllLegal cs)
    (hrun : ∀ before c after, run = before ++ c :: after → IsLegal (cs ++ before) c) :
    AllLegal (cs ++ run) := by
  intro before c after h
  rcases List.append_eq_append_iff.1 h with ⟨front, rfl, hrest⟩ | ⟨back, rfl, hrest⟩
  · exact hrun front c after hrest
  · -- The character stands in `cs`, unless `cs` ends right in front of it.
    cases back with
    | nil =>
      rw [List.append_nil] at hrun
      exact List.append_nil before ▸ hrun [] c after hrest.symm
    | cons d back =>
      obtain ⟨rfl, -⟩ := List.cons.inj hrest
      exact hcs before c back rfl

/-- The last character of a text is that of the part that was put behind it. -/
lemma exists_getLast?_append (cs : List Char) (h : text ≠ []) :
    ∃ d ∈ text, (cs ++ text).getLast? = some d :=
  ⟨text.getLast h, List.getLast_mem h, by
    rw [List.getLast?_append_of_ne_nil _ h, List.getLast?_eq_some_getLast]⟩

/-- A word has letters and underscores only. -/
lemma IsWord.letters (h : IsWord text) : ∀ d ∈ text, d.isAlpha = true ∨ d = '_' := by
  match text, h with
  | c :: cs, ⟨hc, hcs⟩ => exact List.forall_mem_cons.2 ⟨.inl hc, hcs⟩

/-- A token can be put behind a text. -/
lemma AllLegal.token (hcs : AllLegal cs) (h : Spells kind text) : AllLegal (cs ++ text) := by
  refine hcs.append fun before c after heq => ?_
  have hmem : c ∈ text := heq ▸ List.mem_append_right before List.mem_cons_self
  rcases kind_cases kind with rfl | hword | hmark
  · exact .inl (.inr (.inl (h.2 c hmem)))
  · have hisWord := (h.isWord hword).1
    rcases hisWord.letters c hmem with hc | rfl
    · exact .inl (.inl hc)
    · -- An underscore is not the first of the word, and stands behind another of its characters.
      have hfront : before ≠ [] := by
        rintro rfl
        rw [heq] at hisWord
        exact absurd hisWord.1 (by decide)
      obtain ⟨d, hd, hlast⟩ := exists_getLast?_append cs hfront
      have hdtext : d ∈ text := heq ▸ List.mem_append_left _ hd
      exact .inr ⟨rfl, d, hlast, hisWord.letters d hdtext⟩
  · obtain ⟨d, rfl, hkind, -⟩ := h.mark hmark
    rw [List.mem_singleton.1 hmem]
    exact .inl (.inr (.inr (.inr (mem_marks_of_markKind? hkind))))

/-- A digit is no part of a word. -/
lemma isWordChar_eq_false_of_isDigit (h : d.isDigit = true) : isWordChar d = false := by
  rw [Bool.eq_false_iff]
  intro hletter
  rcases isWordChar_iff.1 hletter with halpha | rfl
  · rw [isDigit_eq_false_of_isAlpha halpha] at h
    cases h
  · exact absurd h (by decide)

/-- A blank is no part of a word. -/
lemma isWordChar_eq_false_of_isBlank (h : isBlank d = true) : isWordChar d = false := by
  rw [Bool.eq_false_iff]
  intro hletter
  rw [isBlank_eq_false (by decide) hletter] at h
  cases h

/-- An underscore is illegal behind characters that are no part of a word. -/
lemma not_isLegal_underscore (hne : text ≠ []) (h : ∀ d ∈ text, isWordChar d = false) :
    ¬ IsLegal (cs ++ text) '_' := by
  obtain ⟨d, hd, hlast⟩ := exists_getLast?_append cs hne
  rw [isLegal_underscore_iff, hlast]
  rintro ⟨d', ⟨⟩, hletter⟩
  rw [h d hd] at hletter
  cases hletter

/-- A token goes on with every underscore that is legal behind it. -/
lemma Spells.extends_underscore (h : Spells kind text) (hlegal : IsLegal (cs ++ text) '_') :
    Extends kind '_' := by
  rcases kind_cases kind with rfl | hword | hmark
  · refine absurd hlegal (not_isLegal_underscore h.1 fun d hd => ?_)
    exact isWordChar_eq_false_of_isDigit (h.2 d hd)
  · exact hword.extends_iff.2 (by decide)
  · obtain ⟨d, rfl, -, -, -, hletter⟩ := h.mark hmark
    refine absurd hlegal (not_isLegal_underscore (List.cons_ne_nil _ _) fun d' hd' => ?_)
    rw [List.mem_singleton.1 hd', hletter]

/-- A character that starts no token and is not blank may not stand anywhere. -/
lemma not_isPlain_of_lexeme? (hblank : isBlank c = false) (h : lexeme? c cs = none) :
    ¬ IsPlain c := by
  unfold lexeme? at h
  split_ifs at h with hdigit halpha
  have hmark : c ∉ marks := not_mem_marks_of_markKind? (Option.map_eq_none_iff.1 h)
  rintro (hc | hc | hc | hc)
  · exact halpha hc
  · exact hdigit hc
  · rw [isBlank_iff.2 hc] at hblank
    cases hblank
  · exact hmark hc

end Legal

/-! ## What the lexer says about a text -/

/-- The result `r` is right about the text `cs`: there are tokens if all characters are legal, and
otherwise an error names the first one that is not, and its place. -/
inductive Judges (cs : List Char) : Except LexError (List Token) → Prop where
  /-- There are tokens. -/
  | tokens (ts : List Token) : AllLegal cs → Judges cs (.ok ts)
  /-- There is an illegal character. -/
  | refusal {before : List Char} {c : Char} {after : List Char} : cs = before ++ c :: after →
    AllLegal before → ¬ IsLegal before c → Judges cs (.error (.unrecognized c (behind before)))

/-- The lexer has read the legal text `done` and goes on with `cs`, where it does not find an
underscore that is legal behind `done`.  Then it is right about the two together. -/
lemma judges_lexFrom {p : Position} {done cs : List Char} (hp : p = behind done)
    (hdone : AllLegal done) (hfresh : cs.head? = some '_' → ¬ IsLegal done '_') :
    Judges (done ++ cs) (lexFrom p cs) := by
  fun_induction lexFrom p cs generalizing done with
  | case1 p =>
    rw [List.append_nil]
    exact .tokens _ hdone
  | case2 p c cs hblank ih =>
    have hc : c ∈ [' ', '\t', '\n', '\r'] := isBlank_iff.1 hblank
    rw [← List.singleton_append, ← List.append_assoc]
    refine ih (by rw [hp, behind_concat]) (hdone.append ?_) fun _ => ?_
    · intro before d after heq
      have hd : d ∈ [c] := heq ▸ List.mem_append_right before List.mem_cons_self
      exact .inl (.inr (.inr (.inl (List.mem_singleton.1 hd ▸ hc))))
    · refine not_isLegal_underscore (List.cons_ne_nil _ _) fun d hd => ?_
      rw [List.mem_singleton.1 hd, isWordChar_eq_false_of_isBlank hblank]
  | case3 p c cs hblank hnone =>
    rw [hp]
    refine .refusal rfl hdone ?_
    rintro (hplain | ⟨rfl, hbefore⟩)
    · exact not_isPlain_of_lexeme? (Bool.eq_false_iff.2 hblank) hnone hplain
    · exact hfresh rfl (.inr ⟨rfl, hbefore⟩)
  | case4 p c cs hblank l hlexeme ih =>
    obtain ⟨hspells, hstop⟩ := Lexeme.spells hlexeme
    have hplace : p.past l.text = behind (done ++ l.text) := by rw [hp, behind_append]
    have hrest := ih hplace (hdone.token hspells) fun hhead hlegal =>
      hstop '_' hhead (hspells.extends_underscore hlegal)
    rw [List.append_assoc, Lexeme.text_append_rest hlexeme] at hrest
    cases hresult : lexFrom (p.past l.text) l.rest with
    | ok ts =>
      rw [hresult] at hrest
      cases hrest with
      | tokens _ hlegal => exact .tokens _ hlegal
    | error err =>
      rw [hresult] at hrest
      cases hrest with
      | refusal heq hbefore hc => exact .refusal heq hbefore hc

/-- A front of a text with legal characters only ends before each illegal character. -/
lemma AllLegal.length_le {front rest before after : List Char} {c : Char} (h : AllLegal front)
    (hc : ¬ IsLegal before c) (heq : before ++ c :: after = front ++ rest) :
    front.length ≤ before.length := by
  rcases List.append_eq_append_iff.1 heq with ⟨back, rfl, hrest⟩ | ⟨back, rfl, -⟩
  · cases back with
    | nil => rw [List.append_nil]
    | cons d back =>
      obtain ⟨rfl, -⟩ := List.cons.inj hrest
      exact absurd (h before c back rfl) hc
  · rw [List.length_append]
    exact Nat.le_add_right _ _

/-- A text has one first illegal character. -/
lemma eq_of_first_illegal {before before' after after' : List Char} {c c' : Char}
    (h : before ++ c :: after = before' ++ c' :: after') (hlegal : AllLegal before)
    (hlegal' : AllLegal before') (hc : ¬ IsLegal before c) (hc' : ¬ IsLegal before' c') :
    before = before' ∧ c = c' := by
  have hlength : before.length = before'.length :=
    Nat.le_antisymm (hlegal.length_le hc' h.symm) (hlegal'.length_le hc h)
  obtain ⟨hbefore, hrest⟩ := List.append_inj h hlength
  exact ⟨hbefore, (List.cons.inj hrest).1⟩

section Judges

variable {cs : List Char} {r : Except LexError (List Token)} {c : Char} {p : Position}

/-- There is an error exactly if there is an illegal character. -/
lemma Judges.exists_error_iff (h : Judges cs r) :
    (∃ err, r = .error err) ↔ ∃ before c after, cs = before ++ c :: after ∧ ¬ IsLegal before c := by
  cases h with
  | tokens ts hlegal =>
    refine ⟨nofun, ?_⟩
    rintro ⟨before, c, after, heq, hc⟩
    exact absurd (hlegal before c after heq) hc
  | refusal heq _ hc => exact ⟨fun _ => ⟨_, _, _, heq, hc⟩, fun _ => ⟨_, rfl⟩⟩

/-- The error is the one of the first illegal character. -/
lemma Judges.eq_error_iff (h : Judges cs r) :
    r = .error (.unrecognized c p) ↔
      ∃ before after, cs = before ++ c :: after ∧ ¬ IsLegal before c ∧ AllLegal before ∧
        p = behind before := by
  constructor
  · rintro rfl
    cases h with
    | refusal heq hlegal hc => exact ⟨_, _, heq, hc, hlegal, rfl⟩
  · rintro ⟨before, after, heq, hc, hlegal, rfl⟩
    cases h with
    | tokens ts hall => exact absurd (hall before c after heq) hc
    | refusal heq' hlegal' hc' =>
      obtain ⟨rfl, rfl⟩ := eq_of_first_illegal (heq.symm.trans heq') hlegal hlegal' hc hc'
      rfl

end Judges

/-- A source has no tokens exactly if one of its characters is illegal, and then the error carries
the first of them, and its place. -/
theorem lex_error_iff (source : String) :
    ((∃ err, lex source = .error err) ↔
      ∃ before c after, source.toList = before ++ c :: after ∧ ¬ IsLegal before c) ∧
    ∀ c p, lex source = .error (.unrecognized c p) ↔
      ∃ before after, source.toList = before ++ c :: after ∧ ¬ IsLegal before c ∧
        AllLegal before ∧ p = behind before := by
  have hstart : Position.start = behind [] := rfl
  have hfresh : ¬ IsLegal [] '_' := by simp [isLegal_underscore_iff]
  have hjudges : Judges source.toList (lex source) :=
    judges_lexFrom hstart allLegal_nil fun _ => hfresh
  exact ⟨hjudges.exists_error_iff, fun c p => hjudges.eq_error_iff⟩

/-- Underscores go on with a word, but not with a number. -/
example : lex "a__b;\n\t1_2" = .error (.unrecognized '_' ⟨2, 3⟩) := by decide +kernel

end Scriptlet.Lexer
