import Mathlib.Logic.Basic
import Mathlib.Tactic.Lemma
import Mathlib.Tactic.SplitIfs
import Scriptlet.Token.Lexer

/-!
# The texts of the kinds of tokens

`Spells kind text` says which texts a kind of token can have, and `Extends kind c` that a token of
that kind would be longer if the character `c` came next.  The two together say what the front of a
text is: a lexeme spells its kind and stops where that spelling does (`Lexeme.spells`), and every
spelling that stops is the lexeme at its place (`lexeme?_of_spells`).  Two tokens without a blank
between them run together only if both are numbers or both are words (`Spells.extends_head`).
-/

namespace Scriptlet.Lexer

/-! ## Spellings -/

/-- A run of digits. -/
def IsNumeral (text : List Char) : Prop :=
  text ≠ [] ∧ ∀ c ∈ text, c.isDigit = true

/-- A plain letter, then plain letters and underscores. -/
def IsWord : List Char → Prop
  | [] => False
  | c :: cs => c.isAlpha = true ∧ ∀ d ∈ cs, d.isAlpha = true ∨ d = '_'

/-- A word that is not reserved. -/
def IsName (text : List Char) : Prop :=
  IsWord text ∧ text ≠ "let".toList ∧ text ≠ "const".toList

/-- The texts of the kinds that have finitely many. -/
def fixedTexts : TokenKind → List (List Char)
  | .letWord => ["let".toList]
  | .constWord => ["const".toList]
  | .operator => [['+'], ['-'], ['*'], ['/'], ['%']]
  | .equals => [['=']]
  | .comma => [[',']]
  | .dot => [['.']]
  | .colon => [[':']]
  | .semicolon => [[';']]
  | .openParen => [['(']]
  | .closeParen => [[')']]
  | .openBrace => [['\x7b']]
  | .closeBrace => [['\x7d']]
  | .openBracket => [['[']]
  | .closeBracket => [[']']]
  | .null | .number | .identifier | .endOfInput => []

/-- The text is one that a token of the kind can have.  The null literal and the end of the input
have none. -/
def Spells (kind : TokenKind) (text : List Char) : Prop :=
  match kind with
  | .number => IsNumeral text
  | .identifier => IsName text
  | kind => text ∈ fixedTexts kind

/-- The kinds whose tokens are words. -/
def IsWordKind (kind : TokenKind) : Prop :=
  kind = .identifier ∨ kind = .letWord ∨ kind = .constWord

/-- A token of the kind would go on with the character. -/
def Extends (kind : TokenKind) (c : Char) : Prop :=
  (kind = .number ∧ c.isDigit = true) ∨ (IsWordKind kind ∧ (c.isAlpha = true ∨ c = '_'))

section Decidable

instance (text : List Char) : Decidable (IsNumeral text) :=
  decidable_of_iff ((!text.isEmpty && text.all Char.isDigit) = true) (by simp [IsNumeral])

instance : (text : List Char) → Decidable (IsWord text)
  | [] => inferInstanceAs (Decidable False)
  | c :: cs =>
    decidable_of_iff ((c.isAlpha && cs.all fun d => d.isAlpha || d == '_') = true)
      (by simp [IsWord])

instance (text : List Char) : Decidable (IsName text) :=
  inferInstanceAs (Decidable (_ ∧ _))

instance (kind : TokenKind) (text : List Char) : Decidable (Spells kind text) :=
  match kind with
  | .number => inferInstanceAs (Decidable (IsNumeral text))
  | .identifier => inferInstanceAs (Decidable (IsName text))
  | .null | .letWord | .constWord | .operator | .equals | .comma | .dot | .colon | .semicolon
  | .openParen | .closeParen | .openBrace | .closeBrace | .openBracket | .closeBracket
  | .endOfInput => inferInstanceAs (Decidable (text ∈ _))

instance (kind : TokenKind) : Decidable (IsWordKind kind) :=
  inferInstanceAs (Decidable (_ ∨ _))

instance (kind : TokenKind) (c : Char) : Decidable (Extends kind c) :=
  inferInstanceAs (Decidable (_ ∨ _))

end Decidable

/-! ## Words -/

section Words

variable {c : Char} {text : List Char} {kind : TokenKind}

/-- The characters of a word behind its first are letters and underscores. -/
lemma isWordChar_iff : isWordChar c = true ↔ c.isAlpha = true ∨ c = '_' := by
  simp [isWordChar]

/-- The kind of a word is a kind of words. -/
lemma isWordKind_wordKind (text : List Char) : IsWordKind (wordKind text) := by
  unfold wordKind
  split_ifs <;> decide

/-- Every word spells its kind. -/
lemma IsWord.spells (h : IsWord text) : Spells (wordKind text) text := by
  unfold wordKind
  split_ifs with hlet hconst
  · exact List.mem_singleton.2 hlet
  · exact List.mem_singleton.2 hconst
  · exact ⟨h, hlet, hconst⟩

/-- The three kinds of words are told apart by the word alone. -/
lemma Spells.isWord (h : Spells kind text) (hkind : IsWordKind kind) :
    IsWord text ∧ wordKind text = kind := by
  rcases hkind with rfl | rfl | rfl
  · exact ⟨h.1, by rw [wordKind, if_neg h.2.1, if_neg h.2.2]⟩
  · obtain rfl := List.mem_singleton.1 h
    decide
  · obtain rfl := List.mem_singleton.1 h
    decide

end Words

/-! ## Marks -/

section Marks

variable {c : Char} {text : List Char} {kind : TokenKind}

/-- The kinds whose tokens are single marks. -/
def IsMarkKind (kind : TokenKind) : Prop :=
  kind ≠ .number ∧ ¬ IsWordKind kind

instance (kind : TokenKind) : Decidable (IsMarkKind kind) :=
  inferInstanceAs (Decidable (_ ∧ _))

/-- A mark spells its kind, which is one of the kinds of marks. -/
lemma spells_of_markKind? (h : markKind? c = some kind) : Spells kind [c] ∧ IsMarkKind kind := by
  unfold markKind? at h
  rcases ite_eq_iff.1 h with ⟨hop, ⟨⟩⟩ | ⟨-, h⟩
  · rcases hop with rfl | rfl | rfl | rfl | rfl <;> decide
  -- The other eleven marks are tried one after the other.
  iterate 11
    rcases ite_eq_iff.1 h with ⟨rfl, ⟨⟩⟩ | ⟨-, h⟩
    · decide
  cases h

/-- A spelling of a kind of marks is one mark, which is neither blank nor a digit nor part of a
word. -/
lemma Spells.mark (h : Spells kind text) (hkind : IsMarkKind kind) :
    ∃ c, text = [c] ∧ markKind? c = some kind ∧ isBlank c = false ∧ c.isDigit = false ∧
      isWordChar c = false := by
  cases kind with
  | null => cases h
  | endOfInput => cases h
  | number => exact absurd hkind (by decide)
  | identifier => exact absurd hkind (by decide)
  | letWord => exact absurd hkind (by decide)
  | constWord => exact absurd hkind (by decide)
  | operator =>
    have hmem : text ∈ [['+'], ['-'], ['*'], ['/'], ['%']] := h
    simp only [List.mem_cons, List.not_mem_nil, or_false] at hmem
    rcases hmem with rfl | rfl | rfl | rfl | rfl <;> exact ⟨_, rfl, by decide⟩
  | _ =>
    obtain rfl := List.mem_singleton.1 h
    exact ⟨_, rfl, by decide⟩

end Marks

/-! ## Where a spelling goes on -/

section Extension

variable {c : Char} {kind : TokenKind}

/-- Every kind of token is that of numbers, of words or of marks. -/
lemma kind_cases (kind : TokenKind) : kind = .number ∨ IsWordKind kind ∨ IsMarkKind kind := by
  by_cases hnumber : kind = .number
  · exact .inl hnumber
  · by_cases hword : IsWordKind kind
    · exact .inr (.inl hword)
    · exact .inr (.inr ⟨hnumber, hword⟩)

/-- A number goes on with digits and nothing else. -/
lemma extends_number_iff : Extends .number c ↔ c.isDigit = true := by
  simp [Extends, IsWordKind]

/-- A word goes on with the characters of words and nothing else. -/
lemma IsWordKind.extends_iff (h : IsWordKind kind) : Extends kind c ↔ isWordChar c = true := by
  have hnumber : kind ≠ .number := by
    rintro rfl
    exact absurd h (by decide)
  simp [Extends, h, hnumber, isWordChar_iff]

/-- A mark is always a single character. -/
lemma IsMarkKind.not_extends (h : IsMarkKind kind) : ¬ Extends kind c := by
  rintro (⟨hnumber, -⟩ | ⟨hword, -⟩)
  · exact h.1 hnumber
  · exact h.2 hword

end Extension

/-! ## The longest spelling at the front of a text -/

section Longest

variable {c : Char} {cs run rest text : List Char} {kind : TokenKind} {l : Lexeme}

/-- A run of characters of a class ends where the class does. -/
lemma takeWhile_append_of_stop {class? : Char → Bool} (hrun : ∀ d ∈ run, class? d = true)
    (hstop : ∀ d ∈ rest.head?, class? d = false) :
    (run ++ rest).takeWhile class? = run ∧ (run ++ rest).dropWhile class? = rest := by
  rw [List.takeWhile_append_of_pos hrun, List.dropWhile_append_of_pos hrun]
  cases rest with
  | nil => exact ⟨List.append_nil run, rfl⟩
  | cons d ds =>
    have hd : ¬ class? d = true := by simp [hstop d rfl]
    rw [List.takeWhile_cons_of_neg hd, List.dropWhile_cons_of_neg hd]
    exact ⟨List.append_nil run, rfl⟩

/-- What is left behind a run does not go on with it. -/
lemma eq_false_of_mem_head?_dropWhile {class? : Char → Bool} {d : Char}
    (h : d ∈ (cs.dropWhile class?).head?) : class? d = false := by
  have hstop := List.head?_dropWhile_not class? cs
  rw [Option.mem_def.1 h] at hstop
  exact hstop

/-- The blank characters are the space, the tab and the two line ends. -/
lemma isBlank_iff : isBlank c = true ↔ c ∈ [' ', '\t', '\n', '\r'] := by
  simp [isBlank, or_assoc]

/-- The characters of a class that holds no blank are not blank. -/
lemma isBlank_eq_false {class? : Char → Bool}
    (hclass : [' ', '\t', '\n', '\r'].any class? = false) (h : class? c = true) :
    isBlank c = false := by
  rw [Bool.eq_false_iff]
  intro hblank
  exact List.any_eq_false.1 hclass c (isBlank_iff.1 hblank) h

/-- A letter is not a digit. -/
lemma isDigit_eq_false_of_isAlpha (h : c.isAlpha = true) : c.isDigit = false := by
  have hletter : 65 ≤ c.toNat := by
    rcases Bool.or_eq_true_iff.1 h with hupper | hlower
    · have hrange : c.val ≥ 'A'.val ∧ c.val ≤ 'Z'.val := of_decide_eq_true hupper
      exact UInt32.le_iff_toNat_le.1 hrange.1
    · have hlow : c.val ≥ 'a'.val := of_decide_eq_true (Bool.and_eq_true_iff.1 hlower).1
      exact Nat.le_trans (by decide) (UInt32.le_iff_toNat_le.1 hlow)
  rw [Bool.eq_false_iff]
  intro hdigit
  have hhigh : c.val ≤ '9'.val := of_decide_eq_true (Bool.and_eq_true_iff.1 hdigit).2
  have hle : c.toNat ≤ 57 := UInt32.le_iff_toNat_le.1 hhigh
  omega

/-- A lexeme spells its kind and ends where that spelling does. -/
lemma Lexeme.spells (h : lexeme? c cs = some l) :
    Spells l.kind l.text ∧ ∀ d ∈ l.rest.head?, ¬ Extends l.kind d := by
  unfold lexeme? at h
  split at h
  · next hdigit =>
    cases h
    refine ⟨⟨List.cons_ne_nil _ _, ?_⟩, ?_⟩
    · intro d hd
      rcases List.mem_cons.1 hd with rfl | hd
      · exact hdigit
      · exact List.all_eq_true.1 List.all_takeWhile d hd
    · intro d hd hext
      exact absurd (extends_number_iff.1 hext) (by simp [eq_false_of_mem_head?_dropWhile hd])
  · split at h
    · next halpha =>
      cases h
      have hword : IsWord (c :: cs.takeWhile isWordChar) :=
        ⟨halpha, fun d hd => isWordChar_iff.1 (List.all_eq_true.1 List.all_takeWhile d hd)⟩
      refine ⟨hword.spells, ?_⟩
      intro d hd hext
      have hwordChar := (isWordKind_wordKind _).extends_iff.1 hext
      exact absurd hwordChar (by simp [eq_false_of_mem_head?_dropWhile hd])
    · obtain ⟨kind, hkind, rfl⟩ := Option.map_eq_some_iff.1 h
      obtain ⟨hspell, hmark⟩ := spells_of_markKind? hkind
      exact ⟨hspell, fun d _ => hmark.not_extends⟩

/-- Every spelling in front of characters that it does not go on with is the lexeme there, and its
first character is not blank. -/
lemma lexeme?_of_spells (h : Spells kind text) (hstop : ∀ d ∈ rest.head?, ¬ Extends kind d) :
    ∃ c cs, text ++ rest = c :: cs ∧ isBlank c = false ∧
      lexeme? c cs = some ⟨kind, text, rest⟩ := by
  rcases kind_cases kind with rfl | hword | hmark
  · obtain ⟨hne, hdigits⟩ := h
    obtain ⟨c, run, rfl⟩ := List.exists_cons_of_ne_nil hne
    have hc : c.isDigit = true := hdigits c List.mem_cons_self
    have hrun : ∀ d ∈ run, d.isDigit = true := fun d hd => hdigits d (List.mem_cons_of_mem c hd)
    have hrest : ∀ d ∈ rest.head?, d.isDigit = false := fun d hd =>
      Bool.eq_false_iff.2 fun hdigit => hstop d hd (extends_number_iff.2 hdigit)
    obtain ⟨htake, hdrop⟩ := takeWhile_append_of_stop hrun hrest
    refine ⟨c, run ++ rest, rfl, isBlank_eq_false (by decide) hc, ?_⟩
    rw [lexeme?, if_pos hc, htake, hdrop]
  · obtain ⟨hisWord, hkind⟩ := h.isWord hword
    match text, hisWord with
    | c :: run, ⟨hc, hletters⟩ =>
      have hdigit : ¬ c.isDigit = true := by simp [isDigit_eq_false_of_isAlpha hc]
      have hrun : ∀ d ∈ run, isWordChar d = true := fun d hd => isWordChar_iff.2 (hletters d hd)
      have hrest : ∀ d ∈ rest.head?, isWordChar d = false := fun d hd =>
        Bool.eq_false_iff.2 fun hletter => hstop d hd (hword.extends_iff.2 hletter)
      obtain ⟨htake, hdrop⟩ := takeWhile_append_of_stop hrun hrest
      refine ⟨c, run ++ rest, rfl, isBlank_eq_false (by decide) hc, ?_⟩
      rw [lexeme?, if_neg hdigit, if_pos hc]
      simp only [htake, hdrop, hkind]
  · obtain ⟨c, rfl, hkind, hblank, hdigit, hletter⟩ := h.mark hmark
    have halpha : c.isAlpha = false := (Bool.or_eq_false_iff.1 hletter).1
    refine ⟨c, rest, rfl, hblank, ?_⟩
    rw [lexeme?, hdigit, halpha, hkind]
    rfl

/-- The first character of a spelling goes on with a token in front of it exactly if both are
numbers or both are words. -/
lemma Spells.extends_head (h : Spells kind text) :
    ∃ c cs, text = c :: cs ∧ ∀ front, Extends front c ↔
      (front = .number ∧ kind = .number) ∨ (IsWordKind front ∧ IsWordKind kind) := by
  rcases kind_cases kind with rfl | hword | hmark
  · obtain ⟨c, cs, rfl⟩ := List.exists_cons_of_ne_nil h.1
    have hc : c.isDigit = true := h.2 c List.mem_cons_self
    have hletter : ¬ (c.isAlpha = true ∨ c = '_') := by
      rintro (halpha | rfl)
      · rw [isDigit_eq_false_of_isAlpha halpha] at hc
        cases hc
      · exact absurd hc (by decide)
    exact ⟨c, cs, rfl, fun front => by simp [Extends, hc, hletter, IsWordKind]⟩
  · have hnumber : kind ≠ .number := by
      rintro rfl
      exact absurd hword (by decide)
    match text, (h.isWord hword).1 with
    | c :: cs, ⟨hc, _⟩ =>
      have hdigit := isDigit_eq_false_of_isAlpha hc
      exact ⟨c, cs, rfl, fun front => by simp [Extends, hc, hdigit, hword, hnumber]⟩
  · obtain ⟨c, rfl, -, -, hdigit, hletter⟩ := h.mark hmark
    have hout : ¬ (c.isAlpha = true ∨ c = '_') := by
      rw [← isWordChar_iff, hletter]
      decide
    exact ⟨c, [], rfl, fun front => by simp [Extends, hdigit, hout, hmark.1, hmark.2]⟩

end Longest

end Scriptlet.Lexer
