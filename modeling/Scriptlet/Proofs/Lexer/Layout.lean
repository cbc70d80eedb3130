import Mathlib.Data.List.Chain
import Scriptlet.Proofs.Lexer.Spelling

/-!
# Texts as tokens and blanks

A text that has tokens is blanks, a token, blanks, a token, and so on.  A `Piece` is one token of
such a text with the blanks behind it; `layout` puts pieces together to a text and `Piece.tokens`
says which tokens they stand for, and where.  `lexFrom_layout` and `exists_layout` show that
`lexFrom` is the inverse of `layout` on the pieces that do not run together; the main result states
the two directions for whole sources.
-/

namespace Scriptlet.Lexer

/-! ## Pieces -/

/-- Blanks, any number of them. -/
def IsGap (gap : List Char) : Prop :=
  ∀ c ∈ gap, c ∈ [' ', '\t', '\n', '\r']

/-- A token of a text with the blanks behind it. -/
structure Piece where
  /-- The kind of the token. -/
  kind : TokenKind
  /-- The characters of the token. -/
  text : List Char
  /-- The blanks behind the token. -/
  gap : List Char
  /-- The characters are a spelling of the kind. -/
  spells : Spells kind text
  /-- There is nothing but blanks behind the token. -/
  isGap : IsGap gap

/-- The characters of a piece. -/
def Piece.chars (x : Piece) : List Char := x.text ++ x.gap

/-- The text that starts with the characters `lead` and goes on with the pieces. -/
def layout (lead : List Char) (xs : List Piece) : List Char :=
  lead ++ xs.flatMap Piece.chars

/-- What the parser sees of a token but for its place. -/
def spelling (t : Token) : TokenKind × String := (t.kind, t.text)

/-- What the parser is to see of a piece. -/
def Piece.spelling (x : Piece) : TokenKind × String := (x.kind, String.ofList x.text)

/-- The tokens of the pieces, the first of which stands at `p`, with the end marker behind them. -/
def Piece.tokens (p : Position) : List Piece → List Token
  | [] => [.endMarker p]
  | x :: xs => ⟨x.kind, String.ofList x.text, p⟩ :: Piece.tokens (p.past x.chars) xs

/-- A token does not go on with the first character of the next one. -/
def Piece.Maximal (x y : Piece) : Prop :=
  x.gap = [] → ∀ c ∈ y.text.head?, ¬ Extends x.kind c

/-- There is a blank between two numbers, and between two words. -/
def Piece.Apart (x y : Piece) : Prop :=
  (x.kind = .number ∧ y.kind = .number) ∨ (IsWordKind x.kind ∧ IsWordKind y.kind) → x.gap ≠ []

section Pieces

variable {lead : List Char} {x y : Piece} {xs : List Piece}

/-- A layout without pieces is its leading gap. -/
@[simp] lemma layout_nil : layout lead [] = lead := by
  simp [layout]

/-- Behind the first text of a layout, the gap of that piece leads the others. -/
lemma layout_cons : layout lead (x :: xs) = lead ++ (x.text ++ layout x.gap xs) := by
  simp [layout, Piece.chars]

/-- A blank between the tokens that would run together is all it takes. -/
lemma Piece.maximal_iff_apart : x.Maximal y ↔ x.Apart y := by
  obtain ⟨c, cs, htext, hext⟩ := y.spells.extends_head
  unfold Piece.Maximal Piece.Apart
  rw [htext, ← hext x.kind]
  constructor
  · intro h hglue hgap
    exact h hgap c rfl hglue
  · rintro h hgap d ⟨⟩ hglue
    exact h hglue hgap

/-- The tokens of pieces are those pieces and an end marker. -/
lemma Piece.exists_tokens_eq (xs : List Piece) (p : Position) :
    ∃ us q, Piece.tokens p xs = us ++ [.endMarker q] ∧
      us.map Lexer.spelling = xs.map Piece.spelling := by
  induction xs generalizing p with
  | nil => exact ⟨[], p, rfl, rfl⟩
  | cons x xs ih =>
    obtain ⟨us, q, heq, hmap⟩ := ih (p.past x.chars)
    refine ⟨⟨x.kind, String.ofList x.text, p⟩ :: us, q, ?_, ?_⟩
    · rw [Piece.tokens, heq, List.cons_append]
    · rw [List.map_cons, List.map_cons, hmap]
      rfl

/-- The tokens that show as pieces do so one by one. -/
lemma exists_piece_of_mem {t : Token} {us : List Token}
    (h : us.map spelling = xs.map Piece.spelling) (ht : t ∈ us) :
    ∃ x ∈ xs, x.kind = t.kind ∧ String.ofList x.text = t.text := by
  have hmem : spelling t ∈ xs.map Piece.spelling := h ▸ List.mem_map_of_mem ht
  obtain ⟨x, hx, heq⟩ := List.mem_map.1 hmem
  exact ⟨x, hx, Prod.mk.inj heq⟩

end Pieces

/-! ## Tokens by what they show -/

section Shown

variable {x : TokenKind × String} {xs ys : List (TokenKind × String)} {ts : List Token}

/-- Tokens that show as a list with a first member have a first token. -/
lemma exists_cons_of_shown (h : ts.map spelling = x :: xs) :
    ∃ t us, ts = t :: us ∧ t.kind = x.1 ∧ t.text = x.2 ∧ us.map spelling = xs := by
  obtain ⟨t, us, rfl, ht, hus⟩ := List.map_eq_cons_iff.1 h
  exact ⟨t, us, rfl, congrArg Prod.fst ht, congrArg Prod.snd ht, hus⟩

/-- Tokens that show as one member are one token. -/
lemma exists_singleton_of_shown (h : ts.map spelling = [x]) :
    ∃ t, ts = [t] ∧ t.kind = x.1 ∧ t.text = x.2 := by
  obtain ⟨t, us, rfl, hkind, htext, hus⟩ := exists_cons_of_shown h
  rw [List.map_eq_nil_iff] at hus
  exact ⟨t, by rw [hus], hkind, htext⟩

/-- Tokens that show as two lists around one member fall apart there. -/
lemma exists_middle_of_shown (h : ts.map spelling = xs ++ x :: ys) :
    ∃ us t vs, ts = us ++ t :: vs ∧ us.map spelling = xs ∧ t.kind = x.1 ∧ t.text = x.2 ∧
      vs.map spelling = ys := by
  obtain ⟨us, ws, rfl, hus, hws⟩ := List.map_eq_append_iff.1 h
  obtain ⟨t, vs, rfl, hkind, htext, hvs⟩ := exists_cons_of_shown hws
  exact ⟨us, t, vs, rfl, hus, hkind, htext, hvs⟩

/-- Tokens that show as a list with a last member have a last token. -/
lemma exists_concat_of_shown (h : ts.map spelling = xs ++ [x]) :
    ∃ us t, ts = us ++ [t] ∧ us.map spelling = xs ∧ t.kind = x.1 := by
  obtain ⟨us, t, vs, rfl, hus, hkind, -, hvs⟩ := exists_middle_of_shown h
  rw [List.map_eq_nil_iff] at hvs
  exact ⟨us, t, by rw [hvs], hus, hkind⟩

end Shown

/-! ## One step of the lexer -/

section Steps

variable {p : Position} {c : Char} {cs gap rest text lead : List Char} {kind : TokenKind}
  {x : Piece} {xs : List Piece}

/-- Blanks in front only move the start. -/
lemma lexFrom_gap (h : IsGap gap) : lexFrom p (gap ++ cs) = lexFrom (p.past gap) cs := by
  induction gap generalizing p with
  | nil => rfl
  | cons c gap ih =>
    have hc : isBlank c = true := isBlank_iff.2 (h c List.mem_cons_self)
    rw [List.cons_append, lexFrom, if_pos hc, ih fun d hd => h d (List.mem_cons_of_mem c hd)]
    rfl

/-- The lexer cuts off the lexeme at the front. -/
lemma lexFrom_lexeme {l : Lexeme} (hc : isBlank c = false) (h : lexeme? c cs = some l) :
    lexFrom p (c :: cs) =
      (lexFrom (p.past l.text) l.rest).map (⟨l.kind, String.ofList l.text, p⟩ :: ·) := by
  rw [lexFrom, if_neg (by simp [hc])]
  split
  · next hnone => rw [h] at hnone; cases hnone
  · next l' hsome =>
    rw [h] at hsome
    cases hsome
    rfl

/-- The lexer reads a spelling that does not go on as one token. -/
lemma lexFrom_spells (h : Spells kind text) (hstop : ∀ d ∈ rest.head?, ¬ Extends kind d) :
    lexFrom p (text ++ rest) =
      (lexFrom (p.past text) rest).map (⟨kind, String.ofList text, p⟩ :: ·) := by
  obtain ⟨c, cs, heq, hblank, hlexeme⟩ := lexeme?_of_spells h hstop
  rw [heq, lexFrom_lexeme hblank hlexeme]

/-- A blank goes on with no token. -/
lemma not_extends_of_blank (h : c ∈ [' ', '\t', '\n', '\r']) : ¬ Extends kind c := by
  rintro (⟨-, hdigit⟩ | ⟨-, hletter⟩)
  · rw [← isBlank_iff, isBlank_eq_false (by decide) hdigit] at h
    cases h
  · rw [← isBlank_iff, isBlank_eq_false (by decide) (isWordChar_iff.2 hletter)] at h
    cases h

/-- A piece does not go on into what follows it in a layout. -/
lemma stop_layout_iff (hx : IsGap x.gap) :
    (∀ d ∈ (layout x.gap xs).head?, ¬ Extends x.kind d) ↔ ∀ y ∈ xs.head?, x.Maximal y := by
  cases hgap : x.gap with
  | cons c gap =>
    have hc : c ∈ [' ', '\t', '\n', '\r'] := hx c (by simp [hgap])
    constructor
    · intro _ y _ hnil
      rw [hgap] at hnil
      cases hnil
    · rintro - d ⟨⟩
      exact not_extends_of_blank hc
  | nil =>
    cases xs with
    | nil => simp
    | cons y ys =>
      obtain ⟨c, cs, htext, -⟩ := y.spells.extends_head
      simp [layout_cons, htext, Piece.Maximal, hgap]

end Steps

/-! ## Runs of the lexer -/

/-- The tokens of a layout whose pieces do not run together are those of its pieces. -/
lemma lexFrom_layout {lead : List Char} {xs : List Piece} (hlead : IsGap lead)
    (hxs : xs.IsChain Piece.Maximal) (p : Position) :
    lexFrom p (layout lead xs) = .ok (Piece.tokens (p.past lead) xs) := by
  induction xs generalizing lead p with
  | nil =>
    rw [layout_nil, ← List.append_nil lead, lexFrom_gap hlead, lexFrom, List.append_nil]
    rfl
  | cons x xs ih =>
    obtain ⟨hx, hchain⟩ := List.isChain_cons.1 hxs
    have hstop := (stop_layout_iff x.isGap).2 hx
    rw [layout_cons, lexFrom_gap hlead, lexFrom_spells x.spells hstop, ih x.isGap hchain,
      ← Position.past_append]
    rfl

/-- Every text with tokens is a layout of pieces that do not run together, and the tokens are those
of the pieces. -/
lemma exists_layout {p : Position} {cs : List Char} {ts : List Token}
    (h : lexFrom p cs = .ok ts) :
    ∃ lead xs, IsGap lead ∧ xs.IsChain Piece.Maximal ∧ cs = layout lead xs ∧
      ts = Piece.tokens (p.past lead) xs := by
  fun_induction lexFrom p cs generalizing ts with
  | case1 p =>
    cases h
    exact ⟨[], [], fun _ hc => absurd hc List.not_mem_nil, List.isChain_nil, rfl, rfl⟩
  | case2 p c cs hblank ih =>
    obtain ⟨lead, xs, hlead, hxs, rfl, rfl⟩ := ih h
    have hlead' : IsGap (c :: lead) := List.forall_mem_cons.2 ⟨isBlank_iff.1 hblank, hlead⟩
    exact ⟨c :: lead, xs, hlead', hxs, rfl, rfl⟩
  | case3 p c cs hblank hnone => cases h
  | case4 p c cs hblank l hlexeme ih =>
    cases hrest : lexFrom (p.past l.text) l.rest with
    | error e => rw [hrest] at h; cases h
    | ok us =>
      rw [hrest] at h
      cases h
      obtain ⟨gap, xs, hgap, hxs, heq, rfl⟩ := ih hrest
      obtain ⟨hspells, hstop⟩ := Lexeme.spells hlexeme
      -- The blanks behind the lexeme are the lead of what is left.
      let x : Piece := ⟨l.kind, l.text, gap, hspells, hgap⟩
      rw [heq] at hstop
      have hx : ∀ y ∈ xs.head?, x.Maximal y := (stop_layout_iff x.isGap).1 hstop
      refine ⟨[], x :: xs, fun _ hc => absurd hc List.not_mem_nil,
        List.isChain_cons.2 ⟨hx, hxs⟩, ?_, ?_⟩
      · rw [layout_cons, ← heq, List.nil_append, Lexeme.text_append_rest hlexeme]
      · rw [← Position.past_append]
        rfl

/-- The tokens of a source that is laid out with a blank between two numbers and between two words
are the pieces of the layout. -/
lemma exists_lex_layout {lead : List Char} {xs : List Piece} (hlead : IsGap lead)
    (hxs : xs.IsChain Piece.Apart) :
    ∃ us q, lex (String.ofList (layout lead xs)) = .ok (us ++ [.endMarker q]) ∧
      us.map spelling = xs.map Piece.spelling := by
  obtain ⟨us, q, heq, hmap⟩ := Piece.exists_tokens_eq xs (Position.start.past lead)
  refine ⟨us, q, ?_, hmap⟩
  have hmaximal := hxs.imp fun _ _ => Piece.maximal_iff_apart.2
  rw [lex, String.toList_ofList, lexFrom_layout hlead hmaximal, heq]

/-- A piece is no null literal and no end marker: these have no spelling. -/
lemma Piece.kind_ne (x : Piece) : x.kind ≠ .null ∧ x.kind ≠ .endOfInput := by
  have hspells := x.spells
  constructor
  · intro hkind
    rw [hkind] at hspells
    exact absurd hspells List.not_mem_nil
  · intro hkind
    rw [hkind] at hspells
    exact absurd hspells List.not_mem_nil

/-- Reading and laying out are inverse to each other.  The tokens of a source are pieces of which it
is a layout, cut as long as possible, with one end marker behind them; and every layout with a blank
between two numbers and between two words is read as its pieces. -/
theorem lex_layout :
    (∀ source ts, lex source = .ok ts →
      ∃ lead xs us m, ts = us ++ [m] ∧ m.kind = .endOfInput ∧ m.text = "EndOfFile" ∧
        (∀ t ∈ us, t.kind ≠ .null ∧ t.kind ≠ .endOfInput) ∧
        IsGap lead ∧ source = String.ofList (layout lead xs) ∧
        us.map spelling = xs.map Piece.spelling ∧ xs.IsChain Piece.Maximal) ∧
    (∀ lead xs, IsGap lead → xs.IsChain Piece.Apart →
      ∃ us m, lex (String.ofList (layout lead xs)) = .ok (us ++ [m]) ∧
        us.map spelling = xs.map Piece.spelling ∧ m.kind = .endOfInput ∧
        m.text = "EndOfFile") := by
  constructor
  · intro source ts h
    obtain ⟨lead, xs, hlead, hxs, hsource, rfl⟩ := exists_layout h
    obtain ⟨us, q, heq, hmap⟩ := Piece.exists_tokens_eq xs (Position.start.past lead)
    refine ⟨lead, xs, us, .endMarker q, heq, rfl, rfl, ?_, hlead, ?_, hmap, hxs⟩
    · intro t ht
      obtain ⟨x, -, hkind, -⟩ := exists_piece_of_mem hmap ht
      rw [← hkind]
      exact x.kind_ne
    · rw [← hsource, String.ofList_toList]
  · intro lead xs hlead hxs
    obtain ⟨us, q, hlex, hmap⟩ := exists_lex_layout hlead hxs
    exact ⟨us, .endMarker q, hlex, hmap, rfl, rfl⟩

/-- A number and a word need no blank between them, two words do: here the source `12ab const_x`. -/
theorem lex_number_word_word :
    ∃ us m, lex "12ab const_x" = .ok (us ++ [m]) ∧
      us.map spelling = [(.number, "12"), (.identifier, "ab"), (.identifier, "const_x")] ∧
      m.kind = .endOfInput ∧ m.text = "EndOfFile" :=
  lex_layout.2 []
    [⟨.number, "12".toList, [], by decide, by simp [IsGap]⟩,
      ⟨.identifier, "ab".toList, [' '], by decide, by simp [IsGap]⟩,
      ⟨.identifier, "const_x".toList, [], by decide, by simp [IsGap]⟩]
    (by simp [IsGap]) (by simp [Piece.Apart, IsWordKind])

end Scriptlet.Lexer
