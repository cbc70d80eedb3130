import Scriptlet.Proofs.Lexer.Layout

/-!
# Texts that are put together

What the lexer makes of a text that was put together from shorter ones.  `ReadsAs cs xs` says that
the characters `cs` are read as tokens with the kinds and texts `xs`, whatever stands behind them,
as long as no token goes on with that (`Stops`).  A mark and a blank can always stand in front; a
number or a word, and all that may end with one, only in front of a stop.
-/

namespace Scriptlet.Lexer

/-- No token goes on with what stands here. -/
def Stops (rest : List Char) : Prop :=
  ∀ d ∈ rest.head?, ∀ kind, ¬ Extends kind d

/-- Wherever they stand in front of a stop, the characters are read as tokens that show as `xs`. -/
def ReadsAs (cs : List Char) (xs : List (TokenKind × String)) : Prop :=
  ∀ rest, Stops rest → ∀ p, ∃ us q, us.map spelling = xs ∧
    lexFrom p (cs ++ rest) = (lexFrom q rest).map (us ++ ·)

section ReadsAs

variable {cs ds text : List Char} {xs ys : List (TokenKind × String)} {kind : TokenKind}

/-- No token goes on behind the end of the text. -/
lemma stops_nil : Stops [] := nofun

/-- Blanks and marks are stops. -/
lemma stops_cons {c : Char} (h : isWordChar c = false ∧ c.isDigit = false) : Stops (c :: cs) := by
  rintro d ⟨⟩ kind (⟨-, hdigit⟩ | ⟨-, hletter⟩)
  · rw [h.2] at hdigit
    cases hdigit
  · rw [isWordChar_iff.2 hletter] at h
    cases h.1

/-- Two texts in a row stop as the first one does, or as the second if the first is empty. -/
lemma Stops.append (h : Stops cs) (h' : Stops ds) : Stops (cs ++ ds) := by
  cases cs with
  | nil => exact h'
  | cons c cs => exact h

/-- No characters are read as no tokens. -/
lemma readsAs_nil : ReadsAs [] [] := by
  intro rest _ p
  refine ⟨[], p, rfl, ?_⟩
  rw [List.nil_append]
  cases lexFrom p rest <;> rfl

/-- A token in front of a stop. -/
lemma ReadsAs.token (h : ReadsAs cs xs) (hspells : Spells kind text) (hstops : Stops cs) :
    ReadsAs (text ++ cs) ((kind, String.ofList text) :: xs) := by
  intro rest hrest p
  obtain ⟨us, q, hus, heq⟩ := h rest hrest (p.past text)
  refine ⟨⟨kind, String.ofList text, p⟩ :: us, q, congrArg _ hus, ?_⟩
  rw [List.append_assoc, lexFrom_spells hspells fun d hd => hstops.append hrest d hd kind, heq]
  cases lexFrom q rest <;> rfl

/-- A text that is a single token. -/
lemma readsAs_text {word : String} (h : Spells kind word.toList) :
    ReadsAs word.toList [(kind, word)] := by
  have hread := readsAs_nil.token h stops_nil
  rwa [List.append_nil, String.ofList_toList] at hread

/-- A mark stops by itself. -/
lemma ReadsAs.mark {c : Char} (h : ReadsAs cs xs) (hspells : Spells kind [c])
    (hmark : IsMarkKind kind) : ReadsAs (c :: cs) ((kind, String.ofList [c]) :: xs) := by
  intro rest hrest p
  obtain ⟨us, q, hus, heq⟩ := h rest hrest (p.past [c])
  refine ⟨⟨kind, String.ofList [c], p⟩ :: us, q, congrArg _ hus, ?_⟩
  have hstop : ∀ d ∈ (cs ++ rest).head?, ¬ Extends kind d := fun d _ => hmark.not_extends
  rw [← List.singleton_append, List.append_assoc, lexFrom_spells hspells hstop, heq]
  cases lexFrom q rest <;> rfl

/-- Blanks leave no trace. -/
lemma ReadsAs.blank (h : ReadsAs cs xs) : ReadsAs (' ' :: cs) xs := by
  intro rest hrest p
  obtain ⟨us, q, hus, heq⟩ := h rest hrest (p.past [' '])
  have hgap : IsGap [' '] := List.forall_mem_singleton.2 List.mem_cons_self
  refine ⟨us, q, hus, ?_⟩
  rw [← List.singleton_append, List.append_assoc, lexFrom_gap hgap, heq]

/-- What is read in front of a stop can be put in front of what is read from there. -/
lemma ReadsAs.append (h : ReadsAs cs xs) (hstops : Stops ds) (h' : ReadsAs ds ys) :
    ReadsAs (cs ++ ds) (xs ++ ys) := by
  intro rest hrest p
  obtain ⟨us, q, hus, heq⟩ := h (ds ++ rest) (hstops.append hrest) p
  obtain ⟨vs, q', hvs, heq'⟩ := h' rest hrest q
  refine ⟨us ++ vs, q', by rw [List.map_append, hus, hvs], ?_⟩
  rw [List.append_assoc, heq, heq']
  cases lexFrom q' rest with
  | error e => rfl
  | ok ts => exact congrArg _ (List.append_assoc us vs ts).symm

/-- A source that is read as spellings has those tokens, and the end marker. -/
lemma ReadsAs.exists_lex {source : String} (h : ReadsAs source.toList xs) :
    ∃ us q, lex source = .ok (us ++ [.endMarker q]) ∧ us.map spelling = xs := by
  obtain ⟨us, q, hus, heq⟩ := h [] stops_nil .start
  refine ⟨us, q, ?_, hus⟩
  rw [List.append_nil, lexFrom] at heq
  exact heq

end ReadsAs

end Scriptlet.Lexer
