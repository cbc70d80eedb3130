import Scriptlet.Token

/-!
# Cutting a source text into tokens

`lex` reads a text from left to right.  Blanks separate tokens and are dropped; any other
character starts a `Lexeme`, which is as long as its class allows: a run of digits, a run of
letters and underscores that starts with a letter, or a single mark.  A character that starts no
lexeme stops the reading with a `LexError`.

The recursion is on what is left of the text, which every lexeme makes shorter
(`Lexeme.rest_length_le`).
-/

namespace Scriptlet

/-- Why a text has no tokens. -/
inductive LexError where
  /-- The character at the given place starts no token. -/
  | unrecognized (character : Char) (position : Position)
deriving DecidableEq, Repr

/-- The text of a lexical error. -/
def LexError.message : LexError → String
  | .unrecognized c p =>
    "Error on " ++ p.text ++ ": Unrecognized character '" ++ String.singleton c ++ "'."

namespace Lexer

/-- Blanks separate tokens and are no part of any. -/
def isBlank (c : Char) : Bool :=
  c == ' ' || c == '\t' || c == '\n' || c == '\r'

/-- A name starts with one of the 52 plain letters and goes on with these characters. -/
def isWordChar (c : Char) : Bool :=
  c.isAlpha || c == '_'

/-- The kind of a token that is a single mark. -/
def markKind? (c : Char) : Option TokenKind :=
  if c = '+' ∨ c = '-' ∨ c = '*' ∨ c = '/' ∨ c = '%' then some .operator
  else if c = '=' then some .equals
  else if c = ',' then some .comma
  else if c = '.' then some .dot
  else if c = ':' then some .colon
  else if c = ';' then some .semicolon
  else if c = '(' then some .openParen
  else if c = ')' then some .closeParen
  else if c = '\x7b' then some .openBrace
  else if c = '\x7d' then some .closeBrace
  else if c = '[' then some .openBracket
  else if c = ']' then some .closeBracket
  else none

/-- The kind of a word: two words are reserved and all others are names. -/
def wordKind (word : List Char) : TokenKind :=
  if word = "let".toList then .letWord
  else if word = "const".toList then .constWord
  else .identifier

/-- The longest token at the front of a text, cut off from the rest. -/
structure Lexeme where
  /-- The kind of the token. -/
  kind : TokenKind
  /-- The characters of the token. -/
  text : List Char
  /-- The characters behind the token. -/
  rest : List Char

/-- The lexeme that starts with the character `c` and goes on into `cs`. -/
def lexeme? (c : Char) (cs : List Char) : Option Lexeme :=
  if c.isDigit then
    some ⟨.number, c :: cs.takeWhile Char.isDigit, cs.dropWhile Char.isDigit⟩
  else if c.isAlpha then
    let word := c :: cs.takeWhile isWordChar
    some ⟨wordKind word, word, cs.dropWhile isWordChar⟩
  else
    (markKind? c).map fun kind => ⟨kind, [c], cs⟩

/-- Nothing is lost: a lexeme and what is behind it make up the text. -/
theorem Lexeme.text_append_rest {c : Char} {cs : List Char} {l : Lexeme}
    (h : lexeme? c cs = some l) : l.text ++ l.rest = c :: cs := by
  unfold lexeme? at h
  split at h
  · cases h; simp
  · split at h
    · cases h; simp
    · obtain ⟨kind, _, rfl⟩ := Option.map_eq_some_iff.1 h; rfl

/-- A lexeme holds at least one character, so the rest is shorter than the text. -/
theorem Lexeme.rest_length_le {c : Char} {cs : List Char} {l : Lexeme}
    (h : lexeme? c cs = some l) : l.rest.length ≤ cs.length := by
  unfold lexeme? at h
  split at h
  · cases h; exact (List.dropWhile_sublist _).length_le
  · split at h
    · cases h; exact (List.dropWhile_sublist _).length_le
    · obtain ⟨kind, _, rfl⟩ := Option.map_eq_some_iff.1 h; exact Nat.le_refl _

/-- The tokens of the text `cs`, the first character of which stands at `p`. -/
def lexFrom (p : Position) (cs : List Char) : Except LexError (List Token) :=
  match cs with
  | [] => .ok [Token.endMarker p]
  | c :: cs =>
    if isBlank c then
      lexFrom (p.advance c) cs
    else
      match _h : lexeme? c cs with
      | none => .error (.unrecognized c p)
      | some l =>
        (lexFrom (p.past l.text) l.rest).map fun ts => ⟨l.kind, String.ofList l.text, p⟩ :: ts
termination_by cs.length
decreasing_by
  · exact Nat.lt_succ_self _
  · exact Nat.lt_succ_of_le (Lexeme.rest_length_le _h)

end Lexer

/-- The tokens of a source text, the end marker last. -/
def lex (source : String) : Except LexError (List Token) :=
  Lexer.lexFrom .start source.toList

end Scriptlet
