import Scriptlet.Position

/-!
# Tokens

A token is a word, number or mark of a source text together with the place where it starts.
Every token stream that comes from a text ends with one end marker, `Token.endMarker`.
-/

namespace Scriptlet

/-- The kinds of tokens.  No source text yields `null`; `endOfInput` is the kind of the end marker
alone. -/
inductive TokenKind where
  /-- The null literal. -/
  | null
  /-- A run of digits. -/
  | number
  /-- A name. -/
  | identifier
  /-- The word that opens a declaration of a variable. -/
  | letWord
  /-- The word that opens a declaration of a constant. -/
  | constWord
  /-- One of the five operator signs; the text of the token tells which. -/
  | operator
  /-- The equals sign. -/
  | equals
  /-- The comma. -/
  | comma
  /-- The full stop. -/
  | dot
  /-- The colon. -/
  | colon
  /-- The semicolon. -/
  | semicolon
  /-- The opening round bracket. -/
  | openParen
  /-- The closing round bracket. -/
  | closeParen
  /-- The opening curly bracket. -/
  | openBrace
  /-- The closing curly bracket. -/
  | closeBrace
  /-- The opening square bracket. -/
  | openBracket
  /-- The closing square bracket. -/
  | closeBracket
  /-- The end of a token stream. -/
  | endOfInput
deriving DecidableEq, Repr

/-- How a kind is called in a message: fixed spellings are quoted, classes are not. -/
def TokenKind.text : TokenKind → String
  | .null => "'null'"
  | .number => "number"
  | .identifier => "identifier"
  | .letWord => "'let'"
  | .constWord => "'const'"
  | .operator => "operator"
  | .equals => "'='"
  | .comma => "','"
  | .dot => "'.'"
  | .colon => "':'"
  | .semicolon => "';'"
  | .openParen => "'('"
  | .closeParen => "')'"
  | .openBrace => "'\x7b'"
  | .closeBrace => "'\x7d'"
  | .openBracket => "'['"
  | .closeBracket => "']'"
  | .endOfInput => "end of input"

/-- A token: its kind, its text, and the place of its first character. -/
structure Token where
  /-- What kind of token it is. -/
  kind : TokenKind
  /-- The characters it is made of. -/
  text : String
  /-- Where it starts. -/
  position : Position
deriving DecidableEq, Repr

/-- The marker that ends a token stream at `p`. -/
def Token.endMarker (p : Position) : Token := ⟨.endOfInput, "EndOfFile", p⟩

/-- The place just past a token, the characters of which all count as columns. -/
def Token.finish (t : Token) : Position :=
  ⟨t.position.line, t.position.column + t.text.length⟩

end Scriptlet
