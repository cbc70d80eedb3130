import Scriptlet.Token

/-!
# Violations of the grammar

A `ParseError` names the token that cannot stand where it stands, and an `Expectation` says what
could have stood there instead.
-/

namespace Scriptlet

/-- What the grammar asks for at some place. -/
inductive Expectation where
  /-- The start of an expression. -/
  | expression
  /-- The text of a number. -/
  | number
  /-- The end of a parenthesized expression. -/
  | closingParen
  /-- The end of an object. -/
  | closingBrace
  /-- The key of a property. -/
  | propertyKey
  /-- The mark between a key and its value. -/
  | colon
  /-- What may follow a property. -/
  | commaOrBrace
  /-- The end of an index. -/
  | closingBracket
  /-- The start of the arguments of a call. -/
  | openingParen
  /-- What may follow an argument. -/
  | commaOrParen
  /-- The name that is declared. -/
  | declaredName
  /-- The mark between a declared name and its value. -/
  | equals
  /-- The end of a declaration. -/
  | semicolon
deriving DecidableEq, Repr

/-- How an expectation is called in a message. -/
def Expectation.text : Expectation → String
  | .expression => "expression"
  | .number => "number"
  | .closingParen => "closing ')' after parenthesized expression"
  | .closingBrace => "closing '\x7d' on object literal"
  | .propertyKey => "object literal key"
  | .colon => "':' in key: value pair"
  | .commaOrBrace => "',' or closing '\x7d' following property"
  | .closingBracket => "closing ']' in computed member access"
  | .openingParen => "'(' before arguments"
  | .commaOrParen => "',' or ')'"
  | .declaredName => "identifier name following 'let' or 'const'"
  | .equals => "'=' following identifier in variable declaration"
  | .semicolon => "';' after variable declaration"

/-- Why a list of tokens is no program. -/
inductive ParseError where
  /-- Something else was expected where `found` stands. -/
  | unexpected (expected : Expectation) (found : Token)
  /-- A constant is declared without a value; the place is that of the mark in its stead. -/
  | missingValue (name : String) (position : Position)
  /-- What follows a dot is no name. -/
  | notAName (position : Position)
  /-- The tokens ran out, and not even an end marker was among them. -/
  | outOfTokens
deriving DecidableEq, Repr

/-- The text of a violation. -/
def ParseError.message : ParseError → String
  | .unexpected expected found =>
    "Error on " ++ found.position.text ++ ": Expected " ++ expected.text ++ ", found " ++
      found.kind.text ++ " '" ++ found.text ++ "'."
  | .missingValue name p =>
    "Error on " ++ p.text ++ ": Constant '" ++ name ++ "' requires a value."
  | .notAName p =>
    "Error on " ++ p.text ++ ": Only identifiers may follow the '.' operator."
  | .outOfTokens => "Unexpected end of input."

end Scriptlet
