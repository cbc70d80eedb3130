import Scriptlet.Grammar.Rules

/-!
# Reading by a rule, and whole token lists

`Rule.read` reads a phrase by any of the rules that stand for one: it gives the phrase and the
tokens behind it.  `Grammar.parseTokens` reads a token list as one program.  It first puts an end
marker behind a list that has none at its end, so that running out of tokens is reported with a
place like any other violation.
-/

namespace Scriptlet.Grammar

/-- The rules that stand for a phrase. -/
inductive Rule where
  /-- Statements up to an end marker. -/
  | program
  /-- A statement. -/
  | statement
  /-- An expression. -/
  | expression
  /-- A chain of assignments. -/
  | assignment
  /-- An object that is written out, or a sum. -/
  | object
  /-- A chain of sums and differences. -/
  | additive
  /-- A chain of products and quotients. -/
  | multiplicative
  /-- A member with the calls behind it. -/
  | callMember
  /-- A primary with the accesses behind it. -/
  | member
  /-- A name, a literal or a parenthesized expression. -/
  | primary
deriving DecidableEq, Repr

/-- What was read, as a phrase and the tokens behind it. -/
def Parsed.phrase {α : Type} {n : Nat} (toPhrase : α → Phrase) (p : Parsed α n) :
    Phrase × List Token :=
  (toPhrase p.value, p.rest)

/-- Reads a phrase off the front of a token list. -/
def Rule.read (r : Rule) (ts : List Token) : Except ParseError (Phrase × List Token) :=
  match r with
  | .program => (Grammar.program ts).map (Parsed.phrase .program)
  | .statement => (Grammar.statement ts).map (Parsed.phrase .statement)
  | .expression => (Grammar.expression ts).map (Parsed.phrase .expr)
  | .assignment => (Grammar.assignment ts).map (Parsed.phrase .expr)
  | .object => (Grammar.object ts).map (Parsed.phrase .expr)
  | .additive => (Grammar.additive ts).map (Parsed.phrase .expr)
  | .multiplicative => (Grammar.multiplicative ts).map (Parsed.phrase .expr)
  | .callMember => (Grammar.callMember ts).map (Parsed.phrase .expr)
  | .member => (Grammar.member ts).map (Parsed.phrase .expr)
  | .primary => (Grammar.primary ts).map (Parsed.phrase .expr)

/-- The token list `ts` with an end marker at its end; a missing one stands just past the last
token. -/
def withEndMarker (ts : List Token) : List Token :=
  match ts.getLast? with
  | none => [.endMarker .start]
  | some last => if last.kind = .endOfInput then ts else ts ++ [.endMarker last.finish]

/-- The program that a whole token list spells. -/
def parseTokens (ts : List Token) : Except ParseError Program :=
  (program (withEndMarker ts)).map Parsed.value

end Scriptlet.Grammar
