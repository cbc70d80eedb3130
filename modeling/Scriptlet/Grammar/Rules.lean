import Scriptlet.Grammar.Violation
import Scriptlet.Number.Text
import Scriptlet.Program

/-!
# The rules of the grammar

One function for each rule.  A rule reads a phrase off the front of a token list and gives its tree
and the tokens behind it:

    program        := statement*
    statement      := declaration | expression ";"?
    declaration    := "let" name ";" | ("let" | "const") name "=" expression ";"
    expression     := assignment
    assignment     := object ("=" assignment)?
    object         := "{" (property ("," property)* ","?)? "}" | additive
    property       := name (":" expression)?
    additive       := multiplicative (("+" | "-") multiplicative)*
    multiplicative := callMember (("*" | "/") callMember)*
    callMember     := member arguments*
    arguments      := "(" (assignment ("," assignment)*)? ")"
    member         := primary ("." primary | "[" expression "]")*
    primary        := name | "null" | number | "(" expression ")"

The primary behind a dot has to come out as a name.  Sums and products group to the left: their
rules carry the tree that is built so far through the chain.

A phrase is never empty, and `Parsed` keeps the proof: the tokens behind it are fewer than a bound.
The bound is the number of tokens that a rule was given, or one more for the rest of a chain or
list, which may be empty.  This is what lets the rules call each other: a rule that has read
something calls any other, and one that has not calls only rules below its own level, which the
summand of its measure counts.  The rules for statements stand above those for expressions, and a
program ends at the first end marker.
-/

namespace Scriptlet

/-- The operator a token stands for; the text of an operator sign need not be one. -/
def Token.operator? (t : Token) : Option Operator :=
  if t.kind = .operator then Operator.ofSymbol? t.text else none

/-- The operator a token stands for, if it binds at the given level. -/
def Token.operatorAt? (level : Operator.Level) (t : Token) : Option Operator :=
  t.operator?.filter fun op => op.level = level

namespace Grammar

/-- A phrase that was read, with fewer than `bound` tokens behind it. -/
structure Parsed (α : Type) (bound : Nat) where
  /-- The tree of the phrase. -/
  value : α
  /-- The tokens behind the phrase. -/
  rest : List Token
  /-- Something was read. -/
  rest_lt : rest.length < bound

grind_pattern Parsed.rest_lt => self.rest

/-- Reads one token, which has to be of the given kind. -/
def expect (kind : TokenKind) (expected : Expectation) :
    (ts : List Token) → Except ParseError (Parsed Token ts.length)
  | [] => .error .outOfTokens
  | t :: ts =>
    if t.kind = kind then .ok ⟨t, ts, by grind⟩
    else .error (.unexpected expected t)

mutual

/-- A chain of assignments, grouped to the right. -/
def assignment (ts : List Token) : Except ParseError (Parsed Expr ts.length) := do
  let target ← object ts
  match h : target.rest with
  | [] => .error .outOfTokens
  | t :: us =>
    if t.kind = .equals then
      let value ← assignment us
      .ok ⟨.assign target.value value.value, value.rest, by grind⟩
    else .ok target
termination_by 10 * ts.length + 7
decreasing_by all_goals grind

/-- An object that is written out, or a sum. -/
def object (ts : List Token) : Except ParseError (Parsed Expr ts.length) :=
  match ts with
  | [] => .error .outOfTokens
  | t :: us =>
    if t.kind = .openBrace then do
      let entries ← properties us
      let close ← expect .closeBrace .closingBrace entries.rest
      .ok ⟨.object entries.value, close.rest, by grind⟩
    else additive (t :: us)
termination_by 10 * ts.length + 6
decreasing_by all_goals grind

/-- The properties of an object, up to its end. -/
def properties (ts : List Token) : Except ParseError (Parsed (List Property) (ts.length + 1)) :=
  match ts with
  | [] => .error .outOfTokens
  | t :: us =>
    if t.kind = .closeBrace ∨ t.kind = .endOfInput then
      .ok ⟨[], t :: us, by grind⟩
    else do
      let first ← property (t :: us)
      let others ← properties first.rest
      .ok ⟨first.value :: others.value, others.rest, by grind⟩
termination_by 10 * ts.length + 1
decreasing_by all_goals grind

/-- One property, with the comma that may follow it. -/
def property (ts : List Token) : Except ParseError (Parsed Property ts.length) := do
  let key ← expect .identifier .propertyKey ts
  match h : key.rest with
  | [] => .error .outOfTokens
  | t :: us =>
    if t.kind = .comma then
      .ok ⟨.shorthand key.value.text, us, by grind⟩
    else if t.kind = .closeBrace then
      .ok ⟨.shorthand key.value.text, t :: us, by grind⟩
    else
      let colon ← expect .colon .colon (t :: us)
      let value ← assignment colon.rest
      match h : value.rest with
      | [] => .error .outOfTokens
      | c :: vs =>
        if c.kind = .closeBrace then
          .ok ⟨.pair key.value.text value.value, c :: vs, by grind⟩
        else
          let comma ← expect .comma .commaOrBrace (c :: vs)
          .ok ⟨.pair key.value.text value.value, comma.rest, by grind⟩
termination_by 10 * ts.length
decreasing_by all_goals grind

/-- A chain of sums and differences. -/
def additive (ts : List Token) : Except ParseError (Parsed Expr ts.length) := do
  let first ← multiplicative ts
  let chain ← additiveTail first.value first.rest
  .ok ⟨chain.value, chain.rest, by grind⟩
termination_by 10 * ts.length + 5
decreasing_by all_goals grind

/-- What follows the terms `left` of a chain of sums. -/
def additiveTail (left : Expr) (ts : List Token) :
    Except ParseError (Parsed Expr (ts.length + 1)) :=
  match ts with
  | [] => .ok ⟨left, [], by grind⟩
  | t :: us =>
    match t.operatorAt? .sum with
    | none => .ok ⟨left, t :: us, by grind⟩
    | some op => do
      let right ← multiplicative us
      let chain ← additiveTail (.binary op left right.value) right.rest
      .ok ⟨chain.value, chain.rest, by grind⟩
termination_by 10 * ts.length
decreasing_by all_goals grind

/-- A chain of products and quotients. -/
def multiplicative (ts : List Token) : Except ParseError (Parsed Expr ts.length) := do
  let first ← callMember ts
  let chain ← multiplicativeTail first.value first.rest
  .ok ⟨chain.value, chain.rest, by grind⟩
termination_by 10 * ts.length + 4
decreasing_by all_goals grind

/-- What follows the factors `left` of a chain of products. -/
def multiplicativeTail (left : Expr) (ts : List Token) :
    Except ParseError (Parsed Expr (ts.length + 1)) :=
  match ts with
  | [] => .ok ⟨left, [], by grind⟩
  | t :: us =>
    match t.operatorAt? .product with
    | none => .ok ⟨left, t :: us, by grind⟩
    | some op => do
      let right ← callMember us
      let chain ← multiplicativeTail (.binary op left right.value) right.rest
      .ok ⟨chain.value, chain.rest, by grind⟩
termination_by 10 * ts.length
decreasing_by all_goals grind

/-- A member with the calls behind it. -/
def callMember (ts : List Token) : Except ParseError (Parsed Expr ts.length) := do
  let callee ← member ts
  let chain ← callTail callee.value callee.rest
  .ok ⟨chain.value, chain.rest, by grind⟩
termination_by 10 * ts.length + 3
decreasing_by all_goals grind

/-- The calls behind `callee`. -/
def callTail (callee : Expr) (ts : List Token) :
    Except ParseError (Parsed Expr (ts.length + 1)) :=
  match ts with
  | [] => .error .outOfTokens
  | t :: us =>
    if t.kind = .openParen then do
      let args ← arguments (t :: us)
      let chain ← callTail (.call callee args.value) args.rest
      .ok ⟨chain.value, chain.rest, by grind⟩
    else .ok ⟨callee, t :: us, by grind⟩
termination_by 10 * ts.length + 1
decreasing_by all_goals grind

/-- The arguments of a call, with its parentheses. -/
def arguments (ts : List Token) : Except ParseError (Parsed (List Expr) ts.length) := do
  let opening ← expect .openParen .openingParen ts
  let args ← argumentsTail opening.rest
  .ok ⟨args.value, args.rest, by grind⟩
termination_by 10 * ts.length
decreasing_by all_goals grind

/-- What follows the opening parenthesis of the arguments of a call. -/
def argumentsTail (ts : List Token) : Except ParseError (Parsed (List Expr) ts.length) :=
  match ts with
  | [] => .error .outOfTokens
  | t :: us =>
    if t.kind = .closeParen then .ok ⟨[], us, by grind⟩
    else argumentList (t :: us)
termination_by 10 * ts.length + 9
decreasing_by all_goals grind

/-- One or more arguments of a call, with its closing parenthesis. -/
def argumentList (ts : List Token) : Except ParseError (Parsed (List Expr) ts.length) := do
  let first ← assignment ts
  match h : first.rest with
  | [] => .error .outOfTokens
  | t :: us =>
    if t.kind = .comma then
      let others ← argumentList us
      .ok ⟨first.value :: others.value, others.rest, by grind⟩
    else if t.kind = .closeParen then
      .ok ⟨[first.value], us, by grind⟩
    else .error (.unexpected .commaOrParen t)
termination_by 10 * ts.length + 8
decreasing_by all_goals grind

/-- A primary with the accesses behind it. -/
def member (ts : List Token) : Except ParseError (Parsed Expr ts.length) := do
  let first ← primary ts
  let chain ← memberTail first.value first.rest
  .ok ⟨chain.value, chain.rest, by grind⟩
termination_by 10 * ts.length + 2
decreasing_by all_goals grind

/-- The accesses behind `base`. -/
def memberTail (base : Expr) (ts : List Token) :
    Except ParseError (Parsed Expr (ts.length + 1)) :=
  match ts with
  | [] => .error .outOfTokens
  | t :: us =>
    if t.kind = .dot then
      match us with
      | [] => .error .outOfTokens
      | n :: vs => do
        let key ← primary (n :: vs)
        if key.value.kind = .identifier then
          let chain ← memberTail (.dot base key.value) key.rest
          .ok ⟨chain.value, chain.rest, by grind⟩
        else .error (.notAName n.position)
    else if t.kind = .openBracket then do
      let key ← assignment us
      let close ← expect .closeBracket .closingBracket key.rest
      let chain ← memberTail (.index base key.value) close.rest
      .ok ⟨chain.value, chain.rest, by grind⟩
    else .ok ⟨base, t :: us, by grind⟩
termination_by 10 * ts.length
decreasing_by all_goals grind

/-- A name, a literal or a parenthesized expression. -/
def primary (ts : List Token) : Except ParseError (Parsed Expr ts.length) :=
  match ts with
  | [] => .error .outOfTokens
  | t :: us =>
    match t.kind with
    | .identifier => .ok ⟨.name t.text, us, by grind⟩
    | .null => .ok ⟨.null, us, by grind⟩
    | .number =>
      match Number.read? t.text with
      | some x => .ok ⟨.number x, us, by grind⟩
      | none => .error (.unexpected .number t)
    | .openParen => do
      let inner ← assignment us
      let close ← expect .closeParen .closingParen inner.rest
      .ok ⟨inner.value, close.rest, by grind⟩
    | _ => .error (.unexpected .expression t)
termination_by 10 * ts.length + 1
decreasing_by all_goals grind

end

/-- An expression. -/
def expression (ts : List Token) : Except ParseError (Parsed Expr ts.length) :=
  assignment ts

/-- What follows the word of a declaration.  A constant needs a value. -/
def declarationTail (constant : Bool) (ts : List Token) :
    Except ParseError (Parsed Statement ts.length) := do
  let name ← expect .identifier .declaredName ts
  match h : name.rest with
  | [] => .error .outOfTokens
  | t :: us =>
    if t.kind = .semicolon then
      if constant then .error (.missingValue name.value.text t.position)
      else .ok ⟨.declaration name.value.text false none, us, by grind⟩
    else
      let equals ← expect .equals .equals (t :: us)
      let value ← expression equals.rest
      let close ← expect .semicolon .semicolon value.rest
      .ok ⟨.declaration name.value.text constant (some value.value), close.rest, by grind⟩

/-- A declaration.  That its first token is a word of declaration was seen before; here it decides
whether the name is that of a constant. -/
def declaration (ts : List Token) : Except ParseError (Parsed Statement ts.length) :=
  match ts with
  | [] => .error .outOfTokens
  | word :: us => do
    let declared ← declarationTail (word.kind = .constWord) us
    .ok ⟨declared.value, declared.rest, by grind⟩

/-- A statement, with the semicolon that may follow an expression. -/
def statement (ts : List Token) : Except ParseError (Parsed Statement ts.length) :=
  match ts with
  | [] => .error .outOfTokens
  | t :: us =>
    if t.kind = .letWord ∨ t.kind = .constWord then declaration (t :: us)
    else do
      let found ← expression (t :: us)
      match h : found.rest with
      | [] => .error .outOfTokens
      | c :: vs =>
        if c.kind = .semicolon then .ok ⟨.expr found.value, vs, by grind⟩
        else .ok ⟨.expr found.value, c :: vs, by grind⟩

/-- Statements up to the first end marker, which stays unread. -/
def statements (ts : List Token) :
    Except ParseError (Parsed (List Statement) (ts.length + 1)) :=
  match ts with
  | [] => .error .outOfTokens
  | t :: us =>
    if t.kind = .endOfInput then .ok ⟨[], t :: us, by grind⟩
    else do
      let first ← statement (t :: us)
      let others ← statements first.rest
      .ok ⟨first.value :: others.value, others.rest, by grind⟩
termination_by ts.length
decreasing_by grind

/-- A program. -/
def program (ts : List Token) : Except ParseError (Parsed Program (ts.length + 1)) := do
  let found ← statements ts
  .ok ⟨⟨found.value⟩, found.rest, found.rest_lt⟩

end Grammar

end Scriptlet
