import Mathlib.Logic.Function.Iterate
import Scriptlet.Proofs.Grammar.Stability

/-!
# Rules that come to an end

The rules of the grammar call each other, and some of them go on for as long as they like what they
see.  Here they are taken apart at these calls.  `unroll call` is one turn of all rules at once:
each rule is written out, and where it would call a rule, or go round its loop once more, `call` is
asked instead.  So `unroll^[n] call` are the rules down to `n` nested calls, with `call` for
whatever lies deeper, and nothing in this says that the rules come to an end.

They do: from some `n` on the deeper calls are never made, since whatever `call` is, the answer is
that of the rules (`iterate_unroll_eq`).  The number depends on the length of the list alone.  A
call is made on fewer tokens than the rule was given, or else of a rule of a lower level
(`Symbol.level`).  That there are fewer tokens is known from what was read before, so that the rule
in front has to be known to have used some up.  This is where the bounds that the rules carry are
needed (`length_lt_of_consumes`).
-/

namespace Scriptlet.Grammar

open Reader

/-! ## The rules, and one turn of them -/

/-- The rules, and the loops in them. -/
inductive Symbol where
  /-- A program. -/
  | program
  /-- The loop through the statements of a program. -/
  | statements
  /-- A statement. -/
  | statement
  /-- A declaration. -/
  | declaration
  /-- What follows the word of a declaration. -/
  | declarationTail (constant : Bool)
  /-- An expression. -/
  | expression
  /-- A chain of assignments. -/
  | assignment
  /-- An object that is written out, or a sum. -/
  | object
  /-- The loop through the properties of an object. -/
  | properties
  /-- One property, with the comma that may follow it. -/
  | property
  /-- A chain of sums and differences. -/
  | additive
  /-- The loop through the terms behind `left`. -/
  | additiveTail (left : Expr)
  /-- A chain of products and quotients. -/
  | multiplicative
  /-- The loop through the factors behind `left`. -/
  | multiplicativeTail (left : Expr)
  /-- A member with the calls behind it. -/
  | callMember
  /-- The loop through the calls behind `callee`. -/
  | callTail (callee : Expr)
  /-- The arguments of a call, with its parentheses. -/
  | arguments
  /-- What follows the opening parenthesis of the arguments. -/
  | argumentsTail
  /-- The loop through one or more arguments. -/
  | argumentList
  /-- A primary with the accesses behind it. -/
  | member
  /-- The loop through the accesses behind `base`. -/
  | memberTail (base : Expr)
  /-- A name, a literal or a parenthesized expression. -/
  | primary

/-- What a rule reads. -/
@[reducible] def Symbol.Tree : Symbol → Type
  | .program => Program
  | .statements => List Statement
  | .statement => Statement
  | .declaration => Statement
  | .declarationTail _ => Statement
  | .properties => List Property
  | .property => Property
  | .arguments => List Expr
  | .argumentsTail => List Expr
  | .argumentList => List Expr
  | _ => Expr

/-- A reader for each rule. -/
abbrev Readers := (S : Symbol) → Reader S.Tree

/-- The rules of the grammar. -/
def rules : Readers
  | .program => ofRule Grammar.program
  | .statements => Reader.statements
  | .statement => Reader.statement
  | .declaration => Reader.declaration
  | .declarationTail constant => Reader.declarationTail constant
  | .expression => ofRule Grammar.expression
  | .assignment => Reader.assignment
  | .object => Reader.object
  | .properties => Reader.properties
  | .property => Reader.property
  | .additive => Reader.additive
  | .additiveTail left => operatorTail .sum left
  | .multiplicative => Reader.multiplicative
  | .multiplicativeTail left => operatorTail .product left
  | .callMember => Reader.callMember
  | .callTail callee => Reader.callTail callee
  | .arguments => Reader.arguments
  | .argumentsTail => Reader.argumentsTail
  | .argumentList => Reader.argumentList
  | .member => Reader.member
  | .memberTail base => Reader.memberTail base
  | .primary => Reader.primary

/-- Looks at the next token, if there is one. -/
def Reader.peek? : Reader (Option Token) := fun ts => .ok (ts.head?, ts)

/-- One turn of the loop through a chain: `operand` reads the next operand, and `again` goes on. -/
def chainTurn (level : Operator.Level) (operand : Reader Expr) (again : Expr → Reader Expr)
    (left : Expr) : Reader Expr := do
  let t ← peek?
  match t.bind (Token.operatorAt? level) with
  | none => pure left
  | some op => do
    let _ ← next
    let right ← operand
    again (.binary op left right)

/-- One turn of all rules, with `call` for the rules that they call. -/
def unroll (call : Readers) : Readers
  | .program => do
    let ss ← call .statements
    pure ⟨ss⟩
  | .statements => do
    let t ← peek
    if t.kind = .endOfInput then pure []
    else
      let first ← call .statement
      let others ← call .statements
      pure (first :: others)
  | .statement => do
    let t ← peek
    if t.kind = .letWord ∨ t.kind = .constWord then call .declaration
    else
      let e ← call .expression
      let c ← peek
      if c.kind = .semicolon then
        let _ ← next
        pure (.expr e)
      else pure (.expr e)
  | .declaration => do
    let word ← next
    call (.declarationTail (word.kind = .constWord))
  | .declarationTail constant => do
    let name ← Reader.expect .identifier .declaredName
    let t ← peek
    if t.kind = .semicolon then
      if constant then refuse (.missingValue name.text t.position)
      else
        let _ ← next
        pure (.declaration name.text false none)
    else
      let _ ← Reader.expect .equals .equals
      let value ← call .expression
      let _ ← Reader.expect .semicolon .semicolon
      pure (.declaration name.text constant (some value))
  | .expression => call .assignment
  | .assignment => do
    let target ← call .object
    let t ← peek
    if t.kind = .equals then
      let _ ← next
      let value ← call .assignment
      pure (.assign target value)
    else pure target
  | .object => do
    let t ← peek
    if t.kind = .openBrace then
      let _ ← next
      let ps ← call .properties
      let _ ← Reader.expect .closeBrace .closingBrace
      pure (.object ps)
    else call .additive
  | .properties => do
    let t ← peek
    if t.kind = .closeBrace ∨ t.kind = .endOfInput then pure []
    else
      let p ← call .property
      let ps ← call .properties
      pure (p :: ps)
  | .property => do
    let key ← Reader.expect .identifier .propertyKey
    let t ← peek
    if t.kind = .comma then
      let _ ← next
      pure (.shorthand key.text)
    else if t.kind = .closeBrace then pure (.shorthand key.text)
    else
      let _ ← Reader.expect .colon .colon
      let value ← call .expression
      let c ← peek
      if c.kind = .closeBrace then pure (.pair key.text value)
      else
        let _ ← Reader.expect .comma .commaOrBrace
        pure (.pair key.text value)
  | .additive => do
    let first ← call .multiplicative
    call (.additiveTail first)
  | .additiveTail left =>
    chainTurn .sum (call .multiplicative) (fun e => call (.additiveTail e)) left
  | .multiplicative => do
    let first ← call .callMember
    call (.multiplicativeTail first)
  | .multiplicativeTail left =>
    chainTurn .product (call .callMember) (fun e => call (.multiplicativeTail e)) left
  | .callMember => do
    let callee ← call .member
    call (.callTail callee)
  | .callTail callee => do
    let t ← peek
    if t.kind = .openParen then
      let args ← call .arguments
      call (.callTail (.call callee args))
    else pure callee
  | .arguments => do
    let _ ← Reader.expect .openParen .openingParen
    call .argumentsTail
  | .argumentsTail => do
    let t ← peek
    if t.kind = .closeParen then
      let _ ← next
      pure []
    else call .argumentList
  | .argumentList => do
    let first ← call .assignment
    let t ← peek
    if t.kind = .comma then
      let _ ← next
      let others ← call .argumentList
      pure (first :: others)
    else if t.kind = .closeParen then
      let _ ← next
      pure [first]
    else refuse (.unexpected .commaOrParen t)
  | .member => do
    let first ← call .primary
    call (.memberTail first)
  | .memberTail base => do
    let t ← peek
    if t.kind = .dot then
      let _ ← next
      let n ← peek
      let key ← call .primary
      if key.kind = .identifier then call (.memberTail (.dot base key))
      else refuse (.notAName n.position)
    else if t.kind = .openBracket then
      let _ ← next
      let key ← call .expression
      let _ ← Reader.expect .closeBracket .closingBracket
      call (.memberTail (.index base key))
    else pure base
  | .primary => do
    let t ← peek
    match t.kind with
    | .identifier => do
      let _ ← next
      pure (.name t.text)
    | .null => do
      let _ ← next
      pure .null
    | .number =>
      match Number.read? t.text with
      | some x => do
        let _ ← next
        pure (.number x)
      | none => refuse (.unexpected .number t)
    | .openParen => do
      let _ ← next
      let inner ← call .expression
      let _ ← Reader.expect .closeParen .closingParen
      pure inner
    | _ => refuse (.unexpected .expression t)

/-! ## The rules are a turn of themselves -/

/-- The loop through a chain, turn by turn. -/
lemma operatorTail_eq (level : Operator.Level) (left : Expr) :
    operatorTail level left = chainTurn level (operand level) (operatorTail level) left := by
  funext ts
  cases ts with
  | nil => exact operatorTail_nil level left
  | cons t us =>
    rw [operatorTail_cons]
    change _ = (match t.operatorAt? level with
      | none => pure left
      | some op => do
        let _ ← next
        let right ← operand level
        operatorTail level (.binary op left right) : Reader Expr) (t :: us)
    cases t.operatorAt? level with
    | none => rfl
    | some op => rfl

/-- Behind a dot stands a primary, which has to come out as a name. -/
lemma memberTail_eq_dot (base : Expr) : Reader.memberTail base = (do
    let t ← peek
    if t.kind = .dot then
      let _ ← next
      let n ← peek
      let key ← Reader.primary
      if key.kind = .identifier then Reader.memberTail (.dot base key)
      else refuse (.notAName n.position)
    else if t.kind = .openBracket then
      let _ ← next
      let key ← Reader.assignment
      let _ ← Reader.expect .closeBracket .closingBracket
      Reader.memberTail (.index base key)
    else pure base) := by
  rw [memberTail_eq]
  refine congrArg (peek >>= ·) (funext fun t => if_congr Iff.rfl ?_ rfl)
  rw [dotName]
  simp only [bind_assoc]
  refine congrArg (next >>= ·) (funext fun _ => congrArg (peek >>= ·) (funext fun n => ?_))
  refine congrArg (Reader.primary >>= ·) (funext fun key => ?_)
  split_ifs
  · rw [pure_bind]
  · rfl

/-- The rules are what one turn makes of them. -/
lemma unroll_rules : unroll rules = rules := by
  funext S
  cases S with
  | program => exact ofRule_program.symm
  | statements => exact statements_eq.symm
  | statement => exact statement_eq.symm
  | declaration => exact declaration_eq.symm
  | declarationTail constant => exact (declarationTail_eq constant).symm
  | expression => rfl
  | assignment => exact assignment_eq.symm
  | object => exact object_eq.symm
  | properties => exact properties_eq.symm
  | property => exact property_eq.symm
  | additive => exact isOperatorLoop_operatorTail.additive_eq.symm
  | additiveTail left => exact (operatorTail_eq .sum left).symm
  | multiplicative => exact isOperatorLoop_operatorTail.multiplicative_eq.symm
  | multiplicativeTail left => exact (operatorTail_eq .product left).symm
  | callMember => exact callMember_eq.symm
  | callTail callee => exact (callTail_eq callee).symm
  | arguments => exact arguments_eq.symm
  | argumentsTail => exact argumentsTail_eq.symm
  | argumentList => exact argumentList_eq.symm
  | member => exact member_eq.symm
  | memberTail base => exact (memberTail_eq_dot base).symm
  | primary => exact primary_eq.symm

/-! ## What a turn needs to know -/

namespace Reader

variable {α β : Type}

/-- Two sequences do the same when their first parts do, and their second parts on what is left. -/
lemma bind_apply_congr {f f' : Reader α} {g g' : α → Reader β} {ts : List Token} (hf : f ts = f' ts)
    (hg : ∀ a mid, f' ts = .ok (a, mid) → g a mid = g' a mid) : (f >>= g) ts = (f' >>= g') ts := by
  cases hread : f' ts with
  | error e => rw [bind_of_error (hf.trans hread), bind_of_error hread]
  | ok r =>
    obtain ⟨a, mid⟩ := r
    rw [bind_of_ok (hf.trans hread), bind_of_ok hread]
    exact hg a mid hread

/-- Readers that look first do the same if they do so with the token in place. -/
lemma peek_bind_congr {g g' : Token → Reader α} {ts : List Token}
    (h : ∀ t, g t ts = g' t ts) : (peek >>= g) ts = (peek >>= g') ts := by
  cases ts with
  | nil => rfl
  | cons t us => exact h t

/-- Behind a token that is taken there are fewer. -/
lemma next_bind_congr {g g' : Token → Reader α} {ts : List Token}
    (h : ∀ t us, us.length < ts.length → g t us = g' t us) :
    (next >>= g) ts = (next >>= g') ts := by
  cases ts with
  | nil => rfl
  | cons t us => exact h t us (by simp)

/-- Behind a token that was asked for there are fewer. -/
lemma expect_bind_congr {kind : TokenKind} {expected : Expectation} {g g' : Token → Reader α}
    {ts : List Token} (h : ∀ t us, us.length < ts.length → g t us = g' t us) :
    (Reader.expect kind expected >>= g) ts = (Reader.expect kind expected >>= g') ts := by
  refine bind_apply_congr rfl fun t us hread => h t us ?_
  obtain ⟨rfl, -⟩ := expect_eq_ok hread
  simp

end Reader

/-- A turn of a loop through a chain looks at what it calls on fewer tokens. -/
lemma chainTurn_congr {level : Operator.Level} {operand operand' : Reader Expr}
    {again again' : Expr → Reader Expr} {ts : List Token}
    (hoperand : ∀ us, us.length < ts.length → operand us = operand' us)
    (hless : ∀ {us e mid}, operand' us = .ok (e, mid) → mid.length < us.length)
    (hagain : ∀ e us, us.length < ts.length → again e us = again' e us) (left : Expr) :
    chainTurn level operand again left ts = chainTurn level operand' again' left ts := by
  refine bind_apply_congr rfl fun t mid hpeek => ?_
  cases hpeek
  cases ts.head?.bind (Token.operatorAt? level) with
  | none => rfl
  | some op =>
    refine next_bind_congr fun _ us hus => ?_
    refine bind_apply_congr (hoperand us hus) fun right mid hright => ?_
    have hlt : mid.length < us.length := hless hright
    exact hagain _ mid (by omega)

/-- A rule that has not read anything calls only rules of lower levels. -/
def Symbol.level : Symbol → Nat
  | .program => 11
  | .statements => 10
  | .statement => 9
  | .argumentsTail => 9
  | .expression => 8
  | .argumentList => 8
  | .assignment => 7
  | .object => 6
  | .additive => 5
  | .multiplicative => 4
  | .callMember => 3
  | .member => 2
  | .properties => 1
  | .primary => 1
  | .callTail _ => 1
  | .declaration => 0
  | .declarationTail _ => 0
  | .property => 0
  | .additiveTail _ => 0
  | .multiplicativeTail _ => 0
  | .arguments => 0
  | .memberTail _ => 0

/-- How deep the calls of a rule may go. -/
def Symbol.cost (S : Symbol) (ts : List Token) : Nat := 12 * ts.length + S.level

/-- There are twelve levels. -/
lemma Symbol.level_lt (S : Symbol) : S.level < 12 := by
  cases S <;> simp [Symbol.level]

/-- The rules that use up a token whenever they succeed.  The others are the loops that may end at
once, and a program, which may have no statements. -/
def Symbol.Consumes : Symbol → Bool
  | .program => false
  | .statements => false
  | .properties => false
  | .additiveTail _ => false
  | .multiplicativeTail _ => false
  | .callTail _ => false
  | .memberTail _ => false
  | _ => true

/-- These rules leave fewer tokens. -/
lemma length_lt_of_consumes {S : Symbol} (hS : S.Consumes) {ts rest : List Token} {a : S.Tree}
    (h : rules S ts = .ok (a, rest)) : rest.length < ts.length := by
  cases S
  case program | statements | properties | additiveTail | multiplicativeTail | callTail
      | memberTail => cases hS
  all_goals exact length_lt_of_ofRule h

/-! ## One turn of each rule

A turn of a rule on `ts` looks at what it calls on fewer tokens, and on `ts` itself only at lower
levels.  For each rule there is one lemma that says so; it goes along the text of the rule in
`unroll`. -/

/-- Where a turn of the rule `S` on `ts` may look, `call` does what the rules do. -/
structure AgreesBelow (call : Readers) (S : Symbol) (ts : List Token) : Prop where
  /-- On the same tokens, at lower levels. -/
  level : ∀ S' : Symbol, S'.level < S.level → call S' ts = rules S' ts
  /-- On fewer tokens. -/
  short : ∀ (S' : Symbol) us, us.length < ts.length → call S' us = rules S' us

section Turns

variable {call : Readers} {ts : List Token}

/-- Where a turn starts with a rule of a lower level that uses up tokens, it is decided by what it
does behind them, on fewer tokens. -/
lemma AgreesBelow.bind_congr {S : Symbol} (h : AgreesBelow call S ts) (F : Symbol)
    (hlevel : F.level < S.level) (hF : F.Consumes) {α : Type} {g g' : F.Tree → Reader α}
    (hg : ∀ a mid, mid.length < ts.length → g a mid = g' a mid) :
    (call F >>= g) ts = (rules F >>= g') ts :=
  bind_apply_congr (h.level F hlevel) fun a mid hfirst =>
    hg a mid (length_lt_of_consumes hF hfirst)

/-- A program calls the loop through its statements. -/
lemma unroll_program_congr (h : AgreesBelow call .program ts) :
    unroll call .program ts = unroll rules .program ts :=
  bind_apply_congr (h.level .statements (by decide)) fun _ _ _ => rfl

/-- The loop through the statements goes on behind a statement, which has used up tokens. -/
lemma unroll_statements_congr (h : AgreesBelow call .statements ts) :
    unroll call .statements ts = unroll rules .statements ts := by
  refine peek_bind_congr fun t => ?_
  split_ifs
  · rfl
  · refine h.bind_congr .statement (by decide) rfl fun _ mid hlt => ?_
    exact bind_apply_congr (h.short .statements mid hlt) fun _ _ _ => rfl

/-- A statement calls the rule for declarations or the one for expressions. -/
lemma unroll_statement_congr (h : AgreesBelow call .statement ts) :
    unroll call .statement ts = unroll rules .statement ts := by
  refine peek_bind_congr fun t => ?_
  split_ifs
  · exact h.level .declaration (by decide)
  · exact bind_apply_congr (h.level .expression (by decide)) fun _ _ _ => rfl

/-- A declaration goes on behind its word. -/
lemma unroll_declaration_congr (h : AgreesBelow call .declaration ts) :
    unroll call .declaration ts = unroll rules .declaration ts :=
  next_bind_congr fun _ us hus => h.short _ us hus

/-- The value of a declaration stands behind a name and a sign. -/
lemma unroll_declarationTail_congr {constant : Bool}
    (h : AgreesBelow call (.declarationTail constant) ts) :
    unroll call (.declarationTail constant) ts = unroll rules (.declarationTail constant) ts := by
  refine expect_bind_congr fun name us hus => peek_bind_congr fun t => ?_
  split_ifs
  · rfl
  · rfl
  · refine expect_bind_congr fun _ vs hvs => ?_
    exact bind_apply_congr (h.short .expression vs (by omega)) fun _ _ _ => rfl

/-- The value of an assignment stands behind its target and a sign. -/
lemma unroll_assignment_congr (h : AgreesBelow call .assignment ts) :
    unroll call .assignment ts = unroll rules .assignment ts := by
  refine h.bind_congr .object (by decide) rfl fun _ mid hlt => ?_
  refine peek_bind_congr fun t => ?_
  split_ifs
  · refine next_bind_congr fun _ us hus => ?_
    exact bind_apply_congr (h.short .assignment us (by omega)) fun _ _ _ => rfl
  · rfl

/-- The properties of an object stand behind its brace, and a sum is at a lower level. -/
lemma unroll_object_congr (h : AgreesBelow call .object ts) :
    unroll call .object ts = unroll rules .object ts := by
  refine peek_bind_congr fun t => ?_
  split_ifs
  · refine next_bind_congr fun _ us hus => ?_
    exact bind_apply_congr (h.short .properties us hus) fun _ _ _ => rfl
  · exact h.level .additive (by decide)

/-- The loop through the properties goes on behind a property, which has used up tokens. -/
lemma unroll_properties_congr (h : AgreesBelow call .properties ts) :
    unroll call .properties ts = unroll rules .properties ts := by
  refine peek_bind_congr fun t => ?_
  split_ifs
  · rfl
  · refine h.bind_congr .property (by decide) rfl fun _ mid hlt => ?_
    exact bind_apply_congr (h.short .properties mid hlt) fun _ _ _ => rfl

/-- The value of a property stands behind its key and a colon. -/
lemma unroll_property_congr (h : AgreesBelow call .property ts) :
    unroll call .property ts = unroll rules .property ts := by
  refine expect_bind_congr fun key us hus => peek_bind_congr fun t => ?_
  split_ifs
  · rfl
  · rfl
  · refine expect_bind_congr fun _ vs hvs => ?_
    exact bind_apply_congr (h.short .expression vs (by omega)) fun _ _ _ => rfl

/-- A sum goes on behind its first term. -/
lemma unroll_additive_congr (h : AgreesBelow call .additive ts) :
    unroll call .additive ts = unroll rules .additive ts :=
  h.bind_congr .multiplicative (by decide) rfl fun first => h.short (.additiveTail first)

/-- The loop through the terms of a sum goes on behind a sign and a term. -/
lemma unroll_additiveTail_congr {left : Expr} (h : AgreesBelow call (.additiveTail left) ts) :
    unroll call (.additiveTail left) ts = unroll rules (.additiveTail left) ts :=
  chainTurn_congr (h.short .multiplicative) (fun hright => length_lt_of_consumes rfl hright)
    (fun e => h.short (.additiveTail e)) left

/-- A product goes on behind its first factor. -/
lemma unroll_multiplicative_congr (h : AgreesBelow call .multiplicative ts) :
    unroll call .multiplicative ts = unroll rules .multiplicative ts :=
  h.bind_congr .callMember (by decide) rfl fun first => h.short (.multiplicativeTail first)

/-- The loop through the factors of a product goes on behind a sign and a factor. -/
lemma unroll_multiplicativeTail_congr {left : Expr}
    (h : AgreesBelow call (.multiplicativeTail left) ts) :
    unroll call (.multiplicativeTail left) ts = unroll rules (.multiplicativeTail left) ts :=
  chainTurn_congr (h.short .callMember) (fun hright => length_lt_of_consumes rfl hright)
    (fun e => h.short (.multiplicativeTail e)) left

/-- The calls stand behind the member that is called. -/
lemma unroll_callMember_congr (h : AgreesBelow call .callMember ts) :
    unroll call .callMember ts = unroll rules .callMember ts :=
  h.bind_congr .member (by decide) rfl fun callee => h.short (.callTail callee)

/-- The loop through the calls goes on behind the arguments, which have used up tokens. -/
lemma unroll_callTail_congr {callee : Expr} (h : AgreesBelow call (.callTail callee) ts) :
    unroll call (.callTail callee) ts = unroll rules (.callTail callee) ts := by
  refine peek_bind_congr fun t => ?_
  split_ifs
  · exact h.bind_congr .arguments Nat.zero_lt_one rfl fun args => h.short _
  · rfl

/-- The arguments of a call go on behind their parenthesis. -/
lemma unroll_arguments_congr (h : AgreesBelow call .arguments ts) :
    unroll call .arguments ts = unroll rules .arguments ts :=
  expect_bind_congr fun _ us hus => h.short .argumentsTail us hus

/-- Arguments that do not end at once are a list. -/
lemma unroll_argumentsTail_congr (h : AgreesBelow call .argumentsTail ts) :
    unroll call .argumentsTail ts = unroll rules .argumentsTail ts := by
  refine peek_bind_congr fun t => ?_
  split_ifs
  · rfl
  · exact h.level .argumentList (by decide)

/-- The loop through the arguments goes on behind an argument and a comma. -/
lemma unroll_argumentList_congr (h : AgreesBelow call .argumentList ts) :
    unroll call .argumentList ts = unroll rules .argumentList ts := by
  refine h.bind_congr .assignment (by decide) rfl fun first mid hlt => ?_
  refine peek_bind_congr fun t => ?_
  split_ifs
  · refine next_bind_congr fun _ us hus => ?_
    exact bind_apply_congr (h.short .argumentList us (by omega)) fun _ _ _ => rfl
  · rfl
  · rfl

/-- The accesses stand behind the primary that they start from. -/
lemma unroll_member_congr (h : AgreesBelow call .member ts) :
    unroll call .member ts = unroll rules .member ts :=
  h.bind_congr .primary (by decide) rfl fun first => h.short (.memberTail first)

/-- The loop through the accesses goes on behind a name or a key, which have used up tokens. -/
lemma unroll_memberTail_congr {base : Expr} (h : AgreesBelow call (.memberTail base) ts) :
    unroll call (.memberTail base) ts = unroll rules (.memberTail base) ts := by
  refine peek_bind_congr fun t => ?_
  split_ifs
  · refine next_bind_congr fun _ us hus => peek_bind_congr fun n => ?_
    refine bind_apply_congr (h.short .primary us hus) fun key mid hkey => ?_
    have hlt : mid.length < us.length := length_lt_of_consumes rfl hkey
    split_ifs
    · exact h.short _ mid (by omega)
    · rfl
  · refine next_bind_congr fun _ us hus => ?_
    refine bind_apply_congr (h.short .expression us hus) fun key mid hkey => ?_
    have hlt : mid.length < us.length := length_lt_of_consumes rfl hkey
    exact expect_bind_congr fun _ vs hvs => h.short _ vs (by omega)
  · rfl

/-- Only a parenthesized primary calls a rule, behind its parenthesis. -/
lemma unroll_primary_congr (h : AgreesBelow call .primary ts) :
    unroll call .primary ts = unroll rules .primary ts := by
  refine peek_bind_congr fun t => ?_
  cases t.kind
  case openParen =>
    refine next_bind_congr fun _ us hus => ?_
    exact bind_apply_congr (h.short .expression us hus) fun _ _ _ => rfl
  all_goals rfl

end Turns

/-- One turn looks at what it calls on fewer tokens, and on the same tokens at lower levels. -/
lemma unroll_congr {call : Readers} {S : Symbol} {ts : List Token} (h : AgreesBelow call S ts) :
    unroll call S ts = unroll rules S ts := by
  cases S with
  | program => exact unroll_program_congr h
  | statements => exact unroll_statements_congr h
  | statement => exact unroll_statement_congr h
  | declaration => exact unroll_declaration_congr h
  | declarationTail constant => exact unroll_declarationTail_congr h
  | expression => exact h.level .assignment (by decide)
  | assignment => exact unroll_assignment_congr h
  | object => exact unroll_object_congr h
  | properties => exact unroll_properties_congr h
  | property => exact unroll_property_congr h
  | additive => exact unroll_additive_congr h
  | additiveTail left => exact unroll_additiveTail_congr h
  | multiplicative => exact unroll_multiplicative_congr h
  | multiplicativeTail left => exact unroll_multiplicativeTail_congr h
  | callMember => exact unroll_callMember_congr h
  | callTail callee => exact unroll_callTail_congr h
  | arguments => exact unroll_arguments_congr h
  | argumentsTail => exact unroll_argumentsTail_congr h
  | argumentList => exact unroll_argumentList_congr h
  | member => exact unroll_member_congr h
  | memberTail base => exact unroll_memberTail_congr h
  | primary => exact unroll_primary_congr h

/-! ## Enough turns -/

/-- With as many turns as the cost allows, what lies deeper is not reached. -/
lemma iterate_unroll_of_cost_lt (call : Readers) {n : Nat} {S : Symbol} {ts : List Token}
    (h : S.cost ts < n) : (unroll^[n] call) S ts = rules S ts := by
  induction n generalizing S ts with
  | zero => omega
  | succ n ih =>
    rw [Function.iterate_succ_apply']
    refine (unroll_congr ⟨fun S' hlevel => ih ?_, fun S' us hshort => ih ?_⟩).trans ?_
    · unfold Symbol.cost at h ⊢
      omega
    · -- One token less outweighs all levels.
      have hS' : S'.level < 12 := S'.level_lt
      unfold Symbol.cost at h ⊢
      omega
    · rw [unroll_rules]

/-- The number of turns can be told from the number of tokens. -/
lemma iterate_unroll_eq (call : Readers) {n : Nat} (S : Symbol) {ts : List Token}
    (h : 12 * (ts.length + 1) ≤ n) : (unroll^[n] call) S ts = rules S ts := by
  have hS : S.level < 12 := S.level_lt
  refine iterate_unroll_of_cost_lt call ?_
  unfold Symbol.cost
  omega

end Scriptlet.Grammar
