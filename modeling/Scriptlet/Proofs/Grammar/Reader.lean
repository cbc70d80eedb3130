import Mathlib.Tactic.Lemma
import Scriptlet.Grammar

/-!
# The rules as readers

A rule of the grammar gives its tree together with a proof that tokens were used up.  The proof is
what makes the rules terminate; everything else that is said about them does not need it.
`Reader.ofRule` forgets it, so that each rule becomes a `Reader`: a computation that takes tokens
off the front of a list and either gives a tree or fails.

The main statements of this module are the equations of the rules (`assignment_eq`, `object_eq`, and
so on).  They write each rule in terms of four basic steps, `peek`, `next`, `expect` and `refuse`,
and of the rules it calls.  All later arguments about the rules start from these equations.

The tails of sums and products need a word.  Taken alone they accept an empty list, where all other
rules run out of tokens.  But what comes before a tail never uses up the whole list
(`callMember_rest`), so that this case does not arise, and `chainTail` is the tail without it.
-/

namespace Scriptlet.Grammar

/-- A reader takes something off the front of a token list, or fails. -/
abbrev Reader (α : Type) := StateT (List Token) (Except ParseError) α

namespace Reader

variable {α β : Type}

/-! ## Basic steps -/

/-- Looks at the next token and leaves it in place. -/
def peek : Reader Token
  | [] => .error .outOfTokens
  | t :: us => .ok (t, t :: us)

/-- Takes the next token. -/
def next : Reader Token
  | [] => .error .outOfTokens
  | t :: us => .ok (t, us)

/-- Fails. -/
def refuse (e : ParseError) : Reader α := fun _ => .error e

/-- Takes the next token, which has to be of the given kind. -/
def expect (kind : TokenKind) (expected : Expectation) : Reader Token := do
  let t ← peek
  if t.kind = kind then next else refuse (.unexpected expected t)

/-- The reader behind a rule: it forgets the bound on the tokens that are left. -/
def ofRule {bound : List Token → Nat}
    (rule : (ts : List Token) → Except ParseError (Parsed α (bound ts))) : Reader α :=
  fun ts => (rule ts).map fun p => (p.value, p.rest)

/-! ### Running a sequence of steps -/

/-- A sequence goes on with what its first part gave. -/
lemma bind_of_ok {f : Reader α} {g : α → Reader β} {ts mid : List Token} {a : α}
    (h : f ts = .ok (a, mid)) : (f >>= g) ts = g a mid := by
  change StateT.bind f g ts = g a mid
  rw [StateT.bind, h]
  rfl

/-- A sequence fails when its first part does. -/
lemma bind_of_error {f : Reader α} {g : α → Reader β} {ts : List Token} {e : ParseError}
    (h : f ts = .error e) : (f >>= g) ts = .error e := by
  change StateT.bind f g ts = .error e
  rw [StateT.bind, h]
  rfl

/-- A sequence succeeds exactly when both of its parts do. -/
lemma bind_eq_ok {f : Reader α} {g : α → Reader β} {ts rest : List Token} {b : β} :
    (f >>= g) ts = .ok (b, rest) ↔
      ∃ a mid, f ts = .ok (a, mid) ∧ g a mid = .ok (b, rest) := by
  constructor
  · intro h
    cases hf : f ts with
    | error e => rw [bind_of_error hf] at h; cases h
    | ok r => exact ⟨r.1, r.2, rfl, by rwa [bind_of_ok hf] at h⟩
  · rintro ⟨a, mid, hf, hg⟩
    rw [bind_of_ok hf, hg]

/-- A sequence fails exactly when one of its parts does. -/
lemma bind_eq_error {f : Reader α} {g : α → Reader β} {ts : List Token} {e : ParseError} :
    (f >>= g) ts = .error e ↔
      f ts = .error e ∨ ∃ a mid, f ts = .ok (a, mid) ∧ g a mid = .error e := by
  constructor
  · intro h
    cases hf : f ts with
    | error e' => rw [bind_of_error hf] at h; cases h; exact .inl rfl
    | ok r => exact .inr ⟨r.1, r.2, rfl, by rwa [bind_of_ok hf] at h⟩
  · rintro (hf | ⟨a, mid, hf, hg⟩)
    · exact bind_of_error hf
    · rw [bind_of_ok hf, hg]

/-- The reader that gives a value reads nothing. -/
@[simp] lemma pure_apply (a : α) (ts : List Token) : (pure a : Reader α) ts = .ok (a, ts) := rfl

/-- The reader that refuses does so on every list. -/
@[simp] lemma refuse_apply (e : ParseError) (ts : List Token) :
    (refuse e : Reader α) ts = .error e := rfl

/-- There is no token to look at in an empty list. -/
@[simp] lemma peek_nil : peek [] = .error .outOfTokens := rfl

/-- Looking at the first token leaves it in the list. -/
@[simp] lemma peek_cons (t : Token) (us : List Token) : peek (t :: us) = .ok (t, t :: us) := rfl

/-- There is no token to take from an empty list. -/
@[simp] lemma next_nil : next [] = .error .outOfTokens := rfl

/-- Taking the first token leaves the tokens behind it. -/
@[simp] lemma next_cons (t : Token) (us : List Token) : next (t :: us) = .ok (t, us) := rfl

/-- A reader that looks first fails on the empty list. -/
@[simp] lemma peek_bind_nil (g : Token → Reader α) :
    (peek >>= g) [] = .error .outOfTokens := rfl

/-- A reader that looks first goes on with the token still in the list. -/
@[simp] lemma peek_bind_cons (g : Token → Reader α) (t : Token) (us : List Token) :
    (peek >>= g) (t :: us) = g t (t :: us) := rfl

/-- A reader that takes a token first goes on behind it. -/
@[simp] lemma next_bind_cons (g : Token → Reader α) (t : Token) (us : List Token) :
    (next >>= g) (t :: us) = g t us := rfl

/-- An expected token is not found in an empty list. -/
@[simp] lemma expect_nil (kind : TokenKind) (expected : Expectation) :
    expect kind expected [] = .error .outOfTokens := rfl

/-- A token of the right kind is taken. -/
lemma expect_cons_of_eq {kind : TokenKind} (expected : Expectation) {t : Token} (us : List Token)
    (h : t.kind = kind) : expect kind expected (t :: us) = .ok (t, us) := by
  rw [expect, peek_bind_cons, if_pos h, next_cons]

/-- A token of another kind is refused. -/
lemma expect_cons_of_ne {kind : TokenKind} (expected : Expectation) {t : Token} (us : List Token)
    (h : t.kind ≠ kind) : expect kind expected (t :: us) = .error (.unexpected expected t) := by
  rw [expect, peek_bind_cons, if_neg h, refuse_apply]

/-- What was expected and found stands at the front of the list. -/
lemma expect_eq_ok {kind : TokenKind} {expected : Expectation} {ts rest : List Token} {t : Token}
    (h : expect kind expected ts = .ok (t, rest)) : ts = t :: rest ∧ t.kind = kind := by
  cases ts with
  | nil => cases h
  | cons u us =>
    by_cases hk : u.kind = kind
    · rw [expect_cons_of_eq expected us hk] at h
      cases h
      exact ⟨rfl, hk⟩
    · rw [expect_cons_of_ne expected us hk] at h
      cases h

/-- What is not found is refused where it was expected, or the tokens ran out. -/
lemma expect_eq_error {kind : TokenKind} {expected : Expectation} {ts : List Token} {e : ParseError}
    (h : expect kind expected ts = .error e) :
    e = .outOfTokens ∨ ∃ t, e = .unexpected expected t := by
  cases ts with
  | nil =>
    cases h
    exact .inl rfl
  | cons u us =>
    by_cases hk : u.kind = kind
    · rw [expect_cons_of_eq expected us hk] at h
      cases h
    · rw [expect_cons_of_ne expected us hk] at h
      cases h
      exact .inr ⟨u, rfl⟩

/-- Asking for a token is looking at it, and going on behind it if it is of the right kind. -/
lemma expect_bind_eq (kind : TokenKind) (expected : Expectation) (g : Token → Reader α) :
    (expect kind expected >>= g) = (do
      let t ← peek
      if t.kind = kind then
        let _ ← next
        g t
      else refuse (.unexpected expected t)) := by
  funext ts
  cases ts with
  | nil => rfl
  | cons t us =>
    rw [peek_bind_cons]
    by_cases hk : t.kind = kind
    · rw [bind_of_ok (expect_cons_of_eq expected us hk), if_pos hk, next_bind_cons]
    · rw [bind_of_error (expect_cons_of_ne expected us hk), if_neg hk, refuse_apply]

/-! ## The rules -/

/-- The reader behind `Grammar.assignment`. -/
def assignment : Reader Expr := ofRule Grammar.assignment

/-- The reader behind `Grammar.object`. -/
def object : Reader Expr := ofRule Grammar.object

/-- The reader behind `Grammar.properties`. -/
def properties : Reader (List Property) := ofRule Grammar.properties

/-- The reader behind `Grammar.property`. -/
def property : Reader Property := ofRule Grammar.property

/-- The reader behind `Grammar.additive`. -/
def additive : Reader Expr := ofRule Grammar.additive

/-- The reader behind `Grammar.multiplicative`. -/
def multiplicative : Reader Expr := ofRule Grammar.multiplicative

/-- The reader behind `Grammar.callMember`. -/
def callMember : Reader Expr := ofRule Grammar.callMember

/-- The reader behind `Grammar.callTail`. -/
def callTail (callee : Expr) : Reader Expr := ofRule (Grammar.callTail callee)

/-- The reader behind `Grammar.arguments`. -/
def arguments : Reader (List Expr) := ofRule Grammar.arguments

/-- The reader behind `Grammar.argumentsTail`. -/
def argumentsTail : Reader (List Expr) := ofRule Grammar.argumentsTail

/-- The reader behind `Grammar.argumentList`. -/
def argumentList : Reader (List Expr) := ofRule Grammar.argumentList

/-- The reader behind `Grammar.member`. -/
def member : Reader Expr := ofRule Grammar.member

/-- The reader behind `Grammar.memberTail`. -/
def memberTail (base : Expr) : Reader Expr := ofRule (Grammar.memberTail base)

/-- The reader behind `Grammar.primary`. -/
def primary : Reader Expr := ofRule Grammar.primary

/-- The reader behind `Grammar.declarationTail`. -/
def declarationTail (constant : Bool) : Reader Statement :=
  ofRule (Grammar.declarationTail constant)

/-- The reader behind `Grammar.declaration`. -/
def declaration : Reader Statement := ofRule Grammar.declaration

/-- The reader behind `Grammar.statement`. -/
def statement : Reader Statement := ofRule Grammar.statement

/-- The reader behind `Grammar.statements`. -/
def statements : Reader (List Statement) := ofRule Grammar.statements

/-- The rule for the operands of a chain. -/
def operand : Operator.Level → Reader Expr
  | .sum => multiplicative
  | .product => callMember

/-- The readers behind `Grammar.additiveTail` and `Grammar.multiplicativeTail`. -/
def operatorTail (level : Operator.Level) (left : Expr) : Reader Expr :=
  match level with
  | .sum => ofRule (Grammar.additiveTail left)
  | .product => ofRule (Grammar.multiplicativeTail left)

/-- What follows the operands `left` of a chain, read off a list that is not empty. -/
def chainTail (level : Operator.Level) (left : Expr) : Reader Expr
  | [] => .error .outOfTokens
  | t :: us => operatorTail level left (t :: us)

/-- A dot and the name behind it.  The name is read as a primary, which has to come out as one. -/
def dotName : Reader Expr := do
  let _ ← next
  let n ← peek
  let key ← primary
  if key.kind = .identifier then pure key else refuse (.notAName n.position)

/-! ## The equations of the rules -/

/-- The step that takes one token is the same in both forms. -/
lemma ofRule_expect (kind : TokenKind) (expected : Expectation) :
    ofRule (Grammar.expect kind expected) = expect kind expected := by
  funext ts
  cases ts with
  | nil => rfl
  | cons t us =>
    by_cases hk : t.kind = kind
    · rw [expect_cons_of_eq expected us hk]
      simp [ofRule, Grammar.expect, hk, Except.map]
    · rw [expect_cons_of_ne expected us hk]
      simp [ofRule, Grammar.expect, hk, Except.map]

/-- A rule succeeds exactly when its reader does. -/
lemma ofRule_eq_ok {bound : List Token → Nat}
    {rule : (ts : List Token) → Except ParseError (Parsed α (bound ts))} {ts rest : List Token}
    {a : α} : ofRule rule ts = .ok (a, rest) ↔ ∃ h, rule ts = .ok ⟨a, rest, h⟩ := by
  constructor
  · intro h
    cases hr : rule ts with
    | error e => rw [ofRule, hr] at h; cases h
    | ok p => rw [ofRule, hr] at h; cases h; exact ⟨p.rest_lt, rfl⟩
  · rintro ⟨h, hr⟩
    rw [ofRule, hr]
    rfl

/-- A rule fails exactly when its reader does. -/
lemma ofRule_eq_error {bound : List Token → Nat}
    {rule : (ts : List Token) → Except ParseError (Parsed α (bound ts))} {ts : List Token}
    {e : ParseError} : ofRule rule ts = .error e ↔ rule ts = .error e := by
  constructor
  · intro h
    cases hr : rule ts with
    | error e' => rw [ofRule, hr] at h; cases h; rfl
    | ok p => rw [ofRule, hr] at h; cases h
  · intro hr
    rw [ofRule, hr]
    rfl

/-- The tokens that a rule leaves are fewer than its bound. -/
lemma length_lt_of_ofRule {bound : List Token → Nat}
    {rule : (ts : List Token) → Except ParseError (Parsed α (bound ts))} {ts rest : List Token}
    {a : α} (h : ofRule rule ts = .ok (a, rest)) : rest.length < bound ts := by
  obtain ⟨hlt, -⟩ := ofRule_eq_ok.1 h
  exact hlt

/-- A sequence of two rules is the sequence of their readers. -/
lemma ofRule_bind_map {bound : List Token → Nat} {n : Nat}
    {rule : (ts : List Token) → Except ParseError (Parsed α (bound ts))} {ts : List Token}
    {g : Parsed α (bound ts) → Except ParseError (Parsed β n)} {k : α → Reader β}
    (h : ∀ p, rule ts = .ok p → (g p).map (fun q => (q.value, q.rest)) = k p.value p.rest) :
    (rule ts >>= g).map (fun q => (q.value, q.rest)) = (ofRule rule >>= k) ts := by
  cases hr : rule ts with
  | error e =>
    rw [bind_of_error (ofRule_eq_error.2 hr)]
    rfl
  | ok p =>
    rw [bind_of_ok (ofRule_eq_ok.2 ⟨p.rest_lt, hr⟩)]
    exact h p hr

/-- A chain of assignments starts with an object or sum and goes on behind an equals sign. -/
lemma assignment_eq : assignment = (do
    let target ← object
    let t ← peek
    if t.kind = .equals then
      let _ ← next
      let value ← assignment
      pure (.assign target value)
    else pure target) := by
  funext ts
  rw [assignment, ofRule, Grammar.assignment]
  refine ofRule_bind_map fun target _ => ?_
  obtain ⟨target, rest, hrest⟩ := target
  cases rest with
  | nil => rfl
  | cons t us =>
    rw [peek_bind_cons]
    by_cases hk : t.kind = .equals
    · simp only [hk, if_true, next_bind_cons]
      exact ofRule_bind_map fun value _ => rfl
    · simp only [hk, if_false]
      rfl

/-- An object is written between braces; anything else is a sum. -/
lemma object_eq : object = (do
    let t ← peek
    if t.kind = .openBrace then
      let _ ← next
      let ps ← properties
      let _ ← expect .closeBrace .closingBrace
      pure (.object ps)
    else additive) := by
  funext ts
  cases ts with
  | nil => simp [object, ofRule, Grammar.object, Except.map]
  | cons t us =>
    rw [object, ofRule, Grammar.object, peek_bind_cons]
    by_cases hk : t.kind = .openBrace
    · simp only [hk, if_true, next_bind_cons]
      refine ofRule_bind_map fun ps _ => ?_
      rw [← ofRule_expect]
      exact ofRule_bind_map fun _ _ => rfl
    · simp only [hk, if_false]
      rfl

/-- The properties of an object go on up to a closing brace or the end marker. -/
lemma properties_eq : properties = (do
    let t ← peek
    if t.kind = .closeBrace ∨ t.kind = .endOfInput then pure []
    else
      let p ← property
      let ps ← properties
      pure (p :: ps)) := by
  funext ts
  cases ts with
  | nil => simp [properties, ofRule, Grammar.properties, Except.map]
  | cons t us =>
    rw [properties, ofRule, Grammar.properties, peek_bind_cons]
    by_cases hk : t.kind = .closeBrace ∨ t.kind = .endOfInput
    · simp only [hk, if_true]
      rfl
    · simp only [hk, if_false]
      refine ofRule_bind_map fun first _ => ?_
      exact ofRule_bind_map fun others _ => rfl

/-- A property is a key alone or a key with its value; a comma behind it is taken along. -/
lemma property_eq : property = (do
    let key ← expect .identifier .propertyKey
    let t ← peek
    if t.kind = .comma then
      let _ ← next
      pure (.shorthand key.text)
    else if t.kind = .closeBrace then pure (.shorthand key.text)
    else
      let _ ← expect .colon .colon
      let value ← assignment
      let c ← peek
      if c.kind = .closeBrace then pure (.pair key.text value)
      else
        let _ ← expect .comma .commaOrBrace
        pure (.pair key.text value)) := by
  funext ts
  rw [property, ofRule, Grammar.property]
  simp only [← ofRule_expect]
  refine ofRule_bind_map fun key _ => ?_
  obtain ⟨key, rest, hrest⟩ := key
  cases rest with
  | nil => rfl
  | cons t us =>
    rw [peek_bind_cons]
    by_cases hcomma : t.kind = .comma
    · simp only [hcomma, if_true, next_bind_cons]
      rfl
    by_cases hclose : t.kind = .closeBrace
    · simp only [hclose, if_true, reduceCtorEq, if_false]
      rfl
    simp only [hcomma, hclose, if_false]
    refine ofRule_bind_map fun _ _ => ?_
    refine ofRule_bind_map fun value _ => ?_
    obtain ⟨value, behind, hbehind⟩ := value
    cases behind with
    | nil => rfl
    | cons c vs =>
      rw [peek_bind_cons]
      by_cases hend : c.kind = .closeBrace
      · simp only [hend, if_true]
        rfl
      · simp only [hend, if_false]
        exact ofRule_bind_map fun _ _ => rfl

/-- A member with calls starts with the member. -/
lemma callMember_eq : callMember = (do
    let callee ← member
    callTail callee) := by
  funext ts
  rw [callMember, ofRule, Grammar.callMember]
  refine ofRule_bind_map fun callee _ => ?_
  rw [callTail, ofRule]
  cases Grammar.callTail callee.value callee.rest <;> rfl

/-- Calls go on as long as there are opening parentheses. -/
lemma callTail_eq (callee : Expr) : callTail callee = (do
    let t ← peek
    if t.kind = .openParen then
      let args ← arguments
      callTail (.call callee args)
    else pure callee) := by
  funext ts
  cases ts with
  | nil => simp [callTail, ofRule, Grammar.callTail, Except.map]
  | cons t us =>
    rw [callTail, ofRule, Grammar.callTail, peek_bind_cons]
    by_cases hk : t.kind = .openParen
    · simp only [hk, if_true]
      refine ofRule_bind_map fun args _ => ?_
      rw [callTail, ofRule]
      cases Grammar.callTail (.call callee args.value) args.rest <;> rfl
    · simp only [hk, if_false]
      rfl

/-- The arguments of a call start with an opening parenthesis. -/
lemma arguments_eq : arguments = (do
    let _ ← expect .openParen .openingParen
    argumentsTail) := by
  funext ts
  rw [arguments, ofRule, Grammar.arguments, ← ofRule_expect]
  refine ofRule_bind_map fun opening _ => ?_
  rw [argumentsTail, ofRule]
  cases Grammar.argumentsTail opening.rest <;> rfl

/-- Behind an opening parenthesis, the arguments of a call are their tail. -/
lemma arguments_cons_of_openParen {t : Token} (h : t.kind = .openParen) (us : List Token) :
    arguments (t :: us) = argumentsTail us := by
  rw [arguments_eq, bind_of_ok (expect_cons_of_eq _ _ h)]

/-- The opening parenthesis of a call was looked at, so that it is only taken. -/
lemma callTail_eq_next (callee : Expr) : callTail callee = (do
    let t ← peek
    if t.kind = .openParen then
      let _ ← next
      let args ← argumentsTail
      callTail (.call callee args)
    else pure callee) := by
  rw [callTail_eq]
  funext ts
  cases ts with
  | nil => rfl
  | cons t us =>
    rw [peek_bind_cons, peek_bind_cons]
    by_cases hk : t.kind = .openParen
    · rw [if_pos hk, if_pos hk, next_bind_cons]
      cases hargs : argumentsTail us with
      | error e =>
        rw [bind_of_error hargs, bind_of_error]
        rw [arguments_cons_of_openParen hk, hargs]
      | ok r =>
        rw [bind_of_ok hargs, bind_of_ok]
        rw [arguments_cons_of_openParen hk, hargs]
    · rw [if_neg hk, if_neg hk]

/-- Behind their parenthesis, the arguments of a call are none, or a list. -/
lemma argumentsTail_eq : argumentsTail = (do
    let t ← peek
    if t.kind = .closeParen then
      let _ ← next
      pure []
    else argumentList) := by
  funext ts
  cases ts with
  | nil => simp [argumentsTail, ofRule, Grammar.argumentsTail, Except.map]
  | cons t us =>
    rw [argumentsTail, ofRule, Grammar.argumentsTail, peek_bind_cons]
    by_cases hk : t.kind = .closeParen
    · simp only [hk, if_true, next_bind_cons]
      rfl
    · simp only [hk, if_false]
      rfl

/-- A list of arguments goes on behind a comma and ends at a closing parenthesis. -/
lemma argumentList_eq : argumentList = (do
    let first ← assignment
    let t ← peek
    if t.kind = .comma then
      let _ ← next
      let others ← argumentList
      pure (first :: others)
    else if t.kind = .closeParen then
      let _ ← next
      pure [first]
    else refuse (.unexpected .commaOrParen t)) := by
  funext ts
  rw [argumentList, ofRule, Grammar.argumentList]
  refine ofRule_bind_map fun first _ => ?_
  obtain ⟨first, rest, hrest⟩ := first
  cases rest with
  | nil => rfl
  | cons t us =>
    rw [peek_bind_cons]
    by_cases hcomma : t.kind = .comma
    · simp only [hcomma, if_true, next_bind_cons]
      exact ofRule_bind_map fun others _ => rfl
    by_cases hclose : t.kind = .closeParen
    · simp only [hclose, if_true, reduceCtorEq, if_false, next_bind_cons]
      rfl
    · simp only [hcomma, hclose, if_false]
      rfl

/-- A member starts with a primary. -/
lemma member_eq : member = (do
    let first ← primary
    memberTail first) := by
  funext ts
  rw [member, ofRule, Grammar.member]
  refine ofRule_bind_map fun first _ => ?_
  rw [memberTail, ofRule]
  cases Grammar.memberTail first.value first.rest <;> rfl

/-- Accesses go on as long as there are dots and opening brackets. -/
lemma memberTail_eq (base : Expr) : memberTail base = (do
    let t ← peek
    if t.kind = .dot then
      let key ← dotName
      memberTail (.dot base key)
    else if t.kind = .openBracket then
      let _ ← next
      let key ← assignment
      let _ ← expect .closeBracket .closingBracket
      memberTail (.index base key)
    else pure base) := by
  funext ts
  cases ts with
  | nil => simp [memberTail, ofRule, Grammar.memberTail, Except.map]
  | cons t us =>
    rw [memberTail, ofRule, Grammar.memberTail.eq_def, peek_bind_cons]
    by_cases hdot : t.kind = .dot
    · simp only [hdot, if_true]
      cases us with
      | nil => rfl
      | cons n vs =>
        rw [dotName]
        simp only [bind_assoc, next_bind_cons, peek_bind_cons]
        refine ofRule_bind_map fun key _ => ?_
        by_cases hkey : key.value.kind = .identifier
        · simp only [hkey, if_true, pure_bind]
          rw [memberTail, ofRule]
          cases Grammar.memberTail (.dot base key.value) key.rest <;> rfl
        · simp only [hkey, if_false]
          rfl
    by_cases hopen : t.kind = .openBracket
    · simp only [hopen, reduceCtorEq, if_false, if_true, next_bind_cons]
      refine ofRule_bind_map fun key _ => ?_
      rw [← ofRule_expect]
      refine ofRule_bind_map fun _ _ => ?_
      rw [memberTail, ofRule]
      cases Grammar.memberTail _ _ <;> rfl
    · simp only [hdot, hopen, if_false]
      rfl

/-- A primary is decided by its first token. -/
lemma primary_eq : primary = (do
    let t ← peek
    match t.kind with
    | .identifier => do
      let _ ← next
      pure (.name t.text)
    | .null => do
      let _ ← next
      pure .null
    | .number =>
      match Number.read? t.text with
      | some x => do
        let _ ← next
        pure (.number x)
      | none => refuse (.unexpected .number t)
    | .openParen => do
      let _ ← next
      let inner ← assignment
      let _ ← expect .closeParen .closingParen
      pure inner
    | _ => refuse (.unexpected .expression t)) := by
  funext ts
  cases ts with
  | nil => simp [primary, ofRule, Grammar.primary, Except.map]
  | cons t us =>
    rw [primary, ofRule, Grammar.primary, peek_bind_cons]
    cases hk : t.kind
    case number =>
      cases Number.read? t.text <;> rfl
    case openParen =>
      simp only [next_bind_cons]
      refine ofRule_bind_map fun inner _ => ?_
      rw [← ofRule_expect]
      exact ofRule_bind_map fun _ _ => rfl
    all_goals rfl

/-- A closing brace ends the properties. -/
lemma properties_cons_closeBrace {t : Token} (h : t.kind = .closeBrace) (us : List Token) :
    properties (t :: us) = .ok ([], t :: us) := by
  rw [properties_eq, peek_bind_cons, if_pos (.inl h), pure_apply]

/-! ### Primaries by their first token -/

/-- A name is read as itself. -/
lemma primary_cons_name {t : Token} (h : t.kind = .identifier) (us : List Token) :
    primary (t :: us) = .ok (.name t.text, us) := by
  rw [primary_eq, peek_bind_cons]
  simp only [h]
  rfl

/-- The null literal is read as null. -/
lemma primary_cons_null {t : Token} (h : t.kind = .null) (us : List Token) :
    primary (t :: us) = .ok (.null, us) := by
  rw [primary_eq, peek_bind_cons]
  simp only [h]
  rfl

/-- A numeral is read as the number it stands for. -/
lemma primary_cons_number {t : Token} (h : t.kind = .number) {x : Float}
    (hx : Number.read? t.text = some x) (us : List Token) :
    primary (t :: us) = .ok (.number x, us) := by
  rw [primary_eq, peek_bind_cons]
  simp only [h, hx]
  rfl

/-- A number token has to have the text of a number. -/
lemma primary_cons_badNumber {t : Token} (h : t.kind = .number)
    (hx : Number.read? t.text = none) (us : List Token) :
    primary (t :: us) = .error (.unexpected .number t) := by
  rw [primary_eq, peek_bind_cons]
  simp only [h, hx]
  rfl

/-- Behind an opening parenthesis come an expression and the closing one. -/
lemma primary_cons_paren {t : Token} (h : t.kind = .openParen) (us : List Token) :
    primary (t :: us) = (do
      let inner ← assignment
      let _ ← expect .closeParen .closingParen
      pure inner : Reader Expr) us := by
  rw [primary_eq, peek_bind_cons]
  simp only [h]
  rfl

/-- No other token starts a primary. -/
lemma primary_cons_other {t : Token}
    (h : t.kind ∉ [TokenKind.identifier, .null, .number, .openParen]) (us : List Token) :
    primary (t :: us) = .error (.unexpected .expression t) := by
  rw [primary_eq, peek_bind_cons]
  cases hk : t.kind <;> simp_all

/-- A dot and the name behind it use up two tokens at least. -/
lemma dotName_length_lt {d : Token} {us rest : List Token} {key : Expr}
    (h : dotName (d :: us) = .ok (key, rest)) : rest.length < us.length := by
  rw [dotName, next_bind_cons] at h
  obtain ⟨n, mid, hn, hafter⟩ := bind_eq_ok.1 h
  obtain ⟨key', mid', hkey, hcheck⟩ := bind_eq_ok.1 hafter
  have hlt : mid'.length < mid.length := length_lt_of_ofRule hkey
  cases us with
  | nil => cases hn
  | cons t vs =>
    cases hn
    split at hcheck
    · cases hcheck
      exact hlt
    · cases hcheck

/-! ### Chains of operators -/

/-- A tail of calls leaves a token that opens no further call. -/
lemma callTail_rest {callee e : Expr} {ts rest : List Token}
    (h : callTail callee ts = .ok (e, rest)) :
    ∃ t us, rest = t :: us ∧ t.kind ≠ .openParen := by
  induction hn : ts.length using Nat.strongRecOn generalizing ts callee with
  | ind n ih =>
    rw [callTail_eq_next] at h
    cases ts with
    | nil => cases h
    | cons t us =>
      rw [peek_bind_cons] at h
      split at h
      · rw [next_bind_cons] at h
        obtain ⟨args, mid, hargs, h⟩ := bind_eq_ok.1 h
        have hlt : mid.length < us.length := length_lt_of_ofRule hargs
        rw [List.length_cons] at hn
        exact ih mid.length (by omega) h rfl
      · cases h
        exact ⟨t, us, rfl, ‹_›⟩

/-- A member with calls leaves a token that opens no further call. -/
lemma callMember_rest {e : Expr} {ts rest : List Token} (h : callMember ts = .ok (e, rest)) :
    ∃ t us, rest = t :: us ∧ t.kind ≠ .openParen := by
  rw [callMember_eq] at h
  obtain ⟨callee, mid, -, h⟩ := bind_eq_ok.1 h
  exact callTail_rest h

/-- An operand uses up tokens. -/
lemma operand_length_lt {level : Operator.Level} {e : Expr} {ts rest : List Token}
    (h : operand level ts = .ok (e, rest)) : rest.length < ts.length := by
  cases level with
  | sum => exact length_lt_of_ofRule h
  | product => exact length_lt_of_ofRule h

/-- A tail stops at a token that is no operator of its level, and goes on behind one that is. -/
lemma operatorTail_cons (level : Operator.Level) (left : Expr) (t : Token) (us : List Token) :
    operatorTail level left (t :: us) =
      match t.operatorAt? level with
      | none => .ok (left, t :: us)
      | some op =>
        (operand level >>= fun right => operatorTail level (.binary op left right)) us := by
  cases level with
  | sum =>
    rw [operatorTail, ofRule, Grammar.additiveTail.eq_def]
    cases hop : t.operatorAt? .sum with
    | none =>
      simp only [hop]
      rfl
    | some op =>
      simp only [hop]
      refine ofRule_bind_map fun right _ => ?_
      rw [operatorTail, ofRule]
      cases Grammar.additiveTail (.binary op left right.value) right.rest <;> rfl
  | product =>
    rw [operatorTail, ofRule, Grammar.multiplicativeTail.eq_def]
    cases hop : t.operatorAt? .product with
    | none =>
      simp only [hop]
      rfl
    | some op =>
      simp only [hop]
      refine ofRule_bind_map fun right _ => ?_
      rw [operatorTail, ofRule]
      cases Grammar.multiplicativeTail (.binary op left right.value) right.rest <;> rfl

/-- What a tail leaves starts like what its last operand left. -/
lemma operatorTail_rest {level : Operator.Level} {p : Token → Prop}
    (hop : ∀ {e us rest}, operand level us = .ok (e, rest) → ∃ t vs, rest = t :: vs ∧ p t)
    {left e : Expr} {ts rest : List Token} (hts : ∃ t us, ts = t :: us ∧ p t)
    (h : operatorTail level left ts = .ok (e, rest)) : ∃ t us, rest = t :: us ∧ p t := by
  induction hn : ts.length using Nat.strongRecOn generalizing ts left with
  | ind n ih =>
    obtain ⟨t, us, rfl, hp⟩ := hts
    rw [operatorTail_cons] at h
    split at h
    · cases h
      exact ⟨t, us, rfl, hp⟩
    · obtain ⟨right, mid, hright, h⟩ := bind_eq_ok.1 h
      have hlt := operand_length_lt hright
      rw [List.length_cons] at hn
      exact ih mid.length (by omega) (hop hright) h rfl

/-- A chain of products leaves a token that opens no call. -/
lemma multiplicative_rest {e : Expr} {ts rest : List Token}
    (h : multiplicative ts = .ok (e, rest)) :
    ∃ t us, rest = t :: us ∧ t.kind ≠ .openParen := by
  have hsplit : (callMember >>= operatorTail .product) ts = .ok (e, rest) := by
    rw [← h, multiplicative, ofRule, Grammar.multiplicative]
    refine (ofRule_bind_map fun first _ => ?_).symm
    rw [operatorTail, ofRule]
    cases Grammar.multiplicativeTail first.value first.rest <;> rfl
  obtain ⟨first, mid, hfirst, htail⟩ := bind_eq_ok.1 hsplit
  have hop : ∀ {e us rest}, operand .product us = .ok (e, rest) →
      ∃ t vs, rest = t :: vs ∧ t.kind ≠ .openParen := callMember_rest
  exact operatorTail_rest hop (callMember_rest hfirst) htail

/-- An operand leaves a token that opens no call. -/
lemma operand_rest {level : Operator.Level} {e : Expr} {ts rest : List Token}
    (h : operand level ts = .ok (e, rest)) :
    ∃ t us, rest = t :: us ∧ t.kind ≠ .openParen := by
  cases level with
  | sum => exact multiplicative_rest h
  | product => exact callMember_rest h

/-- Behind an operand, the two forms of a tail are the same. -/
lemma operand_bind_operatorTail (level : Operator.Level) (f : Expr → Expr) :
    (operand level >>= fun e => operatorTail level (f e)) =
      operand level >>= fun e => chainTail level (f e) := by
  funext ts
  cases h : operand level ts with
  | error e => rw [bind_of_error h, bind_of_error h]
  | ok r =>
    obtain ⟨t, us, hr, -⟩ := operand_rest h
    rw [bind_of_ok h, bind_of_ok h, hr, chainTail]

/-- The tail of a chain goes on as long as there are operators of its level. -/
lemma chainTail_eq (level : Operator.Level) (left : Expr) : chainTail level left = (do
    let t ← peek
    match t.operatorAt? level with
    | none => pure left
    | some op => do
      let _ ← next
      let right ← operand level
      chainTail level (.binary op left right)) := by
  funext ts
  cases ts with
  | nil => rfl
  | cons t us =>
    rw [chainTail, operatorTail_cons, peek_bind_cons]
    cases t.operatorAt? level with
    | none => rfl
    | some op => exact congrFun (operand_bind_operatorTail level (.binary op left)) us

/-- A chain of sums starts with a product. -/
lemma additive_eq : additive = (do
    let first ← multiplicative
    chainTail .sum first) := by
  refine Eq.trans ?_ (operand_bind_operatorTail .sum id)
  funext ts
  rw [additive, ofRule, Grammar.additive]
  refine ofRule_bind_map fun first _ => ?_
  rw [id, operatorTail, ofRule]
  cases Grammar.additiveTail first.value first.rest <;> rfl

/-- A chain of products starts with a member and its calls. -/
lemma multiplicative_eq : multiplicative = (do
    let first ← callMember
    chainTail .product first) := by
  refine Eq.trans ?_ (operand_bind_operatorTail .product id)
  funext ts
  rw [multiplicative, ofRule, Grammar.multiplicative]
  refine ofRule_bind_map fun first _ => ?_
  rw [id, operatorTail, ofRule]
  cases Grammar.multiplicativeTail first.value first.rest <;> rfl

/-! ### Statements -/

/-- Behind its word, a declaration gives a name a value, or leaves it without one. -/
lemma declarationTail_eq (constant : Bool) : declarationTail constant = (do
    let name ← expect .identifier .declaredName
    let t ← peek
    if t.kind = .semicolon then
      if constant then refuse (.missingValue name.text t.position)
      else
        let _ ← next
        pure (.declaration name.text false none)
    else
      let _ ← expect .equals .equals
      let value ← assignment
      let _ ← expect .semicolon .semicolon
      pure (.declaration name.text constant (some value))) := by
  funext ts
  rw [declarationTail, ofRule, Grammar.declarationTail]
  simp only [← ofRule_expect]
  refine ofRule_bind_map fun name _ => ?_
  obtain ⟨name, rest, hrest⟩ := name
  cases rest with
  | nil => rfl
  | cons t us =>
    rw [peek_bind_cons]
    by_cases hk : t.kind = .semicolon
    · simp only [hk, if_true]
      cases constant <;> rfl
    · simp only [hk, if_false]
      refine ofRule_bind_map fun _ _ => ?_
      refine ofRule_bind_map fun value _ => ?_
      exact ofRule_bind_map fun _ _ => rfl

/-- A declaration starts with its word. -/
lemma declaration_eq : declaration = (do
    let word ← next
    declarationTail (word.kind = .constWord)) := by
  funext ts
  cases ts with
  | nil => rfl
  | cons word us =>
    rw [declaration, ofRule, Grammar.declaration, next_bind_cons, declarationTail, ofRule]
    cases Grammar.declarationTail (word.kind = .constWord) us <;> rfl

/-- A statement is a declaration, or an expression with the semicolon that may follow it. -/
lemma statement_eq : statement = (do
    let t ← peek
    if t.kind = .letWord ∨ t.kind = .constWord then declaration
    else
      let e ← assignment
      let c ← peek
      if c.kind = .semicolon then
        let _ ← next
        pure (.expr e)
      else pure (.expr e)) := by
  funext ts
  cases ts with
  | nil => simp [statement, ofRule, Grammar.statement, Except.map]
  | cons t us =>
    rw [statement, ofRule, Grammar.statement, peek_bind_cons]
    by_cases hk : t.kind = .letWord ∨ t.kind = .constWord
    · simp only [hk, if_true]
      rfl
    · simp only [hk, if_false]
      refine ofRule_bind_map fun found _ => ?_
      obtain ⟨found, rest, hrest⟩ := found
      cases rest with
      | nil => rfl
      | cons c vs =>
        rw [peek_bind_cons]
        by_cases hc : c.kind = .semicolon
        · simp only [hc, if_true]
          rfl
        · simp only [hc, if_false]
          rfl

/-- The word of a declaration was looked at, so that it is only taken. -/
lemma statement_eq_next : statement = (do
    let t ← peek
    if t.kind = .letWord ∨ t.kind = .constWord then
      let _ ← next
      declarationTail (t.kind = .constWord)
    else
      let e ← assignment
      let c ← peek
      if c.kind = .semicolon then
        let _ ← next
        pure (.expr e)
      else pure (.expr e)) := by
  rw [statement_eq, declaration_eq]
  funext ts
  cases ts with
  | nil => rfl
  | cons t us =>
    rw [peek_bind_cons, peek_bind_cons]
    by_cases hk : t.kind = .letWord ∨ t.kind = .constWord
    · rw [if_pos hk, if_pos hk, next_bind_cons, next_bind_cons]
    · rw [if_neg hk, if_neg hk]

/-- Statements go on up to the end marker. -/
lemma statements_eq : statements = (do
    let t ← peek
    if t.kind = .endOfInput then pure []
    else
      let first ← statement
      let others ← statements
      pure (first :: others)) := by
  funext ts
  cases ts with
  | nil => simp [statements, ofRule, Grammar.statements, Except.map]
  | cons t us =>
    rw [statements, ofRule, Grammar.statements, peek_bind_cons]
    by_cases hk : t.kind = .endOfInput
    · simp only [hk, if_true]
      rfl
    · simp only [hk, if_false]
      refine ofRule_bind_map fun first _ => ?_
      exact ofRule_bind_map fun others _ => rfl

/-! ### Rules by name -/

/-- The reader behind `Rule.read`. -/
def phrase (r : Rule) : Reader Phrase := r.read

/-- What a rule reads, as a phrase, is read by the reader behind the rule. -/
lemma map_phrase_eq {bound : List Token → Nat}
    (rule : (ts : List Token) → Except ParseError (Parsed α (bound ts))) (toPhrase : α → Phrase) :
    (fun ts => (rule ts).map (Parsed.phrase toPhrase)) =
      (ofRule rule >>= fun a => pure (toPhrase a) : Reader Phrase) := by
  funext ts
  cases hr : rule ts with
  | error e =>
    rw [bind_of_error (ofRule_eq_error.2 hr)]
    rfl
  | ok p =>
    rw [bind_of_ok (ofRule_eq_ok.2 ⟨p.rest_lt, hr⟩)]
    rfl

/-- A program is its statements. -/
lemma ofRule_program : ofRule Grammar.program = (do
    let ss ← statements
    pure ⟨ss⟩) := by
  funext ts
  rw [ofRule, Grammar.program]
  exact ofRule_bind_map fun found _ => rfl

/-! ### Whole token lists -/

/-- A token list is read as the statements in front of its end marker. -/
lemma parseTokens_eq (ts : List Token) :
    parseTokens ts = (statements (withEndMarker ts)).map fun r => ⟨r.1⟩ := by
  rw [parseTokens, program, statements, ofRule]
  cases Grammar.statements (withEndMarker ts) <;> rfl

/-- A token list is accepted when statements can be read from it and its end marker. -/
lemma parseTokens_eq_ok_iff {ts : List Token} {p : Program} :
    parseTokens ts = .ok p ↔ ∃ rest, statements (withEndMarker ts) = .ok (p.body, rest) := by
  rw [parseTokens_eq]
  constructor
  · intro h
    cases hread : statements (withEndMarker ts) with
    | error e => rw [hread] at h; cases h
    | ok r =>
      rw [hread] at h
      cases h
      exact ⟨r.2, rfl⟩
  · rintro ⟨rest, hread⟩
    rw [hread]
    rfl

/-- A token list is refused with the error that its statements give. -/
lemma parseTokens_eq_error_iff {ts : List Token} {e : ParseError} :
    parseTokens ts = .error e ↔ statements (withEndMarker ts) = .error e := by
  rw [parseTokens_eq]
  cases statements (withEndMarker ts) with
  | error e' => simp [Except.map]
  | ok r => simp [Except.map]

end Reader

/-- A list keeps its end marker or gets one. -/
lemma withEndMarker_eq (ts : List Token) :
    withEndMarker ts = ts ∨ ∃ q, withEndMarker ts = ts ++ [.endMarker q] := by
  unfold withEndMarker
  cases hlast : ts.getLast? with
  | none =>
    rw [List.getLast?_eq_none_iff] at hlast
    exact .inr ⟨.start, by rw [hlast, List.nil_append]⟩
  | some last =>
    by_cases hkind : last.kind = .endOfInput
    · exact .inl (if_pos hkind)
    · exact .inr ⟨last.finish, if_neg hkind⟩

/-- A list that ends with an end marker gets no other. -/
lemma withEndMarker_concat (ts : List Token) {m : Token} (hm : m.kind = .endOfInput) :
    withEndMarker (ts ++ [m]) = ts ++ [m] := by
  unfold withEndMarker
  rw [List.getLast?_concat]
  exact if_pos hm

end Scriptlet.Grammar
