import Mathlib.Tactic.Lemma
import Mathlib.Tactic.SplitIfs
import Scriptlet.Grammar.Rules

/-!
# Derivations

The grammar as a set of productions, said without the rules that read it.  For each symbol there is
a relation between token lists and trees: `IsAdditive ts e` says that the tokens `ts`, all of them,
are a sum with the tree `e`.  A production that repeats is written as a recursion on its left, so
that the tree of a chain of sums, products, accesses or calls groups to the left by construction,
and the one of assignments is a recursion on its right.  Parentheses leave no trace in the tree.

The grammar is ambiguous at the border of two statements, because the semicolon behind an expression
may be left out: `a (b)` is a call, and also two expressions.  `Glues` names the borders at which
the two would run together, and `IsStatements` excludes them.  An object ends with its brace and
takes no calls, so that `{ a } (b)` is two statements.

Beside the productions this module holds what they say about the two ends of a phrase: the kinds of
tokens it can start with (`IsStatement.startsIn`) and end with (`IsAssignment.endsIn`).
-/

namespace Scriptlet.Grammar

/-! ## Ends of a token list -/

/-- The list starts with a token of one of the given kinds. -/
def StartsIn (kinds : List TokenKind) (ts : List Token) : Prop :=
  ∃ t us, ts = t :: us ∧ t.kind ∈ kinds

/-- The list ends with a token of one of the given kinds. -/
def EndsIn (kinds : List TokenKind) (ts : List Token) : Prop :=
  ∃ us t, ts = us ++ [t] ∧ t.kind ∈ kinds

section Ends

variable {kinds kinds' : List TokenKind} {ts us : List Token} {t : Token}

/-- How a list starts is decided by its first token. -/
@[simp] lemma startsIn_cons : StartsIn kinds (t :: us) ↔ t.kind ∈ kinds := by
  constructor
  · rintro ⟨t', us', heq, hmem⟩
    cases heq
    exact hmem
  · intro hmem
    exact ⟨t, us, rfl, hmem⟩

/-- The empty list starts with nothing. -/
@[simp] lemma not_startsIn_nil : ¬ StartsIn kinds [] := by
  rintro ⟨t, us, heq, -⟩
  cases heq

/-- What follows does not change how a list starts. -/
lemma StartsIn.append (h : StartsIn kinds ts) (us : List Token) : StartsIn kinds (ts ++ us) := by
  obtain ⟨t, vs, rfl, hmem⟩ := h
  exact ⟨t, vs ++ us, rfl, hmem⟩

/-- More kinds allow more starts. -/
lemma StartsIn.mono (h : StartsIn kinds ts) (hsub : ∀ k ∈ kinds, k ∈ kinds') :
    StartsIn kinds' ts := by
  obtain ⟨t, us, rfl, hmem⟩ := h
  exact ⟨t, us, rfl, hsub _ hmem⟩

/-- How a list ends is decided by its last token. -/
@[simp] lemma endsIn_concat : EndsIn kinds (us ++ [t]) ↔ t.kind ∈ kinds := by
  constructor
  · rintro ⟨us', t', heq, hmem⟩
    obtain ⟨-, htt⟩ := List.append_inj' heq rfl
    cases htt
    exact hmem
  · intro hmem
    exact ⟨us, t, rfl, hmem⟩

/-- A single token ends the list it makes up. -/
@[simp] lemma endsIn_singleton : EndsIn kinds [t] ↔ t.kind ∈ kinds := by
  rw [← List.nil_append [t], endsIn_concat]

/-- What stands in front does not change how a list ends. -/
lemma EndsIn.append_left (h : EndsIn kinds us) (ts : List Token) : EndsIn kinds (ts ++ us) := by
  obtain ⟨vs, t, rfl, hmem⟩ := h
  exact ⟨ts ++ vs, t, by rw [List.append_assoc], hmem⟩

/-- A token in front does not change how a list ends. -/
lemma EndsIn.cons (h : EndsIn kinds us) (t : Token) : EndsIn kinds (t :: us) :=
  h.append_left [t]

/-- More kinds allow more ends. -/
lemma EndsIn.mono (h : EndsIn kinds ts) (hsub : ∀ k ∈ kinds, k ∈ kinds') : EndsIn kinds' ts := by
  obtain ⟨us, t, rfl, hmem⟩ := h
  exact ⟨us, t, rfl, hsub _ hmem⟩

/-- A list ends in one way only. -/
lemma EndsIn.inter (h : EndsIn kinds ts) (h' : EndsIn kinds' ts) : ∃ k ∈ kinds, k ∈ kinds' := by
  obtain ⟨us, t, rfl, hmem⟩ := h
  exact ⟨t.kind, hmem, endsIn_concat.1 h'⟩

end Ends

/-! ## Operator signs -/

/-- The operators and their signs determine each other. -/
lemma ofSymbol?_eq_some_iff {s : String} {op : Operator} :
    Operator.ofSymbol? s = some op ↔ s = op.symbol := by
  constructor
  · intro h
    unfold Operator.ofSymbol? at h
    split_ifs at h with hadd hsub hmul hdiv <;> cases h
    · exact hadd
    · exact hsub
    · exact hmul
    · exact hdiv
  · rintro rfl
    exact Operator.ofSymbol?_symbol op

/-- A token stands for an operator of a level if it is an operator sign with the right text. -/
lemma operatorAt?_eq_some_iff {level : Operator.Level} {t : Token} {op : Operator} :
    t.operatorAt? level = some op ↔
      t.kind = .operator ∧ t.text = op.symbol ∧ op.level = level := by
  unfold Token.operatorAt? Token.operator?
  by_cases hk : t.kind = .operator
  · rw [if_pos hk, Option.filter_eq_some_iff, ofSymbol?_eq_some_iff, decide_eq_true_iff]
    exact ⟨fun h => ⟨hk, h⟩, fun h => h.2⟩
  · rw [if_neg hk]
    simp [hk]

/-- A token of another kind stands for no operator. -/
lemma operatorAt?_of_kind_ne {t : Token} (h : t.kind ≠ .operator) (level : Operator.Level) :
    t.operatorAt? level = none := by
  unfold Token.operatorAt? Token.operator?
  rw [if_neg h]
  rfl

/-! ## The productions of expressions -/

/-- A name in any number of matching parentheses: what may stand behind a dot. -/
inductive IsWrappedName : List Token → Expr → Prop where
  /-- The name itself. -/
  | name {t : Token} : t.kind = .identifier → IsWrappedName [t] (.name t.text)
  /-- The name in one more pair of parentheses. -/
  | paren {o c : Token} {ts : List Token} {e : Expr} : o.kind = .openParen → IsWrappedName ts e →
      c.kind = .closeParen → IsWrappedName (o :: (ts ++ [c])) e

mutual

/-- `assignment := object ("=" assignment)?` -/
inductive IsAssignment : List Token → Expr → Prop where
  /-- An object or sum alone. -/
  | object {ts : List Token} {e : Expr} : IsObject ts e → IsAssignment ts e
  /-- A target and its value. -/
  | assign {ts us : List Token} {q : Token} {target value : Expr} : IsObject ts target →
      q.kind = .equals → IsAssignment us value →
      IsAssignment (ts ++ q :: us) (.assign target value)

/-- `object := "{" (property ("," property)* ","?)? "}" | additive` -/
inductive IsObject : List Token → Expr → Prop where
  /-- A sum. -/
  | additive {ts : List Token} {e : Expr} : IsAdditive ts e → IsObject ts e
  /-- An object that is written out. -/
  | braces {o c : Token} {ts : List Token} {ps : List Property} : o.kind = .openBrace →
      IsProperties ts ps → c.kind = .closeBrace → IsObject (o :: (ts ++ [c])) (.object ps)

/-- `(property ("," property)* ","?)?` -/
inductive IsProperties : List Token → List Property → Prop where
  /-- Nothing: the object is empty, or its last comma stands in front. -/
  | none : IsProperties [] []
  /-- A last property without a comma. -/
  | last {ts : List Token} {p : Property} : IsProperty ts p → IsProperties ts [p]
  /-- A property, a comma and what follows. -/
  | more {ts us : List Token} {c : Token} {p : Property} {ps : List Property} :
      IsProperty ts p → c.kind = .comma → IsProperties us ps →
      IsProperties (ts ++ c :: us) (p :: ps)

/-- `property := name (":" expression)?` -/
inductive IsProperty : List Token → Property → Prop where
  /-- A key alone. -/
  | shorthand {k : Token} : k.kind = .identifier → IsProperty [k] (.shorthand k.text)
  /-- A key with its value. -/
  | pair {k c : Token} {ts : List Token} {e : Expr} : k.kind = .identifier → c.kind = .colon →
      IsAssignment ts e → IsProperty (k :: c :: ts) (.pair k.text e)

/-- `additive := multiplicative (("+" | "-") multiplicative)*`, grouped to the left. -/
inductive IsAdditive : List Token → Expr → Prop where
  /-- One term. -/
  | one {ts : List Token} {e : Expr} : IsMultiplicative ts e → IsAdditive ts e
  /-- A further term. -/
  | more {ts us : List Token} {t : Token} {op : Operator} {l r : Expr} : IsAdditive ts l →
      t.kind = .operator → t.text = op.symbol → op.level = .sum → IsMultiplicative us r →
      IsAdditive (ts ++ t :: us) (.binary op l r)

/-- `multiplicative := callMember (("*" | "/") callMember)*`, grouped to the left. -/
inductive IsMultiplicative : List Token → Expr → Prop where
  /-- One factor. -/
  | one {ts : List Token} {e : Expr} : IsCallMember ts e → IsMultiplicative ts e
  /-- A further factor. -/
  | more {ts us : List Token} {t : Token} {op : Operator} {l r : Expr} : IsMultiplicative ts l →
      t.kind = .operator → t.text = op.symbol → op.level = .product → IsCallMember us r →
      IsMultiplicative (ts ++ t :: us) (.binary op l r)

/-- `callMember := member ("(" arguments ")")*`, grouped to the left. -/
inductive IsCallMember : List Token → Expr → Prop where
  /-- A member without a call. -/
  | member {ts : List Token} {e : Expr} : IsMember ts e → IsCallMember ts e
  /-- A further call. -/
  | call {ts us : List Token} {o c : Token} {callee : Expr} {args : List Expr} :
      IsCallMember ts callee → o.kind = .openParen → IsArguments us args → c.kind = .closeParen →
      IsCallMember (ts ++ o :: (us ++ [c])) (.call callee args)

/-- `arguments := (assignment ("," assignment)*)?` -/
inductive IsArguments : List Token → List Expr → Prop where
  /-- No argument. -/
  | none : IsArguments [] []
  /-- A last argument. -/
  | one {ts : List Token} {e : Expr} : IsAssignment ts e → IsArguments ts [e]
  /-- An argument, a comma and at least one argument more. -/
  | more {ts us : List Token} {c : Token} {e : Expr} {es : List Expr} : IsAssignment ts e →
      c.kind = .comma → IsArguments us es → es ≠ [] → IsArguments (ts ++ c :: us) (e :: es)

/-- `member := primary ("." name | "[" expression "]")*`, grouped to the left. -/
inductive IsMember : List Token → Expr → Prop where
  /-- A primary without an access. -/
  | primary {ts : List Token} {e : Expr} : IsPrimary ts e → IsMember ts e
  /-- A further access by name. -/
  | dot {ts us : List Token} {d : Token} {base key : Expr} : IsMember ts base → d.kind = .dot →
      IsWrappedName us key → IsMember (ts ++ d :: us) (.dot base key)
  /-- A further access by a computed key. -/
  | index {ts us : List Token} {o c : Token} {base key : Expr} : IsMember ts base →
      o.kind = .openBracket → IsAssignment us key → c.kind = .closeBracket →
      IsMember (ts ++ o :: (us ++ [c])) (.index base key)

/-- `primary := name | "null" | number | "(" expression ")"` -/
inductive IsPrimary : List Token → Expr → Prop where
  /-- A name. -/
  | name {t : Token} : t.kind = .identifier → IsPrimary [t] (.name t.text)
  /-- The null literal. -/
  | null {t : Token} : t.kind = .null → IsPrimary [t] .null
  /-- A number: the text of the token can be read as one. -/
  | number {t : Token} {x : Float} : t.kind = .number → Number.read? t.text = some x →
      IsPrimary [t] (.number x)
  /-- An expression in parentheses, with the tree of the expression. -/
  | paren {o c : Token} {ts : List Token} {e : Expr} : o.kind = .openParen → IsAssignment ts e →
      c.kind = .closeParen → IsPrimary (o :: (ts ++ [c])) e

end

/-! ## The productions of statements -/

/-- `declaration := "let" name ";" | ("let" | "const") name "=" expression ";"` -/
inductive IsDeclaration : List Token → Statement → Prop where
  /-- A variable without a value. -/
  | bare {w n s : Token} : w.kind = .letWord → n.kind = .identifier → s.kind = .semicolon →
      IsDeclaration [w, n, s] (.declaration n.text false none)
  /-- A variable with its value. -/
  | mutable {w n q s : Token} {ts : List Token} {e : Expr} : w.kind = .letWord →
      n.kind = .identifier → q.kind = .equals → IsAssignment ts e → s.kind = .semicolon →
      IsDeclaration (w :: n :: q :: (ts ++ [s])) (.declaration n.text false (some e))
  /-- A constant, which always has a value. -/
  | constant {w n q s : Token} {ts : List Token} {e : Expr} : w.kind = .constWord →
      n.kind = .identifier → q.kind = .equals → IsAssignment ts e → s.kind = .semicolon →
      IsDeclaration (w :: n :: q :: (ts ++ [s])) (.declaration n.text true (some e))

/-- `statement := declaration | expression ";"?` -/
inductive IsStatement : List Token → Statement → Prop where
  /-- A declaration. -/
  | declaration {ts : List Token} {s : Statement} : IsDeclaration ts s → IsStatement ts s
  /-- An expression without a semicolon. -/
  | expr {ts : List Token} {e : Expr} : IsAssignment ts e → IsStatement ts (.expr e)
  /-- An expression with a semicolon. -/
  | closed {ts : List Token} {s : Token} {e : Expr} : IsAssignment ts e → s.kind = .semicolon →
      IsStatement (ts ++ [s]) (.expr e)

/-- A statement with the tokens `ts` would run on into what follows it: it has no semicolon, it does
not end with the brace of an object, and a parenthesis opens behind it.  Only an expression can do
that, because a declaration ends with a semicolon. -/
def Glues (ts us : List Token) : Prop :=
  ¬ EndsIn [.semicolon, .closeBrace] ts ∧ StartsIn [.openParen] us

/-- `statement*`, where no statement runs on into the next. -/
inductive IsStatements : List Token → List Statement → Prop where
  /-- No statement. -/
  | none : IsStatements [] []
  /-- A statement and those behind it. -/
  | more {ts us : List Token} {s : Statement} {ss : List Statement} : IsStatement ts s →
      IsStatements us ss → ¬ Glues ts us → IsStatements (ts ++ us) (s :: ss)

/-- The kinds of tokens an operand can end with. -/
def operandEnds : List TokenKind :=
  [.identifier, .null, .number, .closeParen, .closeBracket]

/-- The kinds of tokens an expression can end with. -/
def expressionEnds : List TokenKind :=
  .closeBrace :: operandEnds

/-- A name, in parentheses or not, ends as an operand does. -/
lemma IsWrappedName.endsIn {ts : List Token} {e : Expr} (h : IsWrappedName ts e) :
    EndsIn operandEnds ts := by
  cases h with
  | name ht => simp [ht, operandEnds]
  | paren _ _ hc => exact EndsIn.cons (by simp [hc, operandEnds]) _

/-- A primary ends with a name, a literal or a closing parenthesis. -/
lemma IsPrimary.endsIn {ts : List Token} {e : Expr} (h : IsPrimary ts e) :
    EndsIn operandEnds ts := by
  cases h with
  | name ht => simp [ht, operandEnds]
  | null ht => simp [ht, operandEnds]
  | number ht _ => simp [ht, operandEnds]
  | paren _ _ hc => exact EndsIn.cons (by simp [hc, operandEnds]) _

/-- A chain of accesses ends with a primary, a property or the bracket of an index. -/
lemma IsMember.endsIn {ts : List Token} {e : Expr} (h : IsMember ts e) : EndsIn operandEnds ts := by
  cases h with
  | primary h => exact h.endsIn
  | dot _ _ hname => exact (hname.endsIn.cons _).append_left _
  | index _ _ _ hc => exact (EndsIn.cons (by simp [hc, operandEnds]) _).append_left _

/-- A chain of calls ends with its last parenthesis, or as its callee does. -/
lemma IsCallMember.endsIn {ts : List Token} {e : Expr} (h : IsCallMember ts e) :
    EndsIn operandEnds ts := by
  cases h with
  | member h => exact h.endsIn
  | call _ _ _ hc => exact (EndsIn.cons (by simp [hc, operandEnds]) _).append_left _

/-- A product ends as its last factor does. -/
lemma IsMultiplicative.endsIn {ts : List Token} {e : Expr} (h : IsMultiplicative ts e) :
    EndsIn operandEnds ts := by
  cases h with
  | one h => exact h.endsIn
  | more _ _ _ _ hr => exact (hr.endsIn.cons _).append_left _

/-- A sum ends like its last operand, never with a brace. -/
lemma IsAdditive.endsIn {ts : List Token} {e : Expr} (h : IsAdditive ts e) :
    EndsIn operandEnds ts := by
  cases h with
  | one h => exact h.endsIn
  | more _ _ _ _ hr => exact (hr.endsIn.cons _).append_left _

/-- An object literal ends with its brace, and any other expression as an operand does. -/
lemma IsObject.endsIn {ts : List Token} {e : Expr} (h : IsObject ts e) :
    EndsIn expressionEnds ts := by
  cases h with
  | additive h => exact h.endsIn.mono fun k hk => List.mem_cons_of_mem _ hk
  | braces _ _ hc => exact EndsIn.cons (by simp [hc, expressionEnds]) _

/-- An expression ends with an operand or with a brace, never with a semicolon. -/
lemma IsAssignment.endsIn {ts : List Token} {e : Expr} (h : IsAssignment ts e) :
    EndsIn expressionEnds ts := by
  match h with
  | .object h => exact h.endsIn
  | .assign _ _ hvalue => exact (hvalue.endsIn.cons _).append_left _

/-- A declaration ends with its semicolon. -/
lemma IsDeclaration.endsIn {ts : List Token} {s : Statement} (h : IsDeclaration ts s) :
    EndsIn [.semicolon] ts := by
  cases h with
  | @bare w n _ _ _ hs => exact EndsIn.append_left (endsIn_singleton.2 (by simp [hs])) [w, n]
  | mutable _ _ _ _ hs => exact (((endsIn_concat.2 (by simp [hs])).cons _).cons _).cons _
  | constant _ _ _ _ hs => exact (((endsIn_concat.2 (by simp [hs])).cons _).cons _).cons _

/-! ## How phrases start -/

/-- The kinds of tokens an operand can start with. -/
def operandStarts : List TokenKind :=
  [.identifier, .null, .number, .openParen]

/-- The kinds of tokens a statement can start with. -/
def statementStarts : List TokenKind :=
  .letWord :: .constWord :: .openBrace :: operandStarts

/-- A primary starts with a name, a literal or an opening parenthesis. -/
lemma IsPrimary.startsIn {ts : List Token} {e : Expr} (h : IsPrimary ts e) :
    StartsIn operandStarts ts := by
  cases h with
  | name ht => simp [ht, operandStarts]
  | null ht => simp [ht, operandStarts]
  | number ht _ => simp [ht, operandStarts]
  | paren ho _ _ => simp [ho, operandStarts]

/-- A chain of accesses starts as its primary does. -/
lemma IsMember.startsIn {ts : List Token} {e : Expr} (h : IsMember ts e) :
    StartsIn operandStarts ts := by
  match h with
  | .primary h => exact h.startsIn
  | .dot hbase _ _ => exact hbase.startsIn.append _
  | .index hbase _ _ _ => exact hbase.startsIn.append _

/-- A chain of calls starts as its callee does. -/
lemma IsCallMember.startsIn {ts : List Token} {e : Expr} (h : IsCallMember ts e) :
    StartsIn operandStarts ts := by
  match h with
  | .member h => exact h.startsIn
  | .call hcallee _ _ _ => exact hcallee.startsIn.append _

/-- A product starts as its first factor does. -/
lemma IsMultiplicative.startsIn {ts : List Token} {e : Expr} (h : IsMultiplicative ts e) :
    StartsIn operandStarts ts := by
  match h with
  | .one h => exact h.startsIn
  | .more hl _ _ _ _ => exact hl.startsIn.append _

/-- A sum starts as its first summand does. -/
lemma IsAdditive.startsIn {ts : List Token} {e : Expr} (h : IsAdditive ts e) :
    StartsIn operandStarts ts := by
  match h with
  | .one h => exact h.startsIn
  | .more hl _ _ _ _ => exact hl.startsIn.append _

/-- An object literal starts with its brace, and any other expression as an operand does. -/
lemma IsObject.startsIn {ts : List Token} {e : Expr} (h : IsObject ts e) :
    StartsIn (.openBrace :: operandStarts) ts := by
  cases h with
  | additive h => exact h.startsIn.mono fun k hk => List.mem_cons_of_mem _ hk
  | braces ho _ _ => simp [ho]

/-- An assignment starts as its target does. -/
lemma IsAssignment.startsIn {ts : List Token} {e : Expr} (h : IsAssignment ts e) :
    StartsIn (.openBrace :: operandStarts) ts := by
  cases h with
  | object h => exact h.startsIn
  | assign h _ _ => exact h.startsIn.append _

/-- A property starts with its key. -/
lemma IsProperty.startsIn {ts : List Token} {p : Property} (h : IsProperty ts p) :
    StartsIn [.identifier] ts := by
  cases h with
  | shorthand hk => simp [hk]
  | pair hk _ _ => simp [hk]

/-- A statement starts with a word of declaration, a brace or an operand. -/
lemma IsStatement.startsIn {ts : List Token} {s : Statement} (h : IsStatement ts s) :
    StartsIn statementStarts ts := by
  have hexpr : ∀ k ∈ .openBrace :: operandStarts, k ∈ statementStarts := fun k hk =>
    List.mem_cons_of_mem _ (List.mem_cons_of_mem _ hk)
  cases h with
  | declaration h => cases h <;> simp [*, statementStarts]
  | expr h => exact h.startsIn.mono hexpr
  | closed h _ => exact (h.startsIn.mono hexpr).append _

/-! ## Names in parentheses -/

/-- A name in parentheses has the tree of the name. -/
lemma IsWrappedName.kind_eq {ts : List Token} {e : Expr} (h : IsWrappedName ts e) :
    e.kind = .identifier := by
  induction h with
  | name _ => rfl
  | paren _ _ _ ih => exact ih

/-- A name in parentheses is a primary. -/
lemma IsWrappedName.isPrimary {ts : List Token} {e : Expr} (h : IsWrappedName ts e) :
    IsPrimary ts e := by
  induction h with
  | name ht => exact .name ht
  | paren ho _ hc ih =>
    exact .paren ho (.object (.additive (.one (.one (.member (.primary ih)))))) hc

mutual

/-- A primary with the tree of a name is that name in parentheses. -/
lemma IsPrimary.isWrappedName {ts : List Token} {e : Expr} (h : IsPrimary ts e)
    (he : e.kind = .identifier) : IsWrappedName ts e := by
  match h with
  | .name ht => exact .name ht
  | .null _ => cases he
  | .number _ _ => cases he
  | .paren ho h hc => exact .paren ho (h.isWrappedName he) hc

/-- A chain of accesses whose tree is a name has no access. -/
lemma IsMember.isWrappedName {ts : List Token} {e : Expr} (h : IsMember ts e)
    (he : e.kind = .identifier) : IsWrappedName ts e := by
  match h with
  | .primary h => exact h.isWrappedName he
  | .dot _ _ _ => cases he
  | .index _ _ _ _ => cases he

/-- A chain of calls whose tree is a name has no call. -/
lemma IsCallMember.isWrappedName {ts : List Token} {e : Expr} (h : IsCallMember ts e)
    (he : e.kind = .identifier) : IsWrappedName ts e := by
  match h with
  | .member h => exact h.isWrappedName he
  | .call _ _ _ _ => cases he

/-- A product whose tree is a name has one factor. -/
lemma IsMultiplicative.isWrappedName {ts : List Token} {e : Expr} (h : IsMultiplicative ts e)
    (he : e.kind = .identifier) : IsWrappedName ts e := by
  match h with
  | .one h => exact h.isWrappedName he
  | .more _ _ _ _ _ => cases he

/-- A sum whose tree is a name has one summand. -/
lemma IsAdditive.isWrappedName {ts : List Token} {e : Expr} (h : IsAdditive ts e)
    (he : e.kind = .identifier) : IsWrappedName ts e := by
  match h with
  | .one h => exact h.isWrappedName he
  | .more _ _ _ _ _ => cases he

/-- An expression in braces never has the tree of a name. -/
lemma IsObject.isWrappedName {ts : List Token} {e : Expr} (h : IsObject ts e)
    (he : e.kind = .identifier) : IsWrappedName ts e := by
  match h with
  | .additive h => exact h.isWrappedName he
  | .braces _ _ _ => cases he

/-- An expression whose tree is a name is that name, perhaps in parentheses. -/
lemma IsAssignment.isWrappedName {ts : List Token} {e : Expr} (h : IsAssignment ts e)
    (he : e.kind = .identifier) : IsWrappedName ts e := by
  match h with
  | .object h => exact h.isWrappedName he
  | .assign _ _ _ => cases he

end

end Scriptlet.Grammar
