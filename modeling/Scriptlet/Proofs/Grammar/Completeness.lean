import Mathlib.Logic.Basic
import Mathlib.Tactic.ByContra
import Scriptlet.Proofs.Grammar.Derivation
import Scriptlet.Proofs.Grammar.Reader

/-!
# What is derivable is read

The other direction: the rules read every phrase of the grammar, whatever follows it, as long as
what follows cannot go on the phrase.  How much has to be excluded depends on the level of the
phrase; `StopsMember`, `StopsCall`, `StopsProduct` and `StopsSum` exclude more and more first tokens
of what follows.

The main statements are `assignment_complete` and `statements_complete`.  The argument is by
induction on derivations, one statement for each symbol.  Chains are read by a rule for the first
operand and a tail that carries the tree built so far, while their productions recurse on the left.
So the statement for a chain does not say that the whole chain is read: it says that the rule,
having read the chain, is where the tail is that starts with the tree of the chain.  A further
operand is then one more step of that tail.
-/

namespace Scriptlet.Grammar

/-! ## What cannot go on a phrase -/

/-- The token opens no access. -/
structure StopsMember (t : Token) : Prop where
  /-- It is no dot. -/
  not_dot : t.kind ≠ .dot
  /-- It is no opening bracket. -/
  not_bracket : t.kind ≠ .openBracket

/-- The token opens no access and no call. -/
structure StopsCall (t : Token) : Prop extends StopsMember t where
  /-- It is no opening parenthesis. -/
  not_paren : t.kind ≠ .openParen

/-- The token opens no access and no call, and goes on no product. -/
structure StopsProduct (t : Token) : Prop extends StopsCall t where
  /-- It is no sign of a product. -/
  not_product : t.operatorAt? .product = none

/-- The token opens no access and no call, and goes on no product and no sum. -/
structure StopsSum (t : Token) : Prop extends StopsProduct t where
  /-- It is no sign of a sum. -/
  not_sum : t.operatorAt? .sum = none

/-- What follows an expression cannot go on it: it starts with a token that is no equals sign and,
unless the expression ends with the brace of an object, stops a sum. -/
def Follows (ts : List Token) : List Token → Prop
  | [] => False
  | t :: _ => t.kind ≠ .equals ∧ (EndsIn [.closeBrace] ts ∨ StopsSum t)

/-- Most tokens stop a sum. -/
lemma stopsSum_of_kind {t : Token} {k : TokenKind} (hk : t.kind = k)
    (h : k ∉ [TokenKind.dot, .openBracket, .openParen, .operator]) : StopsSum t := by
  subst hk
  simp only [List.mem_cons, List.not_mem_nil, or_false, not_or] at h
  obtain ⟨hdot, hbracket, hparen, hop⟩ := h
  exact ⟨⟨⟨⟨hdot, hbracket⟩, hparen⟩, operatorAt?_of_kind_ne hop _⟩, operatorAt?_of_kind_ne hop _⟩

/-- Most tokens can follow any expression. -/
lemma follows_of_kind {t : Token} {k : TokenKind} (hk : t.kind = k)
    (h : k ∉ [TokenKind.dot, .openBracket, .openParen, .operator, .equals])
    (ts us : List Token) : Follows ts (t :: us) := by
  refine ⟨fun heq => h (by simp [← hk, heq]), .inr (stopsSum_of_kind hk fun hmem => h ?_)⟩
  exact List.mem_append_left [TokenKind.equals] hmem

/-- A sign of a product stops the calls in front of it. -/
lemma stopsCall_of_operator {t : Token} (h : t.kind = .operator) : StopsCall t :=
  ⟨⟨by simp [h], by simp [h]⟩, by simp [h]⟩

/-- A sign of a sum stops the product in front of it. -/
lemma stopsProduct_of_sum {t : Token} {op : Operator} (h : t.operatorAt? .sum = some op) :
    StopsProduct t := by
  obtain ⟨hk, htext, hlevel⟩ := operatorAt?_eq_some_iff.1 h
  refine ⟨stopsCall_of_operator hk, ?_⟩
  cases hop : t.operatorAt? .product with
  | none => rfl
  | some op' =>
    obtain ⟨-, htext', hlevel'⟩ := operatorAt?_eq_some_iff.1 hop
    have hsame : op = op' := by
      have h₁ := ofSymbol?_eq_some_iff.2 htext
      have h₂ := ofSymbol?_eq_some_iff.2 htext'
      exact Option.some.inj (h₁.symm.trans h₂)
    rw [← hsame, hlevel] at hlevel'
    cases hlevel'

namespace Reader

/-- A chain of accesses ends at a token that opens none. -/
lemma memberTail_of_stops (base : Expr) {t : Token} (h : StopsMember t) (us : List Token) :
    memberTail base (t :: us) = .ok (base, t :: us) := by
  rw [memberTail_eq, peek_bind_cons, if_neg h.not_dot, if_neg h.not_bracket, pure_apply]

/-- A chain of calls ends at a token that opens no call and no access. -/
lemma callTail_of_stops (callee : Expr) {t : Token} (h : StopsCall t) (us : List Token) :
    callTail callee (t :: us) = .ok (callee, t :: us) := by
  rw [callTail_eq_next, peek_bind_cons, if_neg h.not_paren, pure_apply]

/-- A chain of operators ends at a token that is no operator of its level. -/
lemma chainTail_of_stops {level : Operator.Level} (left : Expr) {t : Token}
    (h : t.operatorAt? level = none) (us : List Token) :
    chainTail level left (t :: us) = .ok (left, t :: us) := by
  rw [chainTail_eq, peek_bind_cons]
  simp only [h, pure_apply]

/-- A tail takes one more operand. -/
lemma chainTail_of_operator {level : Operator.Level} (left : Expr) {t : Token} {op : Operator}
    {us rest : List Token} {right : Expr} (h : t.operatorAt? level = some op)
    (hright : operand level us = .ok (right, rest)) :
    chainTail level left (t :: us) = chainTail level (.binary op left right) rest := by
  rw [chainTail_eq, peek_bind_cons]
  simp only [h, next_bind_cons, bind_of_ok hright]

/-! ## Names behind a dot -/

/-- A primary alone is an object or a sum. -/
lemma object_of_primary {ts us : List Token} {e : Expr} {t : Token}
    (h : primary ts = .ok (e, t :: us)) (ht : StopsSum t) : object ts = .ok (e, t :: us) := by
  have hmember : member ts = .ok (e, t :: us) := by
    rw [member_eq, bind_of_ok h, memberTail_of_stops e ht.toStopsMember]
  have hcall : callMember ts = .ok (e, t :: us) := by
    rw [callMember_eq, bind_of_ok hmember, callTail_of_stops e ht.toStopsCall]
  have hproduct : multiplicative ts = .ok (e, t :: us) := by
    rw [multiplicative_eq, bind_of_ok hcall, chainTail_of_stops e ht.not_product]
  have hsum : additive ts = .ok (e, t :: us) := by
    rw [additive_eq, bind_of_ok hproduct, chainTail_of_stops e ht.not_sum]
  cases ts with
  | nil => rw [primary_eq] at h; cases h
  | cons u vs =>
    have hbrace : u.kind ≠ .openBrace := by
      intro hk
      rw [primary_cons_other (by simp [hk])] at h
      cases h
    rw [object_eq, peek_bind_cons, if_neg hbrace, hsum]

/-- A primary alone is an expression. -/
lemma assignment_of_primary {ts us : List Token} {e : Expr} {t : Token}
    (h : primary ts = .ok (e, t :: us)) (ht : StopsSum t) (hequals : t.kind ≠ .equals) :
    assignment ts = .ok (e, t :: us) := by
  rw [assignment_eq, bind_of_ok (object_of_primary h ht), peek_bind_cons, if_neg hequals,
    pure_apply]

/-- A name in parentheses is read as a primary. -/
lemma primary_of_isWrappedName {ts : List Token} {e : Expr} (h : IsWrappedName ts e)
    (rest : List Token) : primary (ts ++ rest) = .ok (e, rest) := by
  induction h generalizing rest with
  | name ht => exact primary_cons_name ht rest
  | @paren o c ts e ho _ hc ih =>
    have hstops : StopsSum c := stopsSum_of_kind hc (by decide)
    have hinner := assignment_of_primary (ih (c :: rest)) hstops (by simp [hc])
    rw [List.cons_append, List.append_assoc, List.singleton_append, primary_cons_paren ho,
      bind_of_ok hinner, bind_of_ok (expect_cons_of_eq _ _ hc), pure_apply]

/-- A dot and the name behind it are read. -/
lemma dotName_complete {ts : List Token} {key : Expr} (h : IsWrappedName ts key) (d : Token)
    (rest : List Token) : dotName (d :: (ts ++ rest)) = .ok (key, rest) := by
  have hread := primary_of_isWrappedName h rest
  obtain ⟨t, us, rfl, -⟩ := h.isPrimary.startsIn
  rw [List.cons_append] at hread
  rw [dotName, next_bind_cons, List.cons_append, peek_bind_cons, bind_of_ok hread,
    if_pos h.kind_eq, pure_apply]

/-! ## Expressions -/

/-- Behind their parenthesis, the arguments of a call are read if they are read as a list, or if
there are none.  A list of arguments does not start with a closing parenthesis. -/
lemma argumentsTail_of_argumentList {ts rest : List Token} {args : List Expr} {c : Token}
    (h : IsArguments ts args) (hc : c.kind = .closeParen)
    (hlist : args ≠ [] → argumentList (ts ++ c :: rest) = .ok (args, rest)) :
    argumentsTail (ts ++ c :: rest) = .ok (args, rest) := by
  have hread : args ≠ [] → StartsIn (.openBrace :: operandStarts) ts →
      argumentsTail (ts ++ c :: rest) = .ok (args, rest) := by
    rintro hne ⟨t, us, rfl, hmem⟩
    have hclose : t.kind ≠ .closeParen := ne_of_mem_of_not_mem hmem (by decide)
    rw [List.cons_append, argumentsTail_eq, peek_bind_cons, if_neg hclose]
    exact hlist hne
  cases h with
  | none =>
    rw [List.nil_append, argumentsTail_eq, peek_bind_cons, if_pos hc, next_bind_cons, pure_apply]
  | one hone => exact hread (List.cons_ne_nil _ _) hone.startsIn
  | more hfirst _ _ _ => exact hread (List.cons_ne_nil _ _) (hfirst.startsIn.append _)

/-- A property does not start like the end of an object. -/
lemma not_ends_of_identifier {t : Token} (ht : t.kind ∈ [TokenKind.identifier]) :
    ¬ (t.kind = .closeBrace ∨ t.kind = .endOfInput) := by
  rw [List.mem_singleton.1 ht]
  decide

/-- What ends a list ends its last part, if that part is not empty. -/
lemma endsIn_of_append_cons {kinds kinds' : List TokenKind} {ts us : List Token} {t : Token}
    (h : EndsIn kinds (ts ++ t :: us)) (hus : EndsIn kinds' us) : EndsIn kinds us := by
  obtain ⟨vs, u, rfl, -⟩ := hus
  rw [List.append_cons, ← List.append_assoc, endsIn_concat] at h
  exact endsIn_concat.2 h

mutual

/-- A primary is read whatever follows it. -/
lemma primary_complete {ts : List Token} {e : Expr} (h : IsPrimary ts e) (rest : List Token) :
    primary (ts ++ rest) = .ok (e, rest) := by
  match h with
  | .name ht => exact primary_cons_name ht rest
  | .null ht => exact primary_cons_null ht rest
  | .number ht hx => exact primary_cons_number ht hx rest
  | @IsPrimary.paren o c us _ ho hinner hc =>
    have hread := assignment_complete hinner (follows_of_kind hc (by decide) us rest)
    rw [List.cons_append, List.append_assoc, List.singleton_append, primary_cons_paren ho,
      bind_of_ok hread, bind_of_ok (expect_cons_of_eq _ _ hc), pure_apply]

/-- Having read a member, the rule goes on with its tail. -/
lemma member_complete {ts : List Token} {e : Expr} (h : IsMember ts e) (rest : List Token) :
    member (ts ++ rest) = memberTail e rest := by
  match h with
  | .primary hprimary => rw [member_eq, bind_of_ok (primary_complete hprimary rest)]
  | @IsMember.dot us vs d base key hbase hd hname =>
    rw [List.append_assoc, List.cons_append, member_complete hbase, memberTail_eq, peek_bind_cons,
      if_pos hd, bind_of_ok (dotName_complete hname d rest)]
  | @IsMember.index us vs o c base key hbase ho hkey hc =>
    have hread := assignment_complete hkey (follows_of_kind hc (by decide) vs rest)
    rw [List.append_assoc, List.cons_append, List.append_assoc, List.singleton_append,
      member_complete hbase, memberTail_eq, peek_bind_cons, if_neg (by simp [ho]), if_pos ho,
      next_bind_cons, bind_of_ok hread, bind_of_ok (expect_cons_of_eq _ _ hc)]

/-- Having read a member with calls, the rule goes on with the tail of calls. -/
lemma callMember_complete {ts : List Token} {e : Expr} (h : IsCallMember ts e) {t : Token}
    (ht : StopsMember t) (us : List Token) :
    callMember (ts ++ t :: us) = callTail e (t :: us) := by
  match h with
  | .member hmember =>
    have hread : member (ts ++ t :: us) = .ok (e, t :: us) := by
      rw [member_complete hmember, memberTail_of_stops e ht]
    rw [callMember_eq, bind_of_ok hread]
  | @IsCallMember.call vs ws o c callee args hcallee ho hargs hc =>
    have hopen : StopsMember o := ⟨by simp [ho], by simp [ho]⟩
    have hread : argumentsTail (ws ++ c :: t :: us) = .ok (args, t :: us) :=
      argumentsTail_of_argumentList hargs hc fun hne =>
        argumentList_complete hargs hne hc (t :: us)
    rw [List.append_assoc, List.cons_append, List.append_assoc, List.singleton_append,
      callMember_complete hcallee hopen, callTail_eq_next, peek_bind_cons, if_pos ho,
      next_bind_cons, bind_of_ok hread]

/-- The arguments of a call are read up to its closing parenthesis. -/
lemma argumentList_complete {ts : List Token} {args : List Expr} (h : IsArguments ts args)
    (hne : args ≠ []) {c : Token} (hc : c.kind = .closeParen) (rest : List Token) :
    argumentList (ts ++ c :: rest) = .ok (args, rest) := by
  match h with
  | .none => exact absurd rfl hne
  | .one hone =>
    have hread := assignment_complete hone (follows_of_kind hc (by decide) ts rest)
    rw [argumentList_eq, bind_of_ok hread, peek_bind_cons, if_neg (by simp [hc]), if_pos hc,
      next_bind_cons, pure_apply]
  | @IsArguments.more us vs d e es hfirst hcomma hmore hne' =>
    have hread :=
      assignment_complete hfirst (follows_of_kind hcomma (by decide) us (vs ++ c :: rest))
    rw [List.append_assoc, List.cons_append, argumentList_eq, bind_of_ok hread, peek_bind_cons,
      if_pos hcomma, next_bind_cons, bind_of_ok (argumentList_complete hmore hne' hc rest),
      pure_apply]

/-- Having read a chain of products, the rule goes on with its tail. -/
lemma multiplicative_complete {ts : List Token} {e : Expr} (h : IsMultiplicative ts e) {t : Token}
    (ht : StopsCall t) (us : List Token) :
    multiplicative (ts ++ t :: us) = chainTail .product e (t :: us) := by
  match h with
  | .one hone =>
    have hread : callMember (ts ++ t :: us) = .ok (e, t :: us) := by
      rw [callMember_complete hone ht.toStopsMember, callTail_of_stops e ht]
    rw [multiplicative_eq, bind_of_ok hread]
  | @IsMultiplicative.more vs ws s op l r hl hk htext hlevel hr =>
    have hread : operand .product (ws ++ t :: us) = .ok (r, t :: us) := by
      rw [operand, callMember_complete hr ht.toStopsMember, callTail_of_stops r ht]
    have hop : s.operatorAt? .product = some op := operatorAt?_eq_some_iff.2 ⟨hk, htext, hlevel⟩
    rw [List.append_assoc, List.cons_append, multiplicative_complete hl (stopsCall_of_operator hk),
      chainTail_of_operator l hop hread]

/-- Having read a chain of sums, the rule goes on with its tail. -/
lemma additive_complete {ts : List Token} {e : Expr} (h : IsAdditive ts e) {t : Token}
    (ht : StopsProduct t) (us : List Token) :
    additive (ts ++ t :: us) = chainTail .sum e (t :: us) := by
  match h with
  | .one hone =>
    have hread : multiplicative (ts ++ t :: us) = .ok (e, t :: us) := by
      rw [multiplicative_complete hone ht.toStopsCall, chainTail_of_stops e ht.not_product]
    rw [additive_eq, bind_of_ok hread]
  | @IsAdditive.more vs ws s op l r hl hk htext hlevel hr =>
    have hread : operand .sum (ws ++ t :: us) = .ok (r, t :: us) := by
      rw [operand, multiplicative_complete hr ht.toStopsCall, chainTail_of_stops r ht.not_product]
    have hop : s.operatorAt? .sum = some op := operatorAt?_eq_some_iff.2 ⟨hk, htext, hlevel⟩
    rw [List.append_assoc, List.cons_append, additive_complete hl (stopsProduct_of_sum hop),
      chainTail_of_operator l hop hread]

/-- An object is read whatever follows it, and a sum if what follows cannot go on it. -/
lemma object_complete {ts : List Token} {e : Expr} (h : IsObject ts e) {rest : List Token}
    (hrest : EndsIn [.closeBrace] ts ∨ ∃ t us, rest = t :: us ∧ StopsSum t) :
    object (ts ++ rest) = .ok (e, rest) := by
  match h with
  | .additive hadd =>
    obtain ⟨t, us, rfl, ht⟩ : ∃ t us, rest = t :: us ∧ StopsSum t := by
      refine hrest.resolve_left fun hends => ?_
      obtain ⟨k, hk, hk'⟩ := hadd.endsIn.inter hends
      rw [List.mem_singleton.1 hk'] at hk
      revert hk
      decide
    have hread := additive_complete hadd ht.toStopsProduct us
    obtain ⟨u, vs, rfl, hu⟩ := hadd.startsIn
    have hbrace : u.kind ≠ .openBrace := ne_of_mem_of_not_mem hu (by decide)
    rw [List.cons_append] at hread ⊢
    rw [object_eq, peek_bind_cons, if_neg hbrace, hread, chainTail_of_stops e ht.not_sum]
  | @IsObject.braces o c us ps ho hps hc =>
    have hread := properties_complete hps hc rest
    rw [List.cons_append, List.append_assoc, List.singleton_append, object_eq, peek_bind_cons,
      if_pos ho, next_bind_cons, bind_of_ok hread, bind_of_ok (expect_cons_of_eq _ _ hc),
      pure_apply]

/-- The properties of an object are read up to its closing brace. -/
lemma properties_complete {ts : List Token} {ps : List Property} (h : IsProperties ts ps)
    {c : Token} (hc : c.kind = .closeBrace) (rest : List Token) :
    properties (ts ++ c :: rest) = .ok (ps, c :: rest) := by
  match h with
  | .none => exact properties_cons_closeBrace hc rest
  | .last hlast =>
    have hread := property_complete hlast (.inl hc) rest
    obtain ⟨t, us, rfl, ht⟩ := hlast.startsIn
    rw [if_neg (by simp [hc]), List.cons_append] at hread
    rw [List.cons_append, properties_eq, peek_bind_cons, if_neg (not_ends_of_identifier ht),
      bind_of_ok hread, bind_of_ok (properties_cons_closeBrace hc rest), pure_apply]
  | @IsProperties.more us vs d p ps hfirst hcomma hmore =>
    have hread := property_complete hfirst (.inr hcomma) (vs ++ c :: rest)
    obtain ⟨t, us, rfl, ht⟩ := hfirst.startsIn
    rw [if_pos hcomma, List.cons_append] at hread
    rw [List.append_assoc, List.cons_append, List.cons_append, properties_eq, peek_bind_cons,
      if_neg (not_ends_of_identifier ht), bind_of_ok hread,
      bind_of_ok (properties_complete hmore hc rest), pure_apply]

/-- A property is read in front of a closing brace or a comma, and the comma with it. -/
lemma property_complete {ts : List Token} {p : Property} (h : IsProperty ts p) {c : Token}
    (hc : c.kind = .closeBrace ∨ c.kind = .comma) (rest : List Token) :
    property (ts ++ c :: rest) = .ok (p, if c.kind = .comma then rest else c :: rest) := by
  match h with
  | @IsProperty.shorthand k hk =>
    rw [List.singleton_append, property_eq, bind_of_ok (expect_cons_of_eq _ _ hk), peek_bind_cons]
    rcases hc with hc | hc
    · rw [if_neg (by simp [hc]), if_pos hc, if_neg (by simp [hc]), pure_apply]
    · rw [if_pos hc, if_pos hc, next_bind_cons, pure_apply]
  | @IsProperty.pair k d us e hk hd hvalue =>
    have hfollows : Follows us (c :: rest) := by
      rcases hc with hc | hc
      · exact follows_of_kind hc (by decide) us rest
      · exact follows_of_kind hc (by decide) us rest
    rw [List.cons_append, List.cons_append, property_eq, bind_of_ok (expect_cons_of_eq _ _ hk),
      peek_bind_cons, if_neg (by simp [hd]), if_neg (by simp [hd]),
      bind_of_ok (expect_cons_of_eq _ _ hd), bind_of_ok (assignment_complete hvalue hfollows),
      peek_bind_cons]
    rcases hc with hc | hc
    · rw [if_pos hc, if_neg (by simp [hc]), pure_apply]
    · rw [if_neg (by simp [hc]), if_pos hc, bind_of_ok (expect_cons_of_eq _ _ hc), pure_apply]

/-- An assignment is read if what follows cannot go on it. -/
lemma assignment_complete {ts : List Token} {e : Expr} (h : IsAssignment ts e) {rest : List Token}
    (hrest : Follows ts rest) : assignment (ts ++ rest) = .ok (e, rest) := by
  cases rest with
  | nil => exact hrest.elim
  | cons t us =>
    obtain ⟨hequals, hstops⟩ := hrest
    match h with
    | .object hobject =>
      have hread := object_complete hobject (hstops.imp_right fun ht => ⟨t, us, rfl, ht⟩)
      rw [assignment_eq, bind_of_ok hread, peek_bind_cons, if_neg hequals, pure_apply]
    | @IsAssignment.assign vs ws q target value htarget hq hvalue =>
      have hsign : StopsSum q := stopsSum_of_kind hq (by decide)
      have hread := object_complete htarget (.inr ⟨q, ws ++ t :: us, rfl, hsign⟩)
      have hends : EndsIn [.closeBrace] ws ∨ StopsSum t :=
        hstops.imp_left fun hends => endsIn_of_append_cons hends hvalue.endsIn
      have hfollows : Follows ws (t :: us) := ⟨hequals, hends⟩
      rw [List.append_assoc, List.cons_append, assignment_eq, bind_of_ok hread, peek_bind_cons,
        if_pos hq, next_bind_cons, bind_of_ok (assignment_complete hvalue hfollows), pure_apply]

end

/-! ## Statements -/

/-- A declaration is read whatever follows it. -/
lemma declaration_complete {ts : List Token} {s : Statement} (h : IsDeclaration ts s)
    (rest : List Token) : statement (ts ++ rest) = .ok (s, rest) := by
  cases h with
  | @bare w n s hw hn hs =>
    rw [List.cons_append, statement_eq_next, peek_bind_cons, if_pos (.inl hw), next_bind_cons,
      List.cons_append, declarationTail_eq, bind_of_ok (expect_cons_of_eq _ _ hn), List.cons_append,
      peek_bind_cons, if_pos hs, if_neg (by simp [hw]), next_bind_cons, pure_apply, List.nil_append]
  | @mutable w n q s us e hw hn hq hvalue hs =>
    have hread := assignment_complete hvalue (follows_of_kind hs (by decide) us rest)
    simp only [List.cons_append, List.append_assoc, List.nil_append]
    rw [statement_eq_next, peek_bind_cons, if_pos (.inl hw), next_bind_cons, declarationTail_eq,
      bind_of_ok (expect_cons_of_eq _ _ hn), peek_bind_cons, if_neg (by simp [hq]),
      bind_of_ok (expect_cons_of_eq _ _ hq), bind_of_ok hread,
      bind_of_ok (expect_cons_of_eq _ _ hs), pure_apply]
    simp [hw]
  | @constant w n q s us e hw hn hq hvalue hs =>
    have hread := assignment_complete hvalue (follows_of_kind hs (by decide) us rest)
    simp only [List.cons_append, List.append_assoc, List.nil_append]
    rw [statement_eq_next, peek_bind_cons, if_pos (.inr hw), next_bind_cons, declarationTail_eq,
      bind_of_ok (expect_cons_of_eq _ _ hn), peek_bind_cons, if_neg (by simp [hq]),
      bind_of_ok (expect_cons_of_eq _ _ hq), bind_of_ok hread,
      bind_of_ok (expect_cons_of_eq _ _ hs), pure_apply]
    simp [hw]

/-- An expression without a semicolon can be followed by the start of a statement, or by the end
marker, unless it runs on. -/
lemma follows_of_not_glues {ts us : List Token} {e : Expr} (h : IsAssignment ts e) {t : Token}
    (ht : t.kind ∈ .endOfInput :: statementStarts) (hglue : ¬ Glues ts (t :: us)) :
    Follows ts (t :: us) := by
  have hequals : t.kind ≠ .equals := ne_of_mem_of_not_mem ht (by decide)
  refine ⟨hequals, ?_⟩
  by_cases hparen : t.kind = .openParen
  · left
    have hends : EndsIn [.semicolon, .closeBrace] ts := by
      by_contra hends
      exact hglue ⟨hends, by simp [hparen]⟩
    obtain ⟨us, c, rfl, hc⟩ := h.endsIn
    rw [endsIn_concat] at hends ⊢
    have hsemi : c.kind ≠ .semicolon := ne_of_mem_of_not_mem hc (by decide)
    exact (List.mem_cons.1 hends).resolve_left hsemi
  · right
    refine stopsSum_of_kind rfl fun hmem => ?_
    revert ht hmem hparen
    cases t.kind <;> decide

/-- A statement is read in front of another one, unless it runs on. -/
lemma statement_complete {ts us : List Token} {s : Statement} (h : IsStatement ts s) {t : Token}
    (ht : t.kind ∈ .endOfInput :: statementStarts) (hglue : ¬ Glues ts (t :: us)) :
    statement (ts ++ t :: us) = .ok (s, t :: us) := by
  have hword : ∀ {ts : List Token} {e : Expr}, IsAssignment ts e →
      ∃ u vs, ts = u :: vs ∧ ¬ (u.kind = .letWord ∨ u.kind = .constWord) := by
    intro ts e h
    obtain ⟨u, vs, rfl, hu⟩ := h.startsIn
    refine ⟨u, vs, rfl, not_or.2 ⟨?_, ?_⟩⟩
    · exact ne_of_mem_of_not_mem hu (by decide)
    · exact ne_of_mem_of_not_mem hu (by decide)
  cases h with
  | declaration h => exact declaration_complete h (t :: us)
  | expr h =>
    have hread := assignment_complete h (follows_of_not_glues h ht hglue)
    have hsemi : t.kind ≠ .semicolon := ne_of_mem_of_not_mem ht (by decide)
    obtain ⟨u, vs, rfl, hu⟩ := hword h
    rw [List.cons_append] at hread ⊢
    rw [statement_eq_next, peek_bind_cons, if_neg hu, bind_of_ok hread, peek_bind_cons,
      if_neg hsemi, pure_apply]
  | @closed ts s e h hs =>
    have hread := assignment_complete h (follows_of_kind hs (by decide) ts (t :: us))
    obtain ⟨u, vs, rfl, hu⟩ := hword h
    rw [List.cons_append] at hread
    rw [List.append_assoc, List.singleton_append, List.cons_append, statement_eq_next,
      peek_bind_cons, if_neg hu, bind_of_ok hread, peek_bind_cons, if_pos hs, next_bind_cons,
      pure_apply]

/-- Statements are read up to an end marker. -/
lemma statements_complete {ts : List Token} {ss : List Statement} (h : IsStatements ts ss)
    {m : Token} (hm : m.kind = .endOfInput) (rest : List Token) :
    statements (ts ++ m :: rest) = .ok (ss, m :: rest) := by
  induction h with
  | none => rw [List.nil_append, statements_eq, peek_bind_cons, if_pos hm, pure_apply]
  | @more ts us s ss hs hss hglue ih =>
    obtain ⟨t, vs, heq, ht, hglue'⟩ : ∃ t vs, us ++ m :: rest = t :: vs ∧
        t.kind ∈ .endOfInput :: statementStarts ∧ ¬ Glues ts (t :: vs) := by
      cases hss with
      | none => exact ⟨m, rest, rfl, by simp [hm], fun hglue => by simpa [hm] using hglue.2⟩
      | @more us us' s' ss' hs' _ _ =>
        obtain ⟨t, vs, rfl, ht⟩ := hs'.startsIn
        refine ⟨t, _, rfl, List.mem_cons_of_mem _ ht, fun hglue' => hglue ⟨hglue'.1, ?_⟩⟩
        simpa using hglue'.2
    have hread := statement_complete hs ht hglue'
    rw [← heq] at hread
    obtain ⟨u, ws, rfl, hu⟩ := hs.startsIn
    have hend : u.kind ≠ .endOfInput := ne_of_mem_of_not_mem hu (by decide)
    rw [List.cons_append] at hread
    rw [List.append_assoc, List.cons_append, statements_eq, peek_bind_cons,
      if_neg hend, bind_of_ok hread, bind_of_ok ih, pure_apply]

end Reader

end Scriptlet.Grammar
