import Mathlib.Tactic.SplitIfs
import Scriptlet.Proofs.Grammar.Derivation
import Scriptlet.Proofs.Grammar.Reader

/-!
# Properties that pass through the rules

Much of what can be said about the rules holds of each of them because it holds of the steps they
are made of and passes from the parts of a sequence to the sequence.  `Closed E P` says so of a
property `P` of readers and the lists they are run on, and the lemmas below give `P` for every rule.

A sequence has to keep `P` only for what its first part really leaves: the second part is asked for
on that list, with the result that was read.  A token is refused only after it was looked at, and
the two are one step: `E t e` are the violations `e` that looking at `t` may give.  The violation
behind a dot is reported at a token that is already used up, so that `dotName` is one step, too.
No rule takes an end marker, and none asks for the text of a number but at a number that has another
text; so `P` and `E` need not allow for these.  Nor does any rule ask where a token stands: the same
token in another place (`Token.movedTo`) is treated alike, or refused with the same violation there
(`ParseError.movedTo`).

The rules call each other in a circle, and as in the argument for soundness it is enough to go round
once, with `P` known for `assignment` on fewer tokens (`Closed.Below`).
-/

namespace Scriptlet

/-- The token in another place. -/
def Token.movedTo (t : Token) (p : Position) : Token := { t with position := p }

/-- The violation in another place. -/
def ParseError.movedTo (e : ParseError) (p : Position) : ParseError :=
  match e with
  | .unexpected expected found => .unexpected expected (found.movedTo p)
  | .missingValue name _ => .missingValue name p
  | .notAName _ => .notAName p
  | .outOfTokens => .outOfTokens

namespace Grammar.Reader

/-- What is done with the token `t` does not depend on its place. -/
def Placeless {α : Type} (g : Token → Reader α) (t : Token) : Prop :=
  ∀ p, g (t.movedTo p) = g t

/-- The token `t` is refused, with the violation `e` moved to where it stands. -/
def Refuses {α : Type} (g : Token → Reader α) (t : Token) (e : ParseError) : Prop :=
  g t = refuse e ∧ ∀ p, g (t.movedTo p) = refuse (e.movedTo p)

/-- The property `P` passes through the steps of which the rules are made, with the violations `E`
at the token that was looked at. -/
structure Closed (E : Token → ParseError → Prop)
    (P : ∀ {α : Type}, Reader α → List Token → Prop) : Prop where
  /-- Giving a result without looking at a token. -/
  pure : ∀ {α : Type} (a : α) (ts : List Token), P (pure a : Reader α) ts
  /-- Taking a token that is no end marker, and going on behind it. -/
  next_bind : ∀ {α : Type} {g : Reader α} {t : Token} {us : List Token}, t.kind ≠ .endOfInput →
    P g us → P (next >>= fun _ => g) (t :: us)
  /-- Looking at a token, and going on with it in place or refusing it. -/
  look : ∀ {α : Type} {g : Token → Reader α} {ts : List Token},
    (∀ t us, ts = t :: us →
      (P (g t) (t :: us) ∧ Placeless g t) ∨ ∃ e, E t e ∧ Refuses g t e) →
    P (peek >>= g) ts
  /-- Any token may be refused, but for its text only a number that cannot be read. -/
  unexpected : ∀ (expected : Expectation) (t : Token),
    (expected = .number → t.kind = .number ∧ Number.read? t.text = none) →
    E t (.unexpected expected t)
  /-- A sequence. -/
  bind : ∀ {α β : Type} {f : Reader α} {g : α → Reader β} {ts : List Token}, P f ts →
    (∀ a mid, f ts = .ok (a, mid) → P (g a) mid) → P (f >>= g) ts
  /-- A dot and what is behind it. -/
  dotName : ∀ {d : Token} {us : List Token}, d.kind = .dot → P primary us → P dotName (d :: us)

namespace Closed

variable {E : Token → ParseError → Prop} {P : ∀ {α : Type}, Reader α → List Token → Prop}
  {α : Type}

/-- The property is known for `assignment` on fewer than `n` tokens. -/
def Below (P : ∀ {α : Type}, Reader α → List Token → Prop) (n : Nat) : Prop :=
  ∀ us : List Token, us.length < n → P assignment us

/-- The property below a length includes the property below a smaller one. -/
lemma Below.mono {n m : Nat} (ih : Below P n) (h : m ≤ n) : Below P m :=
  fun us hus => ih us (Nat.lt_of_lt_of_le hus h)

/-! ## Steps -/

/-- Looking at a token without regard to its place keeps the property. -/
lemma peek_bind (hP : Closed E P) {g : Token → Reader α} {ts : List Token}
    (hg : ∀ t, Placeless g t) (h : ∀ t us, ts = t :: us → P (g t) (t :: us)) :
    P (peek >>= g) ts :=
  hP.look fun t us hts => .inl ⟨h t us hts, hg t⟩

/-- A token of a given kind may be asked for; neither an end marker nor the text of a number is. -/
lemma expect_bind (hP : Closed E P) {kind : TokenKind} {expected : Expectation}
    (hplain : kind ≠ .endOfInput ∧ expected ≠ .number) {g : Token → Reader α} {ts : List Token}
    (hg : ∀ t, Placeless g t) (h : ∀ t us, ts = t :: us → t.kind = kind → P (g t) us) :
    P (expect kind expected >>= g) ts := by
  rw [expect_bind_eq]
  refine hP.look fun t us hts => ?_
  by_cases hk : t.kind = kind
  · refine .inl ⟨?_, fun p => ?_⟩
    · rw [if_pos hk]
      exact hP.next_bind (hk ▸ hplain.1) (h t us hts hk)
    · dsimp only [Token.movedTo]
      rw [if_pos hk, if_pos hk]
      exact congrArg (fun r => next >>= fun _ => r) (hg t p)
  · refine .inr ⟨_, hP.unexpected expected t fun he => absurd he hplain.2, if_neg hk, fun p => ?_⟩
    exact if_neg hk

/-! ## Primaries, members and calls -/

/-- A primary has the property because what stands in its parentheses is shorter. -/
lemma primary_of_below (hP : Closed E P) {ts : List Token} (ih : Below P ts.length) :
    P Reader.primary ts := by
  rw [primary_eq]
  refine hP.look fun t us hts => ?_
  split
  · next hk =>
    exact .inl ⟨hP.next_bind (by simp [hk]) (hP.pure _ _), fun _ => by simp [Token.movedTo, hk]⟩
  · next hk =>
    exact .inl ⟨hP.next_bind (by simp [hk]) (hP.pure _ _), fun _ => by simp [Token.movedTo, hk]⟩
  · next hk =>
    split
    · next hread =>
      refine .inl ⟨hP.next_bind (by simp [hk]) (hP.pure _ _), fun _ => ?_⟩
      simp [Token.movedTo, hk, hread]
    · next hread =>
      refine .inr ⟨_, hP.unexpected .number t fun _ => ⟨hk, hread⟩, ?_, fun _ => ?_⟩
      · simp [hk, hread]
      · simp [Token.movedTo, ParseError.movedTo, hk, hread]
  · next hk =>
    refine .inl ⟨hP.next_bind (by simp [hk]) ?_, fun _ => by simp [Token.movedTo, hk]⟩
    refine hP.bind (ih us (by simp [hts])) fun inner mid _ => ?_
    exact hP.expect_bind (by decide) (fun _ _ => rfl) fun _ _ _ _ => hP.pure _ _
  · refine .inr ⟨_, hP.unexpected .expression t (fun h => by cases h), ?_, fun _ => ?_⟩
    · simp only
    · simp only [Token.movedTo, ParseError.movedTo]

/-- Further accesses have the property: each of them takes a token, so that all expressions in
brackets are shorter. -/
lemma memberTail_of_below (hP : Closed E P) {n : Nat} (ih : Below P n) {ts : List Token}
    (hts : ts.length ≤ n) (base : Expr) : P (Reader.memberTail base) ts := by
  induction hm : ts.length using Nat.strongRecOn generalizing ts base with
  | ind m ihm =>
    rw [memberTail_eq]
    refine hP.peek_bind (fun _ _ => rfl) fun t us heq => ?_
    subst heq
    rw [List.length_cons] at hm hts
    split_ifs with hdot hopen
    · have hprimary : P Reader.primary us := hP.primary_of_below (ih.mono (by omega))
      refine hP.bind (hP.dotName hdot hprimary) fun key mid hkey => ?_
      have hlt : mid.length < us.length := dotName_length_lt hkey
      exact ihm mid.length (by omega) (by omega) _ rfl
    · refine hP.next_bind (by simp [hopen]) ?_
      refine hP.bind (ih us (by omega)) fun key mid hkey => ?_
      have hlt : mid.length < us.length := length_lt_of_ofRule hkey
      refine hP.expect_bind (by decide) (fun _ _ => rfl) fun c ws hmid _ => ?_
      rw [hmid, List.length_cons] at hlt
      exact ihm ws.length (by omega) (by omega) _ rfl
    · exact hP.pure _ _

/-- A chain of accesses has the property, as its primary and its accesses do. -/
lemma member_of_below (hP : Closed E P) {ts : List Token} (ih : Below P ts.length) :
    P Reader.member ts := by
  rw [member_eq]
  refine hP.bind (hP.primary_of_below ih) fun first mid hfirst => ?_
  have hlt : mid.length < ts.length := length_lt_of_ofRule hfirst
  exact hP.memberTail_of_below ih (Nat.le_of_lt hlt) first

/-- Arguments have the property, each of them on fewer tokens than `n`. -/
lemma argumentList_of_below (hP : Closed E P) {n : Nat} (ih : Below P n) {ts : List Token}
    (hts : ts.length < n) : P Reader.argumentList ts := by
  induction hm : ts.length using Nat.strongRecOn generalizing ts with
  | ind m ihm =>
    rw [argumentList_eq]
    refine hP.bind (ih ts hts) fun first mid hfirst => ?_
    have hlt : mid.length < ts.length := length_lt_of_ofRule hfirst
    refine hP.look fun t us hmid => ?_
    rw [hmid, List.length_cons] at hlt
    split_ifs with hcomma hclose
    · refine .inl ⟨hP.next_bind (by simp [hcomma]) ?_, fun _ => by simp [Token.movedTo, hcomma]⟩
      refine hP.bind (ihm us.length (by omega) (by omega) rfl) fun others _ _ => ?_
      exact hP.pure _ _
    · refine .inl ⟨hP.next_bind (by simp [hclose]) (hP.pure _ _), fun _ => ?_⟩
      simp [Token.movedTo, hclose]
    · refine .inr ⟨_, hP.unexpected .commaOrParen t (fun h => by cases h), ?_, fun _ => ?_⟩
      · simp [hcomma, hclose]
      · simp [Token.movedTo, ParseError.movedTo, hcomma, hclose]

/-- The arguments up to their parenthesis have the property, also where there are none. -/
lemma argumentsTail_of_below (hP : Closed E P) {n : Nat} (ih : Below P n) {ts : List Token}
    (hts : ts.length < n) : P Reader.argumentsTail ts := by
  rw [argumentsTail_eq]
  refine hP.peek_bind (fun _ _ => rfl) fun t us heq => ?_
  split_ifs with hclose
  · exact hP.next_bind (by simp [hclose]) (hP.pure _ _)
  · rw [← heq]
    exact hP.argumentList_of_below ih hts

/-- The parenthesis that opens arguments keeps the property of what is behind it. -/
lemma arguments_of_below (hP : Closed E P) {n : Nat} (ih : Below P n) {ts : List Token}
    (hts : ts.length < n) : P Reader.arguments ts := by
  rw [arguments_eq]
  refine hP.expect_bind (by decide) (fun _ _ => rfl) fun _ us heq _ => ?_
  rw [heq, List.length_cons] at hts
  exact hP.argumentsTail_of_below ih (by omega)

/-- Further calls have the property: each of them takes a token, so that all arguments are shorter.
-/
lemma callTail_of_below (hP : Closed E P) {n : Nat} (ih : Below P n) {ts : List Token}
    (hts : ts.length ≤ n) (callee : Expr) : P (Reader.callTail callee) ts := by
  induction hm : ts.length using Nat.strongRecOn generalizing ts callee with
  | ind m ihm =>
    rw [callTail_eq_next]
    refine hP.peek_bind (fun _ _ => rfl) fun t us heq => ?_
    subst heq
    rw [List.length_cons] at hm hts
    split_ifs with hopen
    · refine hP.next_bind (by simp [hopen]) ?_
      refine hP.bind (hP.argumentsTail_of_below ih (by omega)) fun args mid hargs => ?_
      have hlt : mid.length < us.length := length_lt_of_ofRule hargs
      exact ihm mid.length (by omega) (by omega) _ rfl
    · exact hP.pure _ _

/-- A chain of calls has the property, as its callee and its arguments do. -/
lemma callMember_of_below (hP : Closed E P) {ts : List Token} (ih : Below P ts.length) :
    P Reader.callMember ts := by
  rw [callMember_eq]
  refine hP.bind (hP.member_of_below ih) fun callee mid hcallee => ?_
  have hlt : mid.length < ts.length := length_lt_of_ofRule hcallee
  exact hP.callTail_of_below ih (Nat.le_of_lt hlt) callee

/-! ## Chains of operators -/

/-- The tail of a chain, for both levels: `hop` is the rule for its operands. -/
lemma chainTail_of_operand (hP : Closed E P) {level : Operator.Level} {n : Nat}
    (hop : ∀ us : List Token, us.length < n → P (operand level) us) {ts : List Token}
    (hts : ts.length ≤ n) (left : Expr) : P (Reader.chainTail level left) ts := by
  induction hm : ts.length using Nat.strongRecOn generalizing ts left with
  | ind m ihm =>
    rw [chainTail_eq]
    refine hP.peek_bind (fun _ _ => rfl) fun t us heq => ?_
    subst heq
    rw [List.length_cons] at hm hts
    split
    · exact hP.pure _ _
    · next op hsign =>
      have hkind : t.kind = .operator := (operatorAt?_eq_some_iff.1 hsign).1
      refine hP.next_bind (by simp [hkind]) ?_
      refine hP.bind (hop us (by omega)) fun right mid hright => ?_
      have hlt : mid.length < us.length := operand_length_lt hright
      exact ihm mid.length (by omega) (by omega) _ rfl

/-- A product has the property, as its factors do. -/
lemma multiplicative_of_below (hP : Closed E P) {ts : List Token} (ih : Below P ts.length) :
    P Reader.multiplicative ts := by
  rw [multiplicative_eq]
  refine hP.bind (hP.callMember_of_below ih) fun first mid hfirst => ?_
  have hlt : mid.length < ts.length := length_lt_of_ofRule hfirst
  have hop : ∀ us : List Token, us.length < ts.length → P (operand .product) us :=
    fun us hus => hP.callMember_of_below (ih.mono (Nat.le_of_lt hus))
  exact hP.chainTail_of_operand hop (Nat.le_of_lt hlt) first

/-- A sum has the property, as its products do. -/
lemma additive_of_below (hP : Closed E P) {ts : List Token} (ih : Below P ts.length) :
    P Reader.additive ts := by
  rw [additive_eq]
  refine hP.bind (hP.multiplicative_of_below ih) fun first mid hfirst => ?_
  have hlt : mid.length < ts.length := length_lt_of_ofRule hfirst
  have hop : ∀ us : List Token, us.length < ts.length → P (operand .sum) us :=
    fun us hus => hP.multiplicative_of_below (ih.mono (Nat.le_of_lt hus))
  exact hP.chainTail_of_operand hop (Nat.le_of_lt hlt) first

/-! ## Objects and assignments -/

/-- A property of an object has it: a value stands behind two tokens at least. -/
lemma property_of_below (hP : Closed E P) {n : Nat} (ih : Below P n) {ts : List Token}
    (hts : ts.length ≤ n) : P Reader.property ts := by
  rw [property_eq]
  refine hP.expect_bind (by decide) (fun _ _ => rfl) fun key us heq _ => ?_
  subst heq
  rw [List.length_cons] at hts
  refine hP.peek_bind (fun _ _ => rfl) fun t vs hus => ?_
  split_ifs with hcomma hclose
  · exact hP.next_bind (by simp [hcomma]) (hP.pure _ _)
  · exact hP.pure _ _
  · rw [← hus]
    refine hP.expect_bind (by decide) (fun _ _ => rfl) fun _ ws hws _ => ?_
    rw [hws, List.length_cons] at hts
    refine hP.bind (ih ws (by omega)) fun value mid _ => ?_
    refine hP.peek_bind (fun _ _ => rfl) fun c _ _ => ?_
    split_ifs with hbrace
    · exact hP.pure _ _
    · exact hP.expect_bind (by decide) (fun _ _ => rfl) fun _ _ _ _ => hP.pure _ _

/-- The properties of an object have it, one after the other. -/
lemma properties_of_below (hP : Closed E P) {n : Nat} (ih : Below P n) {ts : List Token}
    (hts : ts.length ≤ n) : P Reader.properties ts := by
  induction hm : ts.length using Nat.strongRecOn generalizing ts with
  | ind m ihm =>
    rw [properties_eq]
    refine hP.peek_bind (fun _ _ => rfl) fun t us heq => ?_
    split_ifs with hstop
    · exact hP.pure _ _
    · rw [← heq]
      refine hP.bind (hP.property_of_below ih hts) fun p mid hp => ?_
      have hlt : mid.length < ts.length := length_lt_of_ofRule hp
      refine hP.bind (ihm mid.length (by omega) (by omega) rfl) fun ps _ _ => ?_
      exact hP.pure _ _

/-- An object has the property, as its properties or its sum do. -/
lemma object_of_below (hP : Closed E P) {ts : List Token} (ih : Below P ts.length) :
    P Reader.object ts := by
  rw [object_eq]
  refine hP.peek_bind (fun _ _ => rfl) fun t us heq => ?_
  split_ifs with hopen
  · refine hP.next_bind (by simp [hopen]) ?_
    refine hP.bind (hP.properties_of_below ih (by simp [heq])) fun ps _ _ => ?_
    exact hP.expect_bind (by decide) (fun _ _ => rfl) fun _ _ _ _ => hP.pure _ _
  · rw [← heq]
    exact hP.additive_of_below ih

/-- Every expression has the property, by strong induction on the number of tokens. -/
lemma assignment (hP : Closed E P) (ts : List Token) : P Reader.assignment ts := by
  induction hn : ts.length using Nat.strongRecOn generalizing ts with
  | ind n ihn =>
    have ih : Below P ts.length := fun us hus => ihn us.length (by omega) us rfl
    rw [assignment_eq]
    refine hP.bind (hP.object_of_below ih) fun target mid htarget => ?_
    have hlt : mid.length < ts.length := length_lt_of_ofRule htarget
    refine hP.peek_bind (fun _ _ => rfl) fun t us hmid => ?_
    rw [hmid, List.length_cons] at hlt
    split_ifs with hequals
    · refine hP.next_bind (by simp [hequals]) ?_
      refine hP.bind (ih us (by omega)) fun value _ _ => ?_
      exact hP.pure _ _
    · exact hP.pure _ _

/-! ## The circle closed -/

/-- The property holds of `assignment` below any bound, so that nothing is left to assume. -/
lemma below (hP : Closed E P) (n : Nat) : Below P n :=
  fun us _ => hP.assignment us

/-- Every primary has the property. -/
lemma primary (hP : Closed E P) (ts : List Token) : P Reader.primary ts :=
  hP.primary_of_below (hP.below _)

/-- Every chain of accesses has the property. -/
lemma member (hP : Closed E P) (ts : List Token) : P Reader.member ts :=
  hP.member_of_below (hP.below _)

/-- Every list of arguments has the property. -/
lemma argumentList (hP : Closed E P) (ts : List Token) : P Reader.argumentList ts :=
  hP.argumentList_of_below (hP.below _) (Nat.lt_succ_self _)

/-- The arguments behind their parenthesis have the property on every list. -/
lemma argumentsTail (hP : Closed E P) (ts : List Token) : P Reader.argumentsTail ts :=
  hP.argumentsTail_of_below (hP.below _) (Nat.lt_succ_self _)

/-- The arguments with their parenthesis have the property on every list. -/
lemma arguments (hP : Closed E P) (ts : List Token) : P Reader.arguments ts :=
  hP.arguments_of_below (hP.below _) (Nat.lt_succ_self _)

/-- The operands of either level have the property. -/
lemma operand (hP : Closed E P) (level : Operator.Level) (ts : List Token) :
    P (Reader.operand level) ts := by
  cases level with
  | sum => exact hP.multiplicative_of_below (hP.below _)
  | product => exact hP.callMember_of_below (hP.below _)

/-- Every property of an object has it. -/
lemma property (hP : Closed E P) (ts : List Token) : P Reader.property ts :=
  hP.property_of_below (hP.below _) (Nat.le_refl _)

/-- Any properties of an object have it. -/
lemma properties (hP : Closed E P) (ts : List Token) : P Reader.properties ts :=
  hP.properties_of_below (hP.below _) (Nat.le_refl _)

/-- Every object has the property. -/
lemma object (hP : Closed E P) (ts : List Token) : P Reader.object ts :=
  hP.object_of_below (hP.below _)

/-! ## Statements

In declarations a semicolon may also be refused for the value that a constant lacks. -/

/-- A semicolon may be refused for the value that a constant lacks. -/
def Missing (E : Token → ParseError → Prop) : Prop :=
  ∀ (name : String) (t : Token), t.kind = .semicolon → E t (.missingValue name t.position)

/-- A declaration behind its keyword has the property, a constant without value included. -/
lemma declarationTail (hP : Closed E P) (hE : Missing E) (constant : Bool) (ts : List Token) :
    P (Reader.declarationTail constant) ts := by
  rw [declarationTail_eq]
  refine hP.expect_bind (by decide) (fun _ _ => rfl) fun name us _ _ => ?_
  refine hP.look fun t vs _ => ?_
  by_cases hsemi : t.kind = .semicolon
  · cases constant with
    | true => exact .inr ⟨_, hE name.text t hsemi, if_pos hsemi, fun _ => if_pos hsemi⟩
    | false =>
      refine .inl ⟨?_, fun _ => rfl⟩
      rw [if_pos hsemi]
      exact hP.next_bind (by simp [hsemi]) (hP.pure _ _)
  · refine .inl ⟨?_, fun _ => by simp [Token.movedTo, hsemi]⟩
    rw [if_neg hsemi]
    refine hP.expect_bind (by decide) (fun _ _ => rfl) fun _ ws _ _ => ?_
    refine hP.bind (hP.assignment ws) fun value mid _ => ?_
    exact hP.expect_bind (by decide) (fun _ _ => rfl) fun _ _ _ _ => hP.pure _ _

/-- Every statement has the property. -/
lemma statement (hP : Closed E P) (hE : Missing E) (ts : List Token) : P Reader.statement ts := by
  rw [statement_eq_next]
  refine hP.peek_bind (fun _ _ => rfl) fun t us _ => ?_
  split_ifs with hword
  · have hmarker : t.kind ≠ .endOfInput := by
      rcases hword with hlet | hconst
      · simp [hlet]
      · simp [hconst]
    exact hP.next_bind hmarker (hP.declarationTail hE _ us)
  · refine hP.bind (hP.assignment _) fun e mid _ => ?_
    refine hP.peek_bind (fun _ _ => rfl) fun c _ _ => ?_
    split_ifs with hsemi
    · exact hP.next_bind (by simp [hsemi]) (hP.pure _ _)
    · exact hP.pure _ _

/-- Any statements have the property, by induction on the number of tokens. -/
lemma statements (hP : Closed E P) (hE : Missing E) (ts : List Token) :
    P Reader.statements ts := by
  induction hn : ts.length using Nat.strongRecOn generalizing ts with
  | ind n ihn =>
    rw [statements_eq]
    refine hP.peek_bind (fun _ _ => rfl) fun t us heq => ?_
    split_ifs with hend
    · exact hP.pure _ _
    · rw [← heq]
      refine hP.bind (hP.statement hE ts) fun s mid hs => ?_
      have hlt : mid.length < ts.length := length_lt_of_ofRule hs
      refine hP.bind (ihn mid.length (by omega) mid rfl) fun ss _ _ => ?_
      exact hP.pure _ _

/-! ## Rules by name -/

/-- The property holds of every rule that stands for a phrase. -/
lemma phrase (hP : Closed E P) (hE : Missing E) (r : Rule) (ts : List Token) :
    P (Reader.phrase r) ts := by
  have hmap : ∀ {α : Type} {f : Reader α} (toPhrase : α → Phrase), P f ts →
      P (f >>= fun a => (Pure.pure (toPhrase a) : Reader Phrase)) ts :=
    fun _ hf => hP.bind hf fun _ _ _ => hP.pure _ _
  cases r <;> rw [Reader.phrase] <;> unfold Rule.read <;> rw [map_phrase_eq]
  case program =>
    rw [ofRule_program]
    exact hmap _ (hP.bind (hP.statements hE ts) fun _ _ _ => hP.pure _ _)
  case statement => exact hmap _ (hP.statement hE ts)
  case expression => exact hmap _ (hP.assignment ts)
  case assignment => exact hmap _ (hP.assignment ts)
  case object => exact hmap _ (hP.object ts)
  case additive => exact hmap _ (hP.additive_of_below (hP.below _))
  case multiplicative => exact hmap _ (hP.operand .sum ts)
  case callMember => exact hmap _ (hP.operand .product ts)
  case member => exact hmap _ (hP.member ts)
  case primary => exact hmap _ (hP.primary ts)

end Closed

end Grammar.Reader

end Scriptlet
