import Scriptlet.Proofs.Grammar.Locality

/-!
# More tokens behind a list

A token list may still grow at its end.  A rule that gives a phrase for the list as it is gives the
same phrase for every longer one, and leaves the tokens it left and the new ones; and a violation is
the same violation, unless it is that the tokens ran out.  `StableAt` says this of one reader on one
list, and it passes through the steps of the rules like the other properties of this kind.

The tails of sums and products are the one place where this could go wrong: they take the end of the
list for the end of the chain, and an operator that comes later would carry the chain on.  It does
not happen, because no operand uses up its list (`operand_rest`).  `IsOperatorLoop` says what the
tails do but for the end of the list, and whatever is done there, the sums and products are the same
(`IsOperatorLoop.bind_eq`).
-/

namespace Scriptlet.Grammar

namespace Reader

variable {α β : Type}

/-- What `f` does on `ts` it does on every longer list, unless the tokens ran out. -/
structure StableAt (f : Reader α) (ts : List Token) : Prop where
  /-- A result stays, and what comes later is left behind it. -/
  ok : ∀ a rest, f ts = .ok (a, rest) → ∀ us, f (ts ++ us) = .ok (a, rest ++ us)
  /-- A violation stays. -/
  error : ∀ e, f ts = .error e → e ≠ .outOfTokens → ∀ us, f (ts ++ us) = .error e

/-! ## The steps are stable -/

/-- There is nothing to show where the tokens ran out. -/
lemma stableAt_of_outOfTokens {f : Reader α} {ts : List Token} (h : f ts = .error .outOfTokens) :
    StableAt f ts where
  ok := by
    intro a rest hok
    rw [h] at hok
    cases hok
  error := by
    intro e herr hne
    rw [h] at herr
    cases herr
    exact absurd rfl hne

/-- A result that is given without a look at the list is stable. -/
lemma stableAt_pure (a : α) (ts : List Token) : StableAt (pure a : Reader α) ts where
  ok := by
    rintro b rest ⟨⟩ us
    rfl
  error := by
    rintro e ⟨⟩

/-- A refusal stays with more tokens. -/
lemma stableAt_refuse (e : ParseError) (ts : List Token) : StableAt (refuse e : Reader α) ts where
  ok := by
    rintro a rest ⟨⟩
  error := by
    rintro e' ⟨⟩ _ us
    rfl

/-- A reader that goes on as another one behind the first token is as stable as that one. -/
lemma StableAt.cons {f g : Reader α} {t : Token} {us vs : List Token} (h : StableAt g vs)
    (heq : ∀ ws, f (t :: (us ++ ws)) = g (vs ++ ws)) : StableAt f (t :: us) := by
  have hstart : f (t :: us) = g vs := by
    have hnil := heq []
    rwa [List.append_nil, List.append_nil] at hnil
  constructor
  · intro a rest hok ws
    rw [hstart] at hok
    rw [List.cons_append, heq ws, h.ok a rest hok ws]
  · intro e herr hne ws
    rw [hstart] at herr
    rw [List.cons_append, heq ws, h.error e herr hne ws]

/-- Looking at a token and going on with it in place. -/
lemma stableAt_peek_bind {g : Token → Reader α} {ts : List Token}
    (h : ∀ t us, ts = t :: us → StableAt (g t) (t :: us)) : StableAt (peek >>= g) ts := by
  cases ts with
  | nil => exact stableAt_of_outOfTokens rfl
  | cons t us => exact (h t us rfl).cons fun ws => rfl

/-- A sequence of stable readers is stable. -/
lemma stableAt_bind {f : Reader α} {g : α → Reader β} {ts : List Token} (hf : StableAt f ts)
    (hg : ∀ a mid, f ts = .ok (a, mid) → StableAt (g a) mid) : StableAt (f >>= g) ts := by
  constructor
  · intro b rest hok us
    obtain ⟨a, mid, hfirst, hsecond⟩ := bind_eq_ok.1 hok
    have hfirst' : f (ts ++ us) = .ok (a, mid ++ us) := hf.ok a mid hfirst us
    rw [bind_of_ok hfirst']
    exact (hg a mid hfirst).ok b rest hsecond us
  · intro e herr hne us
    rcases bind_eq_error.1 herr with hfirst | ⟨a, mid, hfirst, hsecond⟩
    · exact bind_of_error (hf.error e hfirst hne us)
    · have hfirst' : f (ts ++ us) = .ok (a, mid ++ us) := hf.ok a mid hfirst us
      rw [bind_of_ok hfirst']
      exact (hg a mid hfirst).error e hsecond hne us

/-- What is behind a dot is stable, as the primary there is. -/
lemma stableAt_dotName {d : Token} {us : List Token} (hprimary : StableAt primary us) :
    StableAt dotName (d :: us) := by
  cases us with
  | nil => exact stableAt_of_outOfTokens rfl
  | cons n vs =>
    refine StableAt.cons (stableAt_bind hprimary fun key mid _ => ?_)
      fun ws => dotName_cons_cons d n (vs ++ ws)
    split_ifs
    · exact stableAt_pure key mid
    · exact stableAt_refuse _ mid

/-! ## The rules are stable -/

/-- Stability passes through the steps of the rules. -/
lemma closed_stableAt : Closed (fun _ _ => True) fun f ts => StableAt f ts where
  pure := stableAt_pure
  next_bind _ hg := hg.cons fun _ => rfl
  look := by
    intro α g ts h
    refine stableAt_peek_bind fun t us hts => ?_
    rcases h t us hts with ⟨hgo, -⟩ | ⟨e, -, hrefuse, -⟩
    · exact hgo
    · rw [hrefuse]
      exact stableAt_refuse e _
  unexpected _ _ _ := trivial
  bind := stableAt_bind
  dotName _ := stableAt_dotName

/-- Every rule is stable on every list. -/
lemma stableAt_phrase (r : Rule) (ts : List Token) : StableAt (phrase r) ts :=
  closed_stableAt.phrase (fun _ _ _ => trivial) r ts

/-! ## The end of a chain -/

/-- The tails go through a chain of operators like those of the rules.  What they do where the list
ends is left open. -/
def IsOperatorLoop (tail : Operator.Level → Expr → Reader Expr) : Prop :=
  ∀ level left t us, tail level left (t :: us) =
    match t.operatorAt? level with
    | none => .ok (left, t :: us)
    | some op => (operand level >>= fun right => tail level (.binary op left right)) us

/-- The tails of the rules take the end of the list for the end of the chain. -/
lemma operatorTail_nil (level : Operator.Level) (left : Expr) :
    operatorTail level left [] = .ok (left, []) := by
  cases level with
  | sum =>
    rw [operatorTail, ofRule, Grammar.additiveTail.eq_def]
    rfl
  | product =>
    rw [operatorTail, ofRule, Grammar.multiplicativeTail.eq_def]
    rfl

/-- The tails of the rules are loops of this kind. -/
lemma isOperatorLoop_operatorTail : IsOperatorLoop operatorTail :=
  operatorTail_cons

namespace IsOperatorLoop

variable {tail : Operator.Level → Expr → Reader Expr}

/-- Where there is a token, all such tails do the same: every operand leaves a token again. -/
lemma eq_operatorTail (h : IsOperatorLoop tail) (level : Operator.Level) (left : Expr) (t : Token)
    (us : List Token) : tail level left (t :: us) = operatorTail level left (t :: us) := by
  induction hn : us.length using Nat.strongRecOn generalizing left t us with
  | ind n ih =>
    rw [h, operatorTail_cons]
    cases t.operatorAt? level with
    | none => rfl
    | some op =>
      dsimp only
      cases hright : operand level us with
      | error e => rw [bind_of_error hright, bind_of_error hright]
      | ok r =>
        obtain ⟨right, mid⟩ := r
        have hlt : mid.length < us.length := operand_length_lt hright
        obtain ⟨u, vs, rfl, -⟩ := operand_rest hright
        have hvs : vs.length < n := by
          rw [List.length_cons] at hlt
          omega
        rw [bind_of_ok hright, bind_of_ok hright]
        exact ih vs.length hvs (.binary op left right) u vs rfl

/-- Behind an operand, all such tails are the same. -/
lemma bind_eq (h : IsOperatorLoop tail) (level : Operator.Level) :
    (operand level >>= tail level) = operand level >>= chainTail level := by
  funext ts
  cases hfirst : operand level ts with
  | error e => rw [bind_of_error hfirst, bind_of_error hfirst]
  | ok r =>
    obtain ⟨first, mid⟩ := r
    obtain ⟨t, us, rfl, -⟩ := operand_rest hfirst
    rw [bind_of_ok hfirst, bind_of_ok hfirst, chainTail]
    exact h.eq_operatorTail level first t us

/-- With any such loop in place of its own, the rule for sums reads the same. -/
lemma additive_eq (h : IsOperatorLoop tail) : additive = multiplicative >>= tail .sum := by
  rw [Reader.additive_eq]
  exact (h.bind_eq .sum).symm

/-- With any such loop in place of its own, the rule for products reads the same. -/
lemma multiplicative_eq (h : IsOperatorLoop tail) :
    multiplicative = callMember >>= tail .product := by
  rw [Reader.multiplicative_eq]
  exact (h.bind_eq .product).symm

end IsOperatorLoop

end Reader

/-- The rules do not change their mind when more tokens come.  A phrase stays, a violation other
than the end of the tokens stays, and so only a list that ran out of tokens can be read differently
when it grows.  The tails of sums and products accept the end of a list, but this decides nothing:
with any other behaviour there, the rules are the same. -/
theorem rules_stable_under_append :
    (∀ (r : Rule) ts a rest, r.read ts = .ok (a, rest) →
      ∀ us, r.read (ts ++ us) = .ok (a, rest ++ us)) ∧
    (∀ (r : Rule) ts e, r.read ts = .error e → e ≠ .outOfTokens →
      ∀ us, r.read (ts ++ us) = .error e) ∧
    (∀ (r : Rule) ts us, r.read (ts ++ us) ≠ (r.read ts).map (fun p => (p.1, p.2 ++ us)) →
      r.read ts = .error .outOfTokens) ∧
    (Reader.IsOperatorLoop Reader.operatorTail ∧
      ∀ level left, Reader.operatorTail level left [] = .ok (left, [])) ∧
    ∀ tail, Reader.IsOperatorLoop tail →
      Reader.additive = Reader.multiplicative >>= tail .sum ∧
      Reader.multiplicative = Reader.callMember >>= tail .product := by
  refine ⟨fun r ts => (Reader.stableAt_phrase r ts).ok,
    fun r ts => (Reader.stableAt_phrase r ts).error, fun r ts us hchange => ?_,
    ⟨Reader.isOperatorLoop_operatorTail, Reader.operatorTail_nil⟩,
    fun tail htail => ⟨htail.additive_eq, htail.multiplicative_eq⟩⟩
  have hstable : Reader.StableAt (Reader.phrase r) ts := Reader.stableAt_phrase r ts
  cases hread : r.read ts with
  | ok p =>
    rw [hread] at hchange
    exact absurd (hstable.ok p.1 p.2 hread us) hchange
  | error e =>
    rw [hread] at hchange
    by_cases hout : e = .outOfTokens
    · rw [hout]
    · exact absurd (hstable.error e hread hout us) hchange

/-- A name is a primary, whatever follows it.  It is not yet a member, because an access may follow,
and with a comma behind it it is one; and a comma in the place of a name is a violation for good. -/
theorem name_read_grows :
    let a : Token := ⟨.identifier, "a", ⟨1, 1⟩⟩
    let comma : Token := ⟨.comma, ",", ⟨1, 2⟩⟩
    (∀ us, Rule.primary.read ([a] ++ us) = .ok (.expr (.name "a"), us)) ∧
      Rule.member.read [a] = .error .outOfTokens ∧
      (∀ us, Rule.member.read ([a, comma] ++ us) = .ok (.expr (.name "a"), [comma] ++ us)) ∧
      (∀ us, Rule.primary.read ([comma] ++ us) = .error (.unexpected .expression comma)) ∧
      Reader.additive = Reader.multiplicative >>= Reader.operatorTail .sum := by
  intro a comma
  have hprimary : ∀ ts, Rule.primary.read ts =
      (Reader.primary >>= fun e => pure (Phrase.expr e)) ts :=
    congrFun (Reader.map_phrase_eq Grammar.primary Phrase.expr)
  have hmember : ∀ ts, Rule.member.read ts =
      (Reader.member >>= fun e => pure (Phrase.expr e)) ts :=
    congrFun (Reader.map_phrase_eq Grammar.member Phrase.expr)
  have hname : ∀ us, Reader.primary (a :: us) = .ok (.name "a", us) := Reader.primary_cons_name rfl
  have hcomma : Rule.primary.read [comma] = .error (.unexpected .expression comma) := by
    rw [hprimary, Reader.bind_of_error (Reader.primary_cons_other (by decide) [])]
  have halone : Rule.primary.read [a] = .ok (.expr (.name "a"), []) := by
    rw [hprimary, Reader.bind_of_ok (hname []), Reader.pure_apply]
  have hbehind : Rule.member.read [a, comma] = .ok (.expr (.name "a"), [comma]) := by
    have hread : Reader.member [a, comma] = .ok (.name "a", [comma]) := by
      rw [Reader.member_eq, Reader.bind_of_ok (hname [comma]), Reader.memberTail_eq,
        Reader.peek_bind_cons, if_neg (by decide), if_neg (by decide), Reader.pure_apply]
    rw [hmember, Reader.bind_of_ok hread, Reader.pure_apply]
  have hgrows : Rule.member.read ([a] ++ [comma]) ≠
      (Rule.member.read [a]).map fun p => (p.1, p.2 ++ [comma]) := by
    have hread : Reader.member [a] = .error .outOfTokens := by
      rw [Reader.member_eq, Reader.bind_of_ok (hname []), Reader.memberTail_eq,
        Reader.peek_bind_nil]
    rw [List.singleton_append, hbehind, hmember, Reader.bind_of_error hread]
    nofun
  obtain ⟨hok, herror, hchange, ⟨hloop, -⟩, hend⟩ := rules_stable_under_append
  exact ⟨hok .primary _ _ _ halone, hchange .member _ _ hgrows, hok .member _ _ _ hbehind,
    herror .primary _ _ hcomma nofun, (hend _ hloop).1⟩

end Scriptlet.Grammar
