import Mathlib.Data.List.Chain
import Scriptlet.Proofs.Grammar.Closure
import Scriptlet.Proofs.Grammar.Derivation

/-!
# How far the rules look

What a rule does on a token list is decided by the tokens that it takes and the one behind them.
`LocalAt f ts` says this of the reader `f` on the list `ts`, for results and for violations: nothing
behind the deciding tokens matters, and without the last of them the tokens run out.  So the token
at which a violation is reported is the first one with which the list cannot go on, as far as the
rule can tell.

There is one exception.  What stands behind a dot is read as a primary and only then found to be no
name, and if it is in parentheses, the violation is found at their end and reported at their
beginning.  `NoParenBehindDot` keeps it out.
-/

namespace Scriptlet.Grammar

/-- No dot has an opening parenthesis directly behind it. -/
def NoParenBehindDot (ts : List Token) : Prop :=
  ts.IsChain fun t u => t.kind = .dot → u.kind ≠ .openParen

/-- Any end of such a list is such a list. -/
lemma NoParenBehindDot.of_append {ts us : List Token} (h : NoParenBehindDot (ts ++ us)) :
    NoParenBehindDot us :=
  List.IsChain.right_of_append h

/-- The violation is the one found at the token `t` that comes behind the tokens `pre`. -/
def Blames : ParseError → List Token → Token → Prop
  | .unexpected _ found, _, t => found = t
  | .missingValue _ p, _, t => t.kind = .semicolon ∧ p = t.position
  | .notAName p, pre, t => EndsIn [.dot] pre ∧ t.kind ≠ .endOfInput ∧ p = t.position
  | .outOfTokens, _, _ => False

/-- What stands further in front changes nothing. -/
lemma Blames.append_left {e : ParseError} {pre : List Token} {t : Token} (h : Blames e pre t)
    (ts : List Token) : Blames e (ts ++ pre) t := by
  cases e with
  | unexpected expected found => exact h
  | missingValue name p => exact h
  | notAName p => exact ⟨h.1.append_left ts, h.2⟩
  | outOfTokens => exact h

namespace Reader

variable {α β : Type}

/-- What `f` does on `ts` is decided by the tokens it takes and the one behind them. -/
structure LocalAt (f : Reader α) (ts : List Token) : Prop where
  /-- A result stays if the next token does.  If no token is left, none was looked at. -/
  ok : ∀ a rest, f ts = .ok (a, rest) → ∃ pre, ts = pre ++ rest ∧
    (∀ us, rest = [] ∨ us.head? = rest.head? → f (pre ++ us) = .ok (a, us)) ∧
    (f pre = .ok (a, []) ∨ f pre = .error .outOfTokens)
  /-- A violation stays, and in front of the token at which it is found there is none. -/
  error : ∀ e, f ts = .error e → e ≠ .outOfTokens → ∃ pre t suf, ts = pre ++ t :: suf ∧
    f pre = .error .outOfTokens ∧ (∀ us, f (pre ++ t :: us) = .error e) ∧ Blames e pre t

/-- A result stays with more tokens at the end of the list. -/
lemma LocalAt.ok_append {f : Reader α} {ts rest : List Token} {a : α} (h : LocalAt f ts)
    (hf : f ts = .ok (a, rest)) (us : List Token) : f (ts ++ us) = .ok (a, rest ++ us) := by
  obtain ⟨pre, rfl, hpre, -⟩ := h.ok a rest hf
  rw [List.append_assoc]
  refine hpre (rest ++ us) ?_
  cases rest with
  | nil => exact .inl rfl
  | cons t vs => exact .inr rfl

/-! ## The steps are local -/

/-- There is nothing to show where the tokens run out. -/
lemma localAt_of_outOfTokens {f : Reader α} {ts : List Token} (h : f ts = .error .outOfTokens) :
    LocalAt f ts where
  ok := by
    intro a rest hok
    rw [h] at hok
    cases hok
  error := by
    intro e herr hne
    rw [h] at herr
    cases herr
    exact absurd rfl hne

/-- A result that is given without a look at the list is local. -/
lemma localAt_pure (a : α) (ts : List Token) : LocalAt (pure a : Reader α) ts where
  ok := by
    rintro b rest ⟨⟩
    exact ⟨[], rfl, fun us _ => rfl, .inl rfl⟩
  error := by
    rintro e ⟨⟩

/-- Taking a token depends on that token only. -/
lemma localAt_next (t : Token) (us : List Token) : LocalAt next (t :: us) where
  ok := by
    rintro u rest ⟨⟩
    exact ⟨[t], rfl, fun us _ => rfl, .inl rfl⟩
  error := by
    rintro e ⟨⟩

/-- Looking at a token and going on with it in place. -/
lemma localAt_look {g : Token → Reader α} {ts : List Token}
    (h : ∀ t us, ts = t :: us → LocalAt (g t) (t :: us) ∨ ∃ e, Blames e [] t ∧ g t = refuse e) :
    LocalAt (peek >>= g) ts := by
  cases ts with
  | nil => exact localAt_of_outOfTokens rfl
  | cons t us =>
    rcases h t us rfl with hlocal | ⟨e, he, hrefuse⟩
    · constructor
      · intro a rest hok
        obtain ⟨pre, heq, hpre, hcut⟩ := hlocal.ok a rest hok
        cases pre with
        | nil =>
          -- Nothing is taken, so what follows starts with the token that was looked at.
          rw [List.nil_append] at heq
          subst heq
          refine ⟨[], rfl, fun vs hvs => ?_, .inr rfl⟩
          have hhead : vs.head? = some t := hvs.resolve_left (List.cons_ne_nil t us)
          obtain ⟨ws, rfl⟩ := List.head?_eq_some_iff.1 hhead
          exact hpre (t :: ws) (.inr rfl)
        | cons u pre =>
          cases heq
          exact ⟨t :: pre, rfl, hpre, hcut⟩
      · intro e herr hne
        obtain ⟨pre, u, suf, heq, hout, hpre, hblame⟩ := hlocal.error e herr hne
        cases pre with
        | nil =>
          cases heq
          exact ⟨[], t, us, rfl, rfl, hpre, hblame⟩
        | cons v pre =>
          cases heq
          exact ⟨t :: pre, u, suf, rfl, hout, hpre, hblame⟩
    · constructor
      · intro a rest hok
        rw [peek_bind_cons, hrefuse] at hok
        cases hok
      · intro e' herr _
        rw [peek_bind_cons, hrefuse] at herr
        cases herr
        refine ⟨[], t, us, rfl, rfl, fun vs => ?_, he⟩
        rw [List.nil_append, peek_bind_cons, hrefuse, refuse_apply]

/-! ## Sequences of local steps are local -/

/-- Where a reader leaves `pre' ++ rest`, it leaves `pre'` if the list is cut there, unless its own
look ahead is cut off. -/
lemma LocalAt.cut {f : Reader α} {pre pre' rest : List Token} {a : α}
    (hpre : ∀ us, pre' ++ rest = [] ∨ us.head? = (pre' ++ rest).head? → f (pre ++ us) = .ok (a, us))
    (hcut : f pre = .ok (a, []) ∨ f pre = .error .outOfTokens) :
    f (pre ++ pre') = .ok (a, pre') ∨ f (pre ++ pre') = .error .outOfTokens := by
  cases pre' with
  | nil => rwa [List.append_nil]
  | cons t us => exact .inl (hpre (t :: us) (.inr rfl))

/-- A sequence of local readers is local: the first token that the second part looks at is the one
that the first part left. -/
lemma localAt_bind {f : Reader α} {g : α → Reader β} {ts : List Token} (hf : LocalAt f ts)
    (hg : ∀ a mid, f ts = .ok (a, mid) → LocalAt (g a) mid) : LocalAt (f >>= g) ts := by
  constructor
  · intro b rest hok
    obtain ⟨a, mid, hfok, hgok⟩ := bind_eq_ok.1 hok
    obtain ⟨pre, rfl, hpre, hcut⟩ := hf.ok a mid hfok
    obtain ⟨pre', rfl, hpre', hcut'⟩ := (hg a mid hfok).ok b rest hgok
    refine ⟨pre ++ pre', by rw [List.append_assoc], fun us hus => ?_, ?_⟩
    · have hfirst : f (pre ++ (pre' ++ us)) = .ok (a, pre' ++ us) := by
        apply hpre
        cases pre' with
        | nil => exact hus
        | cons t vs => exact .inr rfl
      rw [List.append_assoc, bind_of_ok hfirst]
      exact hpre' us hus
    · rcases LocalAt.cut hpre hcut with hfirst | hout
      · rw [bind_of_ok hfirst]
        exact hcut'
      · exact .inr (bind_of_error hout)
  · intro e herr hne
    rcases bind_eq_error.1 herr with hferr | ⟨a, mid, hfok, hgerr⟩
    · obtain ⟨pre, t, suf, rfl, hout, hpre, hblame⟩ := hf.error e hferr hne
      exact ⟨pre, t, suf, rfl, bind_of_error hout, fun us => bind_of_error (hpre us), hblame⟩
    · obtain ⟨pre, rfl, hpre, hcut⟩ := hf.ok a mid hfok
      obtain ⟨pre', t, suf, rfl, hout', hpre', hblame⟩ := (hg a mid hfok).error e hgerr hne
      refine ⟨pre ++ pre', t, suf, by rw [List.append_assoc], ?_, fun us => ?_,
        hblame.append_left pre⟩
      · rcases LocalAt.cut hpre hcut with hfirst | hout
        · rw [bind_of_ok hfirst, hout']
        · exact bind_of_error hout
      · have hfirst : f (pre ++ (pre' ++ t :: us)) = .ok (a, pre' ++ t :: us) := by
          apply hpre
          cases pre' with
          | nil => exact .inr rfl
          | cons u vs => exact .inr rfl
        rw [List.append_assoc, bind_of_ok hfirst, hpre' us]

/-! ## A dot and what is behind it -/

/-- A dot is followed by whatever comes out as a name. -/
lemma dotName_cons_cons (d n : Token) (us : List Token) :
    dotName (d :: n :: us) = (do
      let key ← primary
      if key.kind = .identifier then pure key else refuse (.notAName n.position) : Reader Expr)
        (n :: us) := by
  rw [dotName, next_bind_cons, peek_bind_cons]

/-- Behind a dot, a token that opens no parenthesis decides alone: it is the name, or it is to
blame. -/
lemma dotName_cases {d n : Token} (hd : d.kind = .dot) (hn : n.kind ≠ .openParen) :
    (∀ us, dotName (d :: n :: us) = .ok (.name n.text, us)) ∨
      ∃ e, Blames e [d] n ∧ ∀ us, dotName (d :: n :: us) = .error e := by
  have hends : EndsIn [.dot] [d] := by simp [hd]
  simp only [dotName_cons_cons]
  cases hk : n.kind
  case identifier =>
    left
    intro us
    have hname : (Expr.name n.text).kind = .identifier := rfl
    rw [bind_of_ok (primary_cons_name hk us), if_pos hname, pure_apply]
  case null =>
    refine .inr ⟨.notAName n.position, ⟨hends, by simp [hk], rfl⟩, fun us => ?_⟩
    have hnull : Expr.null.kind ≠ .identifier := by decide
    rw [bind_of_ok (primary_cons_null hk us), if_neg hnull, refuse_apply]
  case number =>
    cases hx : Number.read? n.text with
    | none =>
      refine .inr ⟨.unexpected .number n, rfl, fun us => ?_⟩
      exact bind_of_error (primary_cons_badNumber hk hx us)
    | some x =>
      refine .inr ⟨.notAName n.position, ⟨hends, by simp [hk], rfl⟩, fun us => ?_⟩
      have hnumber : (Expr.number x).kind ≠ .identifier := by
        rw [Expr.kind]
        decide
      rw [bind_of_ok (primary_cons_number hk hx us), if_neg hnumber, refuse_apply]
  case openParen => exact absurd hk hn
  all_goals
    refine .inr ⟨.unexpected .expression n, rfl, fun us => ?_⟩
    exact bind_of_error (primary_cons_other (by simp [hk]) us)

/-- The name behind a dot is local, unless a parenthesis stands behind the dot. -/
lemma localAt_dotName {d : Token} {us : List Token} (hd : d.kind = .dot)
    (hus : ∀ n ∈ us.head?, n.kind ≠ .openParen) : LocalAt dotName (d :: us) := by
  cases us with
  | nil => exact localAt_of_outOfTokens rfl
  | cons n vs =>
    rcases dotName_cases hd (hus n rfl) with hname | ⟨e, hblame, hfail⟩
    · refine ⟨fun key rest hok => ?_, fun e herr _ => ?_⟩
      · rw [hname] at hok
        cases hok
        exact ⟨[d, n], rfl, fun us _ => hname us, .inl (hname [])⟩
      · rw [hname] at herr
        cases herr
    · refine ⟨fun key rest hok => ?_, fun e' herr _ => ?_⟩
      · rw [hfail] at hok
        cases hok
      · rw [hfail] at herr
        cases herr
        exact ⟨[d], n, vs, rfl, rfl, hfail, hblame⟩

/-! ## The rules are local -/

/-- Locality passes through the steps of the rules, on lists without parentheses behind dots. -/
lemma closed_localAt : Closed (fun t e => Blames e [] t)
    fun f ts => NoParenBehindDot ts → LocalAt f ts where
  pure a ts _ := localAt_pure a ts
  next_bind := by
    intro α g t us _ hg hts
    refine localAt_bind (localAt_next t us) fun a mid hok => ?_
    cases hok
    exact hg (List.isChain_cons.1 hts).2
  look := by
    intro α g ts h hts
    refine localAt_look fun t us heq => ?_
    rcases h t us heq with ⟨hg, -⟩ | ⟨e, he, hrefuse, -⟩
    · exact .inl (hg (heq ▸ hts))
    · exact .inr ⟨e, he, hrefuse⟩
  unexpected expected t _ := rfl
  bind := by
    intro α β f g ts hf hg hts
    refine localAt_bind (hf hts) fun a mid hok => hg a mid hok ?_
    obtain ⟨pre, rfl, -, -⟩ := (hf hts).ok a mid hok
    exact hts.of_append
  dotName := by
    intro d us hd _ hts
    exact localAt_dotName hd fun n hn => (List.isChain_cons.1 hts).1 n hn hd

/-- The violation of a constant without a value is found at its semicolon. -/
lemma missing_blames : Closed.Missing fun t e => Blames e [] t :=
  fun _ _ hsemi => ⟨hsemi, rfl⟩

/-- Expressions are local where no parenthesis stands behind a dot. -/
lemma localAt_assignment {ts : List Token} (h : NoParenBehindDot ts) : LocalAt assignment ts :=
  closed_localAt.assignment ts h

/-- Statements are local where no parenthesis stands behind a dot. -/
lemma localAt_statements {ts : List Token} (h : NoParenBehindDot ts) : LocalAt statements ts :=
  closed_localAt.statements missing_blames ts h

end Reader

end Scriptlet.Grammar
