import Scriptlet.Proofs.Grammar.Completion
import Scriptlet.Proofs.Grammar.Soundness

/-!
# Violations are reported where the grammar is first violated

A token list that is no program has a first token with which it cannot go on: the tokens in front of
it are the beginning of a program, and with it they are the beginning of none.  Locality and
completion together show that this is the token at which the parser reports a violation, apart from
parentheses behind a dot (see `NoParenBehindDot`).

The other two violations name more than one token.  A constant without a value is the three tokens
of its declaration, and what is wrong behind a dot is the token there.  These are said once more in
terms of the list, and also that no further token can take such a violation back.
-/

namespace Scriptlet.Grammar

namespace Reader

/-! ## Constants without a value -/

/-- Expressions hold no declarations, so that no constant in them lacks a value. -/
lemma closed_noMissingValue : Closed (fun _ e => ∀ name p, e ≠ .missingValue name p)
    fun f ts => ∀ name p, f ts ≠ .error (.missingValue name p) where
  pure := by
    intro α a ts name p h
    cases h
  next_bind := by
    intro α g t us _ hg
    exact hg
  look := by
    intro α g ts hg name p h
    cases ts with
    | nil => cases h
    | cons t us =>
      rcases hg t us rfl with ⟨hok, -⟩ | ⟨e, he, hrefuse, -⟩
      · exact hok name p h
      · rw [peek_bind_cons, hrefuse] at h
        cases h
        exact he name p rfl
  unexpected := by
    intro expected t _ name p h
    cases h
  bind := by
    intro α β f g ts hf hg name p h
    rcases bind_eq_error.1 h with herr | ⟨a, mid, hok, herr⟩
    · exact hf name p herr
    · exact hg a mid hok name p herr
  dotName := by
    intro d us _ hprimary name p h
    cases us with
    | nil => cases h
    | cons n vs =>
      rw [dotName_cons_cons] at h
      rcases bind_eq_error.1 h with herr | ⟨key, mid, -, hcheck⟩
      · exact hprimary name p herr
      · split_ifs at hcheck
        · cases hcheck
        · cases hcheck

/-- The three tokens of a constant without a value. -/
structure IsBareConstant (w n s : Token) (name : String) (p : Position) : Prop where
  /-- The word that opens the declaration. -/
  word : w.kind = .constWord
  /-- The name of the constant. -/
  isName : n.kind = .identifier
  /-- The violation tells the name. -/
  name_eq : n.text = name
  /-- The semicolon in place of the value. -/
  semicolon : s.kind = .semicolon
  /-- The violation tells the place of the semicolon. -/
  position_eq : s.position = p

/-- A value is missed in constants only, at the semicolon directly behind the name. -/
lemma declarationTail_missingValue {constant : Bool} {ts : List Token} {name : String}
    {p : Position} (h : declarationTail constant ts = .error (.missingValue name p)) :
    constant = true ∧ ∃ n s us, ts = n :: s :: us ∧ n.kind = .identifier ∧ n.text = name ∧
      s.kind = .semicolon ∧ s.position = p := by
  rw [declarationTail_eq] at h
  rcases bind_eq_error.1 h with herr | ⟨n, mid, hn, hafter⟩
  · rcases expect_eq_error herr with hout | ⟨t, hunexpected⟩
    · cases hout
    · cases hunexpected
  obtain ⟨rfl, hname⟩ := expect_eq_ok hn
  cases mid with
  | nil => cases hafter
  | cons s us =>
    rw [peek_bind_cons] at hafter
    split_ifs at hafter with hsemi hconst
    · cases hafter
      exact ⟨hconst, n, s, us, rfl, hname, rfl, hsemi, rfl⟩
    · cases hafter
    · -- What follows the name is a value, and there is no declaration in it.
      refine absurd hafter
        (closed_noMissingValue.expect_bind (by decide) (fun _ _ => rfl) (fun _ vs _ _ => ?_) name p)
      refine closed_noMissingValue.bind (closed_noMissingValue.assignment vs) fun _ _ _ => ?_
      exact closed_noMissingValue.expect_bind (by decide) (fun _ _ => rfl) fun _ _ _ _ =>
        closed_noMissingValue.pure _ _

/-- A statement that misses a value starts as a constant without one. -/
lemma statement_missingValue {ts : List Token} {name : String} {p : Position}
    (h : statement ts = .error (.missingValue name p)) :
    ∃ w n s us, ts = w :: n :: s :: us ∧ IsBareConstant w n s name p := by
  rw [statement_eq_next] at h
  cases ts with
  | nil => cases h
  | cons w vs =>
    rw [peek_bind_cons] at h
    split_ifs at h with hword
    · rw [next_bind_cons] at h
      obtain ⟨hconst, n, s, us, rfl, hname, htext, hsemi, hp⟩ := declarationTail_missingValue h
      have hw : w.kind = .constWord := of_decide_eq_true hconst
      exact ⟨w, n, s, us, rfl, hw, hname, htext, hsemi, hp⟩
    · refine absurd h (closed_noMissingValue.bind (closed_noMissingValue.assignment _)
        (fun _ mid _ => ?_) name p)
      refine closed_noMissingValue.peek_bind (fun _ _ => rfl) fun c _ _ => ?_
      split_ifs with hsemi
      · exact closed_noMissingValue.next_bind (by simp [hsemi]) (closed_noMissingValue.pure _ _)
      · exact closed_noMissingValue.pure _ _

/-- A constant without a value is three tokens in a row. -/
lemma statements_missingValue {ts : List Token} {name : String} {p : Position}
    (h : statements ts = .error (.missingValue name p)) :
    ∃ pre w n s us, ts = pre ++ w :: n :: s :: us ∧ IsBareConstant w n s name p := by
  induction hn : ts.length using Nat.strongRecOn generalizing ts with
  | ind m ih =>
    rw [statements_eq] at h
    cases ts with
    | nil => cases h
    | cons t us =>
      rw [peek_bind_cons] at h
      split_ifs at h with hend
      · cases h
      · rcases bind_eq_error.1 h with herr | ⟨first, mid, hfirst, hmore⟩
        · obtain ⟨w, n, s, vs, heq, hbare⟩ := statement_missingValue herr
          exact ⟨[], w, n, s, vs, heq, hbare⟩
        · have hlt : mid.length < (t :: us).length := length_lt_of_ofRule hfirst
          obtain ⟨pre, heq, -, -⟩ := statement_sound hfirst
          rcases bind_eq_error.1 hmore with herr | ⟨ss, mid', -, hpure⟩
          · obtain ⟨pre', w, n, s, vs, rfl, hbare⟩ := ih mid.length (by omega) herr rfl
            exact ⟨pre ++ pre', w, n, s, vs, by rw [heq, List.append_assoc], hbare⟩
          · cases hpure

end Reader

/-! ## The token to blame -/

/-- The end marker that a list gets opens no parenthesis. -/
lemma NoParenBehindDot.withEndMarker {ts : List Token} (h : NoParenBehindDot ts) :
    NoParenBehindDot (withEndMarker ts) := by
  rcases withEndMarker_eq ts with heq | ⟨q, heq⟩
  · rw [heq]
    exact h
  · rw [heq]
    have hmarker : (Token.endMarker q).kind ≠ .openParen := nofun
    refine List.isChain_append.2 ⟨h, List.isChain_singleton _, ?_⟩
    rintro t - m ⟨⟩ -
    exact hmarker

/-- A token that is no end marker stands in the list itself. -/
lemma exists_eq_append_of_kind_ne {ts pre suf : List Token} {t : Token}
    (h : withEndMarker ts = pre ++ t :: suf) (ht : t.kind ≠ .endOfInput) :
    ∃ post, ts = pre ++ t :: post := by
  rcases withEndMarker_eq ts with heq | ⟨q, heq⟩
  · exact ⟨suf, heq.symm.trans h⟩
  · rw [heq] at h
    rcases List.eq_nil_or_concat suf with rfl | ⟨post, m, rfl⟩
    · obtain ⟨-, hlast⟩ := List.append_inj' h rfl
      cases hlast
      exact absurd rfl ht
    · rw [List.concat_eq_append, ← List.cons_append, ← List.append_assoc] at h
      obtain ⟨hts, -⟩ := List.append_inj' h rfl
      exact ⟨post, hts⟩

/-- A violation is found at a token that no program has behind the tokens in front of it, while
those are the beginning of a program. -/
lemma exists_blamed {ts : List Token} {e : ParseError} (hts : NoParenBehindDot ts)
    (h : parseTokens ts = .error e) (he : e ≠ .outOfTokens) :
    ∃ pre t suf, withEndMarker ts = pre ++ t :: suf ∧ Blames e pre t ∧
      (∀ us, parseTokens (pre ++ t :: us) = .error e) ∧
      ∃ us p, parseTokens (pre ++ us) = .ok p := by
  have hread := Reader.parseTokens_eq_error_iff.1 h
  obtain ⟨pre, t, suf, heq, hout, hpre, hblame⟩ :=
    (Reader.localAt_statements hts.withEndMarker).error e hread he
  refine ⟨pre, t, suf, heq, hblame, fun us => ?_, ?_⟩
  · rw [Reader.parseTokens_eq_error_iff]
    rcases withEndMarker_eq (pre ++ t :: us) with hmark | ⟨q, hmark⟩
    · rw [hmark, hpre]
    · rw [hmark, List.append_assoc, List.cons_append, hpre]
  · have hbefore : NoParenBehindDot pre := by
      have hall := hts.withEndMarker
      rw [heq] at hall
      exact List.IsChain.left_of_append hall
    obtain ⟨us, ss, hus⟩ := Reader.statements_completable pre hbefore hout
    refine ⟨us ++ [.endMarker .start], ⟨ss⟩, Reader.parseTokens_eq_ok_iff.2
      ⟨[.endMarker .start], ?_⟩⟩
    rw [← List.append_assoc, withEndMarker_concat _ rfl, List.append_assoc]
    exact hus (.endMarker .start) [] rfl

/-- A violation stays with more tokens at the end of the list, if it is found at a token of the
list. -/
lemma parseTokens_append_of_blamed {ts pre suf : List Token} {t : Token} {e : ParseError}
    (heq : withEndMarker ts = pre ++ t :: suf) (ht : t.kind ≠ .endOfInput)
    (h : ∀ us, parseTokens (pre ++ t :: us) = .error e) (us : List Token) :
    parseTokens (ts ++ us) = .error e := by
  obtain ⟨post, rfl⟩ := exists_eq_append_of_kind_ne heq ht
  rw [List.append_assoc, List.cons_append, h]

/-- A token that is not expected is one with which no program goes on behind the tokens in front of
it, which are the beginning of a program. -/
lemma parseTokens_unexpected {ts : List Token} {expected : Expectation} {found : Token}
    (hts : NoParenBehindDot ts) (h : parseTokens ts = .error (.unexpected expected found)) :
    ∃ i, (withEndMarker ts)[i]? = some found ∧
      (∀ us p, parseTokens ((withEndMarker ts).take (i + 1) ++ us) ≠ .ok p) ∧
      ∃ us p, parseTokens ((withEndMarker ts).take i ++ us) = .ok p := by
  obtain ⟨pre, t, suf, heq, rfl, hfail, hgo⟩ := exists_blamed hts h nofun
  have htake : (withEndMarker ts).take (pre.length + 1) = pre ++ [found] := by
    rw [heq, List.append_cons, List.take_left']
    simp
  refine ⟨pre.length, ?_, fun us p hok => ?_, ?_⟩
  · rw [heq, List.getElem?_append_right (Nat.le_refl _), Nat.sub_self, List.getElem?_cons_zero]
  · rw [htake, List.append_assoc, List.singleton_append, hfail] at hok
    cases hok
  · rw [heq, List.take_left' rfl]
    exact hgo

/-- A constant without a value is three tokens in a row, and no further tokens give it one. -/
lemma parseTokens_missingValue {ts : List Token} {name : String} {position : Position}
    (hts : NoParenBehindDot ts) (h : parseTokens ts = .error (.missingValue name position)) :
    (∃ pre w n s post, ts = pre ++ w :: n :: s :: post ∧ w.kind = .constWord ∧
      n.kind = .identifier ∧ n.text = name ∧ s.kind = .semicolon ∧ s.position = position) ∧
    ∀ us, parseTokens (ts ++ us) = .error (.missingValue name position) := by
  obtain ⟨pre, t, suf, heq, ⟨hsemi, -⟩, hfail, -⟩ := exists_blamed hts h nofun
  refine ⟨?_, parseTokens_append_of_blamed heq (by simp [hsemi]) hfail⟩
  obtain ⟨pre', w, n, s, us, heq', hbare⟩ :=
    Reader.statements_missingValue (Reader.parseTokens_eq_error_iff.1 h)
  have hsplit : withEndMarker ts = (pre' ++ [w, n]) ++ s :: us := by
    rw [heq', List.append_assoc]
    rfl
  obtain ⟨post, rfl⟩ := exists_eq_append_of_kind_ne hsplit (by simp [hbare.semicolon])
  refine ⟨pre', w, n, s, post, ?_, hbare.word, hbare.isName, hbare.name_eq, hbare.semicolon,
    hbare.position_eq⟩
  rw [List.append_assoc]
  rfl

/-- A token that is no name stands behind a dot, and no further tokens make it one. -/
lemma parseTokens_notAName {ts : List Token} {position : Position} (hts : NoParenBehindDot ts)
    (h : parseTokens ts = .error (.notAName position)) :
    (∃ pre d t post, ts = pre ++ d :: t :: post ∧ d.kind = .dot ∧ t.position = position) ∧
    ∀ us, parseTokens (ts ++ us) = .error (.notAName position) := by
  obtain ⟨pre, t, suf, heq, ⟨hdot, ht, hposition⟩, hfail, -⟩ := exists_blamed hts h nofun
  refine ⟨?_, parseTokens_append_of_blamed heq ht hfail⟩
  obtain ⟨post, rfl⟩ := exists_eq_append_of_kind_ne heq ht
  obtain ⟨pre', d, rfl, hd⟩ := hdot
  refine ⟨pre', d, t, post, ?_, List.mem_singleton.1 hd, hposition.symm⟩
  rw [List.append_assoc]
  rfl

/-- Violations are reported where the grammar is first violated. -/
theorem parseTokens_error_at_first_violation (ts : List Token) (hts : NoParenBehindDot ts) :
    (∀ expected found, parseTokens ts = .error (.unexpected expected found) →
      ∃ i, (withEndMarker ts)[i]? = some found ∧
        (∀ us p, parseTokens ((withEndMarker ts).take (i + 1) ++ us) ≠ .ok p) ∧
        ∃ us p, parseTokens ((withEndMarker ts).take i ++ us) = .ok p) ∧
    (∀ name position, parseTokens ts = .error (.missingValue name position) →
      (∃ pre w n s post, ts = pre ++ w :: n :: s :: post ∧ w.kind = .constWord ∧
        n.kind = .identifier ∧ n.text = name ∧ s.kind = .semicolon ∧ s.position = position) ∧
      ∀ us, parseTokens (ts ++ us) = .error (.missingValue name position)) ∧
    (∀ position, parseTokens ts = .error (.notAName position) →
      (∃ pre d t post, ts = pre ++ d :: t :: post ∧ d.kind = .dot ∧ t.position = position) ∧
      ∀ us, parseTokens (ts ++ us) = .error (.notAName position)) := by
  refine ⟨?_, ?_, ?_⟩
  · intro expected found h
    exact parseTokens_unexpected hts h
  · intro name position h
    exact parseTokens_missingValue hts h
  · intro position h
    exact parseTokens_notAName hts h

/-- A number cannot be declared: here the tokens of `let 1`. -/
theorem parseTokens_error_declared_number :
    let w : Token := ⟨.letWord, "let", ⟨1, 1⟩⟩
    let x : Token := ⟨.number, "1", ⟨1, 5⟩⟩
    NoParenBehindDot [w, x] ∧
      parseTokens [w, x] = .error (.unexpected .declaredName x) ∧
      ∃ i, (withEndMarker [w, x])[i]? = some x ∧
        (∀ us p, parseTokens ((withEndMarker [w, x]).take (i + 1) ++ us) ≠ .ok p) ∧
        ∃ us p, parseTokens ((withEndMarker [w, x]).take i ++ us) = .ok p := by
  intro w x
  have hts : NoParenBehindDot [w, x] := by
    simp [NoParenBehindDot, w]
  have hstatement : Reader.statement [w, x, .endMarker x.finish] =
      .error (.unexpected .declaredName x) := by
    rw [Reader.statement_eq_next, Reader.peek_bind_cons, if_pos (.inl rfl), Reader.next_bind_cons,
      Reader.declarationTail_eq]
    rfl
  have herror : parseTokens [w, x] = .error (.unexpected .declaredName x) := by
    rw [Reader.parseTokens_eq_error_iff]
    change Reader.statements [w, x, .endMarker x.finish] = _
    rw [Reader.statements_eq, Reader.peek_bind_cons, if_neg (by decide)]
    exact Reader.bind_of_error hstatement
  exact ⟨hts, herror, (parseTokens_error_at_first_violation [w, x] hts).1 _ _ herror⟩

end Scriptlet.Grammar
