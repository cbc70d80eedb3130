import Scriptlet.Proofs.Grammar.Derivation
import Scriptlet.Proofs.Grammar.Reader

/-!
# What the rules read is derivable

`Sound f Phrase ts` says that whatever the reader `f` reads off `ts` is a phrase in the sense of the
grammar, followed by what is left.  The main statements are `assignment_sound` and
`statements_sound`.

The rules call each other in a circle, but every way round the circle passes through `assignment`,
and on fewer tokens.  So it is enough to know `assignment` on lists shorter than `n`
(`SoundBelow n`) in order to go through the other rules one by one on lists of length `n`, from the
primary up, and to arrive at `assignment` again.  The tails of chains are inductions of their own: a
tail turns the phrase to its left into a longer one of the same sort.
-/

namespace Scriptlet.Grammar.Reader

/-- What `f` reads off `ts` is derivable. -/
def Sound {α : Type} (f : Reader α) (Phrase : List Token → α → Prop) (ts : List Token) : Prop :=
  ∀ a rest, f ts = .ok (a, rest) → ∃ pre, ts = pre ++ rest ∧ Phrase pre a

/-- What `assignment` reads off fewer than `n` tokens is derivable. -/
def SoundBelow (n : Nat) : Prop :=
  ∀ us : List Token, us.length < n → Sound assignment IsAssignment us

/-- Soundness below a length includes soundness below a smaller one. -/
lemma SoundBelow.mono {n m : Nat} (ih : SoundBelow n) (h : m ≤ n) : SoundBelow m :=
  fun us hus => ih us (Nat.lt_of_lt_of_le hus h)

/-! ## Primaries and members -/

/-- What `primary` reads is a primary with the tree it gives. -/
lemma primary_sound {ts : List Token} (ih : SoundBelow ts.length) :
    Sound primary IsPrimary ts := by
  intro e rest h
  cases ts with
  | nil => rw [primary_eq] at h; cases h
  | cons t us =>
    cases hk : t.kind
    case identifier =>
      rw [primary_cons_name hk] at h
      cases h
      exact ⟨[t], rfl, .name hk⟩
    case null =>
      rw [primary_cons_null hk] at h
      cases h
      exact ⟨[t], rfl, .null hk⟩
    case number =>
      cases hx : Number.read? t.text with
      | none => rw [primary_cons_badNumber hk hx] at h; cases h
      | some x =>
        rw [primary_cons_number hk hx] at h
        cases h
        exact ⟨[t], rfl, .number hk hx⟩
    case openParen =>
      rw [primary_cons_paren hk] at h
      obtain ⟨inner, mid, hinner, hclosing⟩ := bind_eq_ok.1 h
      obtain ⟨c, mid', hc, hpure⟩ := bind_eq_ok.1 hclosing
      cases hpure
      obtain ⟨pre, rfl, hpre⟩ := ih us (Nat.lt_succ_self _) e mid hinner
      obtain ⟨rfl, hclose⟩ := expect_eq_ok hc
      exact ⟨t :: (pre ++ [c]), by simp, .paren hk hpre hclose⟩
    all_goals
      rw [primary_cons_other (by simp [hk])] at h
      cases h

/-- A dot and a name behind it. -/
lemma dotName_sound {t : Token} {us rest : List Token} {key : Expr}
    (ih : SoundBelow us.length) (h : dotName (t :: us) = .ok (key, rest)) :
    ∃ pre, us = pre ++ rest ∧ IsWrappedName pre key := by
  rw [dotName, next_bind_cons] at h
  cases us with
  | nil => cases h
  | cons n vs =>
    rw [peek_bind_cons] at h
    obtain ⟨key', mid, hkey, hcheck⟩ := bind_eq_ok.1 h
    split_ifs at hcheck
    · cases hcheck
      obtain ⟨pre, hpre, hprimary⟩ := primary_sound ih _ _ hkey
      exact ⟨pre, hpre, hprimary.isWrappedName ‹_›⟩
    · cases hcheck

/-- A tail of accesses makes a longer member of a member. -/
lemma memberTail_sound {n : Nat} (ih : SoundBelow n) {left ts rest : List Token} {base e : Expr}
    (hts : ts.length ≤ n) (hbase : IsMember left base) (h : memberTail base ts = .ok (e, rest)) :
    ∃ pre, ts = pre ++ rest ∧ IsMember (left ++ pre) e := by
  induction hn : ts.length using Nat.strongRecOn generalizing ts left base with
  | ind m ihm =>
    rw [memberTail_eq] at h
    cases ts with
    | nil => cases h
    | cons t us =>
      rw [List.length_cons] at hn hts
      rw [peek_bind_cons] at h
      split_ifs at h with hdot hopen
      · obtain ⟨key, mid, hkey, htail⟩ := bind_eq_ok.1 h
        obtain ⟨pre, rfl, hname⟩ := dotName_sound (ih.mono (by omega)) hkey
        rw [List.length_append] at hn hts
        obtain ⟨pre', rfl, hlong⟩ :=
          ihm mid.length (by omega) (by omega) (hbase.dot hdot hname) htail rfl
        exact ⟨t :: (pre ++ pre'), by simp, by simpa using hlong⟩
      · rw [next_bind_cons] at h
        obtain ⟨key, mid, hkey, hclosing⟩ := bind_eq_ok.1 h
        obtain ⟨c, mid', hc, htail⟩ := bind_eq_ok.1 hclosing
        obtain ⟨pre, rfl, hpre⟩ := ih us (by omega) key mid hkey
        obtain ⟨rfl, hclose⟩ := expect_eq_ok hc
        rw [List.length_append, List.length_cons] at hn hts
        obtain ⟨pre', rfl, hlong⟩ :=
          ihm mid'.length (by omega) (by omega) (hbase.index hopen hpre hclose) htail rfl
        exact ⟨t :: (pre ++ c :: pre'), by simp, by simpa using hlong⟩
      · cases h
        exact ⟨[], rfl, by rwa [List.append_nil]⟩

/-- What `member` reads is a chain of accesses with the tree it gives. -/
lemma member_sound {ts : List Token} (ih : SoundBelow ts.length) : Sound member IsMember ts := by
  intro e rest h
  rw [member_eq] at h
  obtain ⟨first, mid, hfirst, htail⟩ := bind_eq_ok.1 h
  obtain ⟨pre, rfl, hpre⟩ := primary_sound ih first mid hfirst
  obtain ⟨pre', rfl, hmember⟩ := memberTail_sound ih (by simp) (.primary hpre) htail
  exact ⟨pre ++ pre', by simp, hmember⟩

/-! ## Calls -/

/-- A list of arguments ends with its closing parenthesis. -/
lemma argumentList_sound {n : Nat} (ih : SoundBelow n) {ts rest : List Token} {args : List Expr}
    (hts : ts.length < n) (h : argumentList ts = .ok (args, rest)) :
    ∃ pre c, ts = pre ++ c :: rest ∧ c.kind = .closeParen ∧ IsArguments pre args ∧ args ≠ [] := by
  induction hn : ts.length using Nat.strongRecOn generalizing ts args with
  | ind m ihm =>
    rw [argumentList_eq] at h
    obtain ⟨first, mid, hfirst, hmore⟩ := bind_eq_ok.1 h
    obtain ⟨pre, rfl, hpre⟩ := ih ts hts first mid hfirst
    cases mid with
    | nil => cases hmore
    | cons t us =>
      rw [List.length_append, List.length_cons] at hn hts
      rw [peek_bind_cons] at hmore
      split_ifs at hmore with hcomma hclose
      · rw [next_bind_cons] at hmore
        obtain ⟨others, mid', hothers, hpure⟩ := bind_eq_ok.1 hmore
        cases hpure
        obtain ⟨pre', c, rfl, hc, hargs, hne⟩ := ihm us.length (by omega) (by omega) hothers rfl
        exact ⟨pre ++ t :: pre', c, by simp, hc, .more hpre hcomma hargs hne, by simp⟩
      · cases hmore
        exact ⟨pre, t, rfl, hclose, .one hpre, by simp⟩
      · cases hmore

/-- What is read behind an opening parenthesis is a list of arguments and its parenthesis. -/
lemma argumentsTail_sound {n : Nat} (ih : SoundBelow n) {ts rest : List Token} {args : List Expr}
    (hts : ts.length < n) (h : argumentsTail ts = .ok (args, rest)) :
    ∃ pre c, ts = pre ++ c :: rest ∧ c.kind = .closeParen ∧ IsArguments pre args := by
  rw [argumentsTail_eq] at h
  cases ts with
  | nil => cases h
  | cons t us =>
    rw [peek_bind_cons] at h
    split_ifs at h with hclose
    · cases h
      exact ⟨[], t, rfl, hclose, .none⟩
    · obtain ⟨pre, c, heq, hc, hargs, -⟩ := argumentList_sound ih hts h
      exact ⟨pre, c, heq, hc, hargs⟩

/-- A tail of calls makes a longer call of a call. -/
lemma callTail_sound {n : Nat} (ih : SoundBelow n) {left ts rest : List Token} {callee e : Expr}
    (hts : ts.length ≤ n) (hcallee : IsCallMember left callee)
    (h : callTail callee ts = .ok (e, rest)) :
    ∃ pre, ts = pre ++ rest ∧ IsCallMember (left ++ pre) e := by
  induction hn : ts.length using Nat.strongRecOn generalizing ts left callee with
  | ind m ihm =>
    rw [callTail_eq_next] at h
    cases ts with
    | nil => cases h
    | cons t us =>
      rw [List.length_cons] at hn hts
      rw [peek_bind_cons] at h
      split_ifs at h with hopen
      · rw [next_bind_cons] at h
        obtain ⟨args, mid, hargs, htail⟩ := bind_eq_ok.1 h
        obtain ⟨pre, c, rfl, hc, hpre⟩ := argumentsTail_sound ih (by omega) hargs
        rw [List.length_append, List.length_cons] at hn hts
        obtain ⟨pre', rfl, hlong⟩ :=
          ihm mid.length (by omega) (by omega) (hcallee.call hopen hpre hc) htail rfl
        exact ⟨t :: (pre ++ c :: pre'), by simp, by simpa using hlong⟩
      · cases h
        exact ⟨[], rfl, by rwa [List.append_nil]⟩

/-- What `callMember` reads is a chain of calls with the tree it gives. -/
lemma callMember_sound {ts : List Token} (ih : SoundBelow ts.length) :
    Sound callMember IsCallMember ts := by
  intro e rest h
  rw [callMember_eq] at h
  obtain ⟨callee, mid, hcallee, htail⟩ := bind_eq_ok.1 h
  obtain ⟨pre, rfl, hpre⟩ := member_sound ih callee mid hcallee
  obtain ⟨pre', rfl, hcall⟩ := callTail_sound ih (by simp) (.member hpre) htail
  exact ⟨pre ++ pre', by simp, hcall⟩

/-! ## Chains of operators -/

/-- A tail of operands makes a longer chain of a chain.  This covers sums and products: `Chain` and
`Operand` are the two relations of the grammar, and `hmore` is the production that joins them. -/
lemma chainTail_sound {level : Operator.Level} {n : Nat}
    {Chain Operand : List Token → Expr → Prop}
    (hop : ∀ us : List Token, us.length < n → Sound (operand level) Operand us)
    (hmore : ∀ {ts us t op l r}, Chain ts l → t.kind = .operator → t.text = op.symbol →
      op.level = level → Operand us r → Chain (ts ++ t :: us) (.binary op l r))
    {left ts rest : List Token} {l e : Expr} (hts : ts.length ≤ n) (hl : Chain left l)
    (h : chainTail level l ts = .ok (e, rest)) :
    ∃ pre, ts = pre ++ rest ∧ Chain (left ++ pre) e := by
  induction hn : ts.length using Nat.strongRecOn generalizing ts left l with
  | ind m ihm =>
    rw [chainTail_eq] at h
    cases ts with
    | nil => cases h
    | cons t us =>
      rw [List.length_cons] at hn hts
      rw [peek_bind_cons] at h
      cases hopt : t.operatorAt? level with
      | none =>
        simp only [hopt] at h
        cases h
        exact ⟨[], rfl, by rwa [List.append_nil]⟩
      | some op =>
        simp only [hopt, next_bind_cons] at h
        obtain ⟨hk, htext, hlevel⟩ := operatorAt?_eq_some_iff.1 hopt
        obtain ⟨r, mid, hr, htail⟩ := bind_eq_ok.1 h
        obtain ⟨pre, rfl, hpre⟩ := hop us (by omega) r mid hr
        rw [List.length_append] at hn hts
        have hpos : 0 < pre.length := by
          have := operand_length_lt hr
          rw [List.length_append] at this
          omega
        obtain ⟨pre', rfl, hlong⟩ :=
          ihm mid.length (by omega) (by omega) (hmore hl hk htext hlevel hpre) htail rfl
        exact ⟨t :: (pre ++ pre'), by simp, by simpa using hlong⟩

/-- What `multiplicative` reads is a product with the tree it gives. -/
lemma multiplicative_sound {ts : List Token} (ih : SoundBelow ts.length) :
    Sound multiplicative IsMultiplicative ts := by
  intro e rest h
  rw [multiplicative_eq] at h
  obtain ⟨first, mid, hfirst, htail⟩ := bind_eq_ok.1 h
  obtain ⟨pre, rfl, hpre⟩ := callMember_sound ih first mid hfirst
  have hop : ∀ us : List Token, us.length < (pre ++ mid).length →
      Sound (operand .product) IsCallMember us :=
    fun us hus => callMember_sound (ih.mono (Nat.le_of_lt hus))
  obtain ⟨pre', rfl, hchain⟩ :=
    chainTail_sound hop IsMultiplicative.more (by simp) (IsMultiplicative.one hpre) htail
  exact ⟨pre ++ pre', by simp, hchain⟩

/-- What `additive` reads is a sum with the tree it gives. -/
lemma additive_sound {ts : List Token} (ih : SoundBelow ts.length) :
    Sound additive IsAdditive ts := by
  intro e rest h
  rw [additive_eq] at h
  obtain ⟨first, mid, hfirst, htail⟩ := bind_eq_ok.1 h
  obtain ⟨pre, rfl, hpre⟩ := multiplicative_sound ih first mid hfirst
  have hop : ∀ us : List Token, us.length < (pre ++ mid).length →
      Sound (operand .sum) IsMultiplicative us :=
    fun us hus => multiplicative_sound (ih.mono (Nat.le_of_lt hus))
  obtain ⟨pre', rfl, hchain⟩ :=
    chainTail_sound hop IsAdditive.more (by simp) (IsAdditive.one hpre) htail
  exact ⟨pre ++ pre', by simp, hchain⟩

/-- A sum leaves a token that opens no call. -/
lemma additive_rest {e : Expr} {ts rest : List Token} (h : additive ts = .ok (e, rest)) :
    ∃ t us, rest = t :: us ∧ t.kind ≠ .openParen := by
  rw [additive_eq] at h
  obtain ⟨first, mid, hfirst, htail⟩ := bind_eq_ok.1 h
  obtain ⟨t, us, rfl, ht⟩ := multiplicative_rest hfirst
  rw [chainTail] at htail
  exact operatorTail_rest operand_rest ⟨t, us, rfl, ht⟩ htail

/-! ## Objects and assignments -/

/-- A property, and the comma behind it if there is one. -/
lemma property_sound {n : Nat} (ih : SoundBelow n) {ts rest : List Token} {p : Property}
    (hts : ts.length ≤ n) (h : property ts = .ok (p, rest)) :
    ∃ pre, IsProperty pre p ∧
      ((∃ c, ts = pre ++ c :: rest ∧ c.kind = .comma) ∨
        (ts = pre ++ rest ∧ StartsIn [.closeBrace] rest)) := by
  rw [property_eq] at h
  obtain ⟨key, mid, hkey, hafter⟩ := bind_eq_ok.1 h
  obtain ⟨rfl, hname⟩ := expect_eq_ok hkey
  rw [List.length_cons] at hts
  cases mid with
  | nil => cases hafter
  | cons t us =>
    rw [peek_bind_cons] at hafter
    split_ifs at hafter with hcomma hclose
    · cases hafter
      exact ⟨[key], .shorthand hname, .inl ⟨t, rfl, hcomma⟩⟩
    · cases hafter
      exact ⟨[key], .shorthand hname, .inr ⟨rfl, by simp [hclose]⟩⟩
    · obtain ⟨c, mid, hc, hgiven⟩ := bind_eq_ok.1 hafter
      obtain ⟨heq, hcolon⟩ := expect_eq_ok hc
      cases heq
      obtain ⟨value, mid, hvalue, hend⟩ := bind_eq_ok.1 hgiven
      rw [List.length_cons] at hts
      obtain ⟨pre, rfl, hpre⟩ := ih us (by omega) value mid hvalue
      cases mid with
      | nil => cases hend
      | cons d vs =>
        rw [peek_bind_cons] at hend
        split_ifs at hend with hbrace
        · cases hend
          exact ⟨key :: t :: pre, .pair hname hcolon hpre, .inr ⟨by simp, by simp [hbrace]⟩⟩
        · obtain ⟨d', mid, hd, hpure⟩ := bind_eq_ok.1 hend
          cases hpure
          obtain ⟨heq, hcomma'⟩ := expect_eq_ok hd
          cases heq
          exact ⟨key :: t :: pre, .pair hname hcolon hpre, .inl ⟨d, by simp, hcomma'⟩⟩

/-- The properties of an object, up to its end. -/
lemma properties_sound {n : Nat} (ih : SoundBelow n) {ts rest : List Token} {ps : List Property}
    (hts : ts.length ≤ n) (h : properties ts = .ok (ps, rest)) :
    ∃ pre, ts = pre ++ rest ∧ IsProperties pre ps := by
  induction hn : ts.length using Nat.strongRecOn generalizing ts ps with
  | ind m ihm =>
    rw [properties_eq] at h
    cases ts with
    | nil => cases h
    | cons t us =>
      rw [peek_bind_cons] at h
      split_ifs at h with hstop
      · cases h
        exact ⟨[], rfl, .none⟩
      · obtain ⟨p, mid, hp, hmore⟩ := bind_eq_ok.1 h
        obtain ⟨ps', mid', hps, hpure⟩ := bind_eq_ok.1 hmore
        cases hpure
        have hlt : mid.length < (t :: us).length := length_lt_of_ofRule hp
        obtain ⟨pre, hpre, ⟨c, heq, hcomma⟩ | ⟨heq, hbrace⟩⟩ := property_sound ih hts hp
        · obtain ⟨pre', rfl, hpre'⟩ := ihm mid.length (by omega) (by omega) hps rfl
          exact ⟨pre ++ c :: pre', by simp [heq], .more hpre hcomma hpre'⟩
        · -- without a comma the closing brace comes next, and nothing is read in front of it
          obtain ⟨d, vs, rfl, hd⟩ := hbrace
          rw [properties_cons_closeBrace (List.mem_singleton.1 hd)] at hps
          cases hps
          exact ⟨pre, heq, .last hpre⟩

/-- What `object` reads is an object or a sum, and does not run on into what is left. -/
lemma object_sound {ts rest : List Token} {e : Expr} (ih : SoundBelow ts.length)
    (h : object ts = .ok (e, rest)) :
    ∃ pre, ts = pre ++ rest ∧ IsObject pre e ∧ ¬ Glues pre rest := by
  rw [object_eq] at h
  cases ts with
  | nil => cases h
  | cons t us =>
    rw [peek_bind_cons] at h
    split_ifs at h with hopen
    · rw [next_bind_cons] at h
      obtain ⟨ps, mid, hps, hclosing⟩ := bind_eq_ok.1 h
      obtain ⟨c, mid', hc, hpure⟩ := bind_eq_ok.1 hclosing
      cases hpure
      obtain ⟨rfl, hclose⟩ := expect_eq_ok hc
      obtain ⟨pre, rfl, hpre⟩ := properties_sound ih (Nat.le_succ _) hps
      refine ⟨t :: (pre ++ [c]), by simp, .braces hopen hpre hclose, fun hglue => hglue.1 ?_⟩
      exact EndsIn.cons (by simp [hclose]) t
    · obtain ⟨pre, heq, hpre⟩ := additive_sound ih e rest h
      obtain ⟨c, vs, rfl, hc⟩ := additive_rest h
      exact ⟨pre, heq, .additive hpre, fun hglue => hc (by simpa using hglue.2)⟩

/-- A phrase that ends with another one runs on only where that one does. -/
lemma not_glues_append (ts : List Token) {us rest : List Token} (h : ¬ Glues us rest) :
    ¬ Glues (ts ++ us) rest :=
  fun hglue => h ⟨fun hends => hglue.1 (hends.append_left ts), hglue.2⟩

/-- What `assignment` reads is an assignment, and does not run on into what is left. -/
lemma assignment_sound {ts rest : List Token} {e : Expr} (h : assignment ts = .ok (e, rest)) :
    ∃ pre, ts = pre ++ rest ∧ IsAssignment pre e ∧ ¬ Glues pre rest := by
  induction hn : ts.length using Nat.strongRecOn generalizing ts rest e with
  | ind n ihn =>
    have ih : SoundBelow ts.length := by
      intro us hus a rest' ha
      obtain ⟨pre, heq, hpre, -⟩ := ihn us.length (by omega) ha rfl
      exact ⟨pre, heq, hpre⟩
    rw [assignment_eq] at h
    obtain ⟨target, mid, htarget, hafter⟩ := bind_eq_ok.1 h
    obtain ⟨pre, rfl, hpre, hglue⟩ := object_sound ih htarget
    cases mid with
    | nil => cases hafter
    | cons t us =>
      rw [peek_bind_cons] at hafter
      split_ifs at hafter with hequals
      · rw [next_bind_cons] at hafter
        obtain ⟨value, mid', hvalue, hpure⟩ := bind_eq_ok.1 hafter
        cases hpure
        rw [List.length_append, List.length_cons] at hn
        obtain ⟨pre', rfl, hpre', hglue'⟩ := ihn us.length (by omega) hvalue rfl
        refine ⟨pre ++ t :: pre', by simp, .assign hpre hequals hpre', ?_⟩
        rw [List.append_cons]
        exact not_glues_append _ hglue'
      · cases hafter
        exact ⟨pre, rfl, .object hpre, hglue⟩

/-! ## Statements -/

/-- Behind the word that opens it, a declaration reads a name and perhaps a value. -/
lemma declarationTail_sound {w : Token} {ts rest : List Token} {s : Statement}
    (hw : w.kind = .letWord ∨ w.kind = .constWord)
    (h : declarationTail (w.kind = .constWord) ts = .ok (s, rest)) :
    ∃ pre, ts = pre ++ rest ∧ IsDeclaration (w :: pre) s := by
  rw [declarationTail_eq] at h
  obtain ⟨name, mid, hname, hafter⟩ := bind_eq_ok.1 h
  obtain ⟨rfl, hident⟩ := expect_eq_ok hname
  cases mid with
  | nil => cases hafter
  | cons t us =>
    rw [peek_bind_cons] at hafter
    split_ifs at hafter with hsemi hconst
    · cases hafter
    · cases hafter
      have hlet : w.kind = .letWord := hw.resolve_right (by simpa using hconst)
      exact ⟨[name, t], rfl, .bare hlet hident hsemi⟩
    · obtain ⟨q, mid, hq, hgiven⟩ := bind_eq_ok.1 hafter
      obtain ⟨heq, hequals⟩ := expect_eq_ok hq
      cases heq
      obtain ⟨value, mid, hvalue, hclosing⟩ := bind_eq_ok.1 hgiven
      obtain ⟨c, mid', hc, hpure⟩ := bind_eq_ok.1 hclosing
      cases hpure
      obtain ⟨pre, rfl, hpre, -⟩ := assignment_sound hvalue
      obtain ⟨rfl, hsemi'⟩ := expect_eq_ok hc
      refine ⟨name :: t :: (pre ++ [c]), by simp, ?_⟩
      rcases hw with hlet | hconst
      · simpa [hlet] using IsDeclaration.mutable hlet hident hequals hpre hsemi'
      · simpa [hconst] using IsDeclaration.constant hconst hident hequals hpre hsemi'

/-- What `statement` reads is a statement, and does not run on into what is left. -/
lemma statement_sound {ts rest : List Token} {s : Statement} (h : statement ts = .ok (s, rest)) :
    ∃ pre, ts = pre ++ rest ∧ IsStatement pre s ∧ ¬ Glues pre rest := by
  rw [statement_eq_next] at h
  cases ts with
  | nil => cases h
  | cons t us =>
    rw [peek_bind_cons] at h
    split_ifs at h with hword
    · rw [next_bind_cons] at h
      obtain ⟨pre, rfl, hpre⟩ := declarationTail_sound hword h
      have hends : EndsIn [.semicolon, .closeBrace] (t :: pre) := hpre.endsIn.mono (by simp)
      exact ⟨t :: pre, rfl, .declaration hpre, fun hglue => hglue.1 hends⟩
    · obtain ⟨e, mid, he, hafter⟩ := bind_eq_ok.1 h
      obtain ⟨pre, heq, hpre, hglue⟩ := assignment_sound he
      cases mid with
      | nil => cases hafter
      | cons c vs =>
        rw [peek_bind_cons] at hafter
        split_ifs at hafter with hsemi
        · cases hafter
          refine ⟨pre ++ [c], by simp [heq], .closed hpre hsemi, fun hglue => hglue.1 ?_⟩
          simp [hsemi]
        · cases hafter
          exact ⟨pre, heq, .expr hpre, hglue⟩

/-- What `statements` reads are statements, up to an end marker. -/
lemma statements_sound {ts rest : List Token} {ss : List Statement}
    (h : statements ts = .ok (ss, rest)) :
    ∃ pre, ts = pre ++ rest ∧ IsStatements pre ss ∧ StartsIn [.endOfInput] rest := by
  induction hn : ts.length using Nat.strongRecOn generalizing ts ss with
  | ind n ih =>
    rw [statements_eq] at h
    cases ts with
    | nil => cases h
    | cons t us =>
      rw [peek_bind_cons] at h
      split_ifs at h with hend
      · cases h
        exact ⟨[], rfl, .none, by simp [hend]⟩
      · obtain ⟨s, mid, hs, hmore⟩ := bind_eq_ok.1 h
        obtain ⟨ss', mid', hss, hpure⟩ := bind_eq_ok.1 hmore
        cases hpure
        have hlt : mid.length < (t :: us).length := length_lt_of_ofRule hs
        obtain ⟨pre, heq, hpre, hglue⟩ := statement_sound hs
        obtain ⟨pre', rfl, hpre', hrest⟩ := ih mid.length (by omega) hss rfl
        refine ⟨pre ++ pre', by simp [heq], .more hpre hpre' fun hglue' => ?_, hrest⟩
        exact hglue ⟨hglue'.1, hglue'.2.append rest⟩

end Scriptlet.Grammar.Reader
