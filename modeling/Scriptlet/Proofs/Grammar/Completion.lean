import Scriptlet.Proofs.Grammar.Completeness
import Scriptlet.Proofs.Grammar.Locality

/-!
# Tokens that run out can be gone on with

When a rule runs out of tokens, the tokens it has got so far are the beginning of something that it
reads: `Completable K f ts` says that there are tokens to put behind `ts` with which `f` succeeds,
in front of any token that satisfies `K`.  The main statement is `statements_completable`.

The tokens to add are found by going through the steps of a rule.  If a later part of a sequence ran
out, what completes that part completes the sequence, because the first part does the same on the
longer list (`LocalAt.ok_append`).  If the first part ran out, it is completed and the other parts
are given as little as they take: `Ends J K g` says that the reader `g`, run behind tokens that stop
in front of any `J`, can be brought to an end.
-/

namespace Scriptlet.Grammar.Reader

variable {α β : Type} {J K : Token → Prop}

/-! ## Completions -/

/-- There are tokens that make `f` succeed behind `ts`, and in front of any token that satisfies
`K`. -/
def Completes (K : Token → Prop) (f : Reader α) (ts : List Token) : Prop :=
  ∃ us a, ∀ t k, K t → f (ts ++ (us ++ t :: k)) = .ok (a, t :: k)

/-- If `f` runs out of tokens on `ts`, these can be gone on with. -/
def Completable (K : Token → Prop) (f : Reader α) (ts : List Token) : Prop :=
  NoParenBehindDot ts → f ts = .error .outOfTokens → Completes K f ts

/-- There are tokens, the first of which satisfies `J`, on which `g` succeeds in front of any token
that satisfies `K`. -/
def Ends (J K : Token → Prop) (g : Reader α) : Prop :=
  ∃ us a, ∀ t k, K t → ∃ t' k', us ++ t :: k = t' :: k' ∧ J t' ∧ g (t' :: k') = .ok (a, t :: k)

/-- What brings a reader to an end completes the empty list. -/
lemma Ends.completes {g : Reader α} (h : Ends J K g) : Completes K g [] := by
  obtain ⟨us, a, hus⟩ := h
  refine ⟨us, a, fun t k ht => ?_⟩
  obtain ⟨t', k', heq, -, hg⟩ := hus t k ht
  rw [List.nil_append, heq, hg]

/-- A reader that stops at once needs no token. -/
lemma ends_of_stops {g : Reader α} {a : α} (hJ : ∀ t, K t → J t)
    (h : ∀ t k, K t → g (t :: k) = .ok (a, t :: k)) : Ends J K g :=
  ⟨[], a, fun t k ht => ⟨t, k, rfl, hJ t ht, h t k ht⟩⟩

/-- A reader that takes one token and stops needs that token. -/
lemma ends_of_token {g : Reader α} {a : α} (c : Token) (hc : J c)
    (h : ∀ t k, K t → g (c :: t :: k) = .ok (a, t :: k)) : Ends J K g :=
  ⟨[c], a, fun t k ht => ⟨c, t :: k, rfl, hc, h t k ht⟩⟩

/-! ## Steps -/

/-- There is nothing to complete where the tokens did not run out. -/
lemma completable_of_ne {f : Reader α} {ts : List Token} (h : f ts ≠ .error .outOfTokens) :
    Completable K f ts :=
  fun _ hout => absurd hout h

/-- A reader that takes nothing never runs out of tokens. -/
lemma completable_pure (a : α) (ts : List Token) : Completable K (pure a : Reader α) ts :=
  completable_of_ne fun h => by cases h

/-- A refusal is no lack of tokens. -/
lemma completable_refuse {e : ParseError} (he : e ≠ .outOfTokens) (ts : List Token) :
    Completable K (refuse e : Reader α) ts :=
  completable_of_ne fun h => he (by cases h; rfl)

/-- Two readers that do the same behind a token are completed by the same tokens. -/
lemma Completable.cons {f g : Reader α} {t : Token} {us : List Token} (h : Completable K g us)
    (hfg : ∀ vs, f (t :: vs) = g vs) : Completable K f (t :: us) := by
  intro hts hout
  rw [hfg] at hout
  obtain ⟨vs, a, hvs⟩ := h (List.isChain_cons.1 hts).2 hout
  exact ⟨vs, a, fun t' k ht' => by rw [List.cons_append, hfg, hvs t' k ht']⟩

/-- A reader that looks first is completed with a first token, or as it goes on with the one it
has. -/
lemma completable_peek_bind {g : Token → Reader α} {ts : List Token}
    (hnil : Completes K (peek >>= g) [])
    (hcons : ∀ t us, ts = t :: us → Completable K (g t) (t :: us)) :
    Completable K (peek >>= g) ts := by
  intro hts hout
  cases ts with
  | nil => exact hnil
  | cons t us =>
    obtain ⟨vs, a, hvs⟩ := hcons t us rfl hts hout
    exact ⟨vs, a, fun t' k ht' => hvs t' k ht'⟩

/-- A reader that takes a token is completed as it goes on behind it. -/
lemma completable_next_bind {g : Token → Reader α} {t : Token} {us : List Token}
    (h : Completable K (g t) us) : Completable K (next >>= g) (t :: us) :=
  h.cons fun _ => rfl

/-- A token that is missing is supplied; one that is there is gone on from. -/
lemma completable_expect_bind {kind : TokenKind} {expected : Expectation} {g : Token → Reader α}
    {ts : List Token} (hnil : ts = [] → Completes K (expect kind expected >>= g) [])
    (hcons : ∀ t us, ts = t :: us → t.kind = kind → Completable K (g t) us) :
    Completable K (expect kind expected >>= g) ts := by
  cases ts with
  | nil => exact fun _ _ => hnil rfl
  | cons t us =>
    by_cases hk : t.kind = kind
    · exact (hcons t us rfl hk).cons fun vs => bind_of_ok (expect_cons_of_eq expected vs hk)
    · refine completable_of_ne fun hout => ?_
      rw [bind_of_error (expect_cons_of_ne expected us hk)] at hout
      cases hout

/-- A sequence is completed by what completes the part that ran out of tokens. -/
lemma Completable.bind {f : Reader α} {g : α → Reader β} {ts : List Token}
    (hf : Completable J f ts) (hlocal : NoParenBehindDot ts → LocalAt f ts)
    (hends : ∀ a, Ends J K (g a)) (hg : ∀ a mid, f ts = .ok (a, mid) → Completable K (g a) mid) :
    Completable K (f >>= g) ts := by
  intro hts hout
  rcases bind_eq_error.1 hout with hfout | ⟨a, mid, hfok, hgout⟩
  · obtain ⟨us, a, hus⟩ := hf hts hfout
    obtain ⟨vs, b, hvs⟩ := hends a
    refine ⟨us ++ vs, b, fun t k ht => ?_⟩
    obtain ⟨t', k', heq, ht', hgok⟩ := hvs t k ht
    rw [List.append_assoc, heq, bind_of_ok (hus t' k' ht'), hgok]
  · obtain ⟨pre, rfl, -, -⟩ := (hlocal hts).ok a mid hfok
    obtain ⟨us, b, hus⟩ := hg a mid hfok hts.of_append hgout
    refine ⟨us, b, fun t k ht => ?_⟩
    rw [bind_of_ok ((hlocal hts).ok_append hfok _), hus t k ht]

/-! ## Tokens to complete with -/

/-- The token closes what stands in front of it: no expression goes on with it. -/
def Closes (t : Token) : Prop :=
  t.kind ∈ [TokenKind.semicolon, .comma, .closeParen, .closeBrace, .closeBracket]

/-- Some token of a kind. -/
def someToken (kind : TokenKind) : Token := ⟨kind, "a", .start⟩

/-- Some token of a kind has that kind. -/
@[simp] lemma someToken_kind (kind : TokenKind) : (someToken kind).kind = kind := rfl

/-- Some token of a closing kind closes. -/
lemma closes_someToken {kind : TokenKind}
    (h : kind ∈ [TokenKind.semicolon, .comma, .closeParen, .closeBrace, .closeBracket]) :
    Closes (someToken kind) := h

/-- No sum goes on with a token that closes. -/
lemma Closes.stopsSum {t : Token} (h : Closes t) : StopsSum t := by
  refine stopsSum_of_kind rfl fun hmem => ?_
  simp only [Closes, List.mem_cons, List.not_mem_nil, or_false] at h hmem
  rcases h with h | h | h | h | h <;> rw [h] at hmem <;> exact absurd hmem (by decide)

/-- A token that closes is no sign of an assignment. -/
lemma Closes.ne_equals {t : Token} (h : Closes t) : t.kind ≠ .equals := by
  intro hk
  rw [Closes, hk] at h
  exact absurd h (by decide)

/-- A closing brace closes. -/
lemma closes_of_closeBrace {t : Token} (h : t.kind = .closeBrace) : Closes t := by
  rw [Closes, h]
  decide

/-- A name is an expression in front of a token that closes it. -/
lemma assignment_name {t : Token} (ht : Closes t) (k : List Token) :
    assignment (someToken .identifier :: t :: k) = .ok (.name "a", t :: k) :=
  assignment_of_primary (primary_cons_name rfl (t :: k)) ht.stopsSum ht.ne_equals

/-! ## Primaries, members and calls -/

/-- What completes `assignment` is known for fewer than `n` tokens. -/
def CompletableBelow (n : Nat) : Prop :=
  ∀ us : List Token, us.length < n → Completable Closes assignment us

/-- Completions below a length include those below a smaller one. -/
lemma CompletableBelow.mono {n m : Nat} (ih : CompletableBelow n) (h : m ≤ n) :
    CompletableBelow m :=
  fun us hus => ih us (Nat.lt_of_lt_of_le hus h)

/-- A chain of accesses may end at any token that closes. -/
lemma memberTail_ends (base : Expr) : Ends Closes Closes (memberTail base) :=
  ends_of_stops (fun _ ht => ht) fun _ k ht => memberTail_of_stops base ht.stopsSum.toStopsMember k

/-- A chain of calls may end at any token that closes. -/
lemma callTail_ends (callee : Expr) : Ends Closes Closes (callTail callee) :=
  ends_of_stops (fun _ ht => ht) fun _ k ht => callTail_of_stops callee ht.stopsSum.toStopsCall k

/-- A chain of operators may end at any token that closes. -/
lemma chainTail_ends (level : Operator.Level) (left : Expr) :
    Ends Closes Closes (chainTail level left) := by
  refine ends_of_stops (fun _ ht => ht) fun t k ht => chainTail_of_stops left ?_ k
  cases level with
  | sum => exact ht.stopsSum.not_sum
  | product => exact ht.stopsSum.not_product

/-- A primary that ran out needs a name, or the rest of what is in its parentheses. -/
lemma primary_completable {ts : List Token} (ih : CompletableBelow ts.length) :
    Completable Closes primary ts := by
  cases ts with
  | nil =>
    intro _ _
    exact ⟨[someToken .identifier], .name "a", fun t k _ => primary_cons_name rfl (t :: k)⟩
  | cons t us =>
    cases hk : t.kind
    case identifier => exact completable_of_ne (by rw [primary_cons_name hk]; nofun)
    case null => exact completable_of_ne (by rw [primary_cons_null hk]; nofun)
    case number =>
      cases hx : Number.read? t.text with
      | none => exact completable_of_ne (by rw [primary_cons_badNumber hk hx]; nofun)
      | some x => exact completable_of_ne (by rw [primary_cons_number hk hx]; nofun)
    case openParen =>
      refine Completable.cons ?_ (primary_cons_paren hk)
      have hends : ∀ inner : Expr, Ends Closes Closes
          (expect .closeParen .closingParen >>= fun _ => pure inner) := fun inner =>
        ends_of_token (someToken .closeParen) (closes_someToken (by decide)) fun _ _ _ => rfl
      refine (ih us (Nat.lt_succ_self _)).bind localAt_assignment hends fun inner mid _ => ?_
      exact completable_expect_bind (fun _ => (hends inner).completes)
        fun _ _ _ _ => completable_pure _ _
    all_goals exact completable_of_ne (by rw [primary_cons_other (by simp [hk])]; nofun)

/-- Behind a dot only a name can be missing. -/
lemma dotName_completable {d : Token} {us : List Token} (hd : d.kind = .dot) :
    Completable Closes dotName (d :: us) := by
  intro hts hout
  cases us with
  | nil =>
    refine ⟨[someToken .identifier], .name "a", fun t k _ => ?_⟩
    have hname : (Expr.name (someToken .identifier).text).kind = .identifier := rfl
    rw [List.cons_append, List.nil_append, List.cons_append, dotName_cons_cons,
      bind_of_ok (primary_cons_name rfl _), if_pos hname, pure_apply]
    rfl
  | cons n vs =>
    have hn : n.kind ≠ .openParen := (List.isChain_cons.1 hts).1 n rfl hd
    rcases dotName_cases hd hn with hname | ⟨e, hblame, hfail⟩
    · rw [hname] at hout
      cases hout
    · rw [hfail] at hout
      cases hout
      exact absurd hblame id

/-- An access that ran out needs a name behind its dot, or a key and a bracket. -/
lemma memberTail_completable {n : Nat} (ih : CompletableBelow n) {ts : List Token}
    (hts : ts.length ≤ n) (base : Expr) : Completable Closes (memberTail base) ts := by
  induction hm : ts.length using Nat.strongRecOn generalizing ts base with
  | ind m ihm =>
    have hnil := (memberTail_ends base).completes
    rw [memberTail_eq] at hnil ⊢
    refine completable_peek_bind hnil fun t us heq => ?_
    subst heq
    rw [List.length_cons] at hm hts
    split_ifs with hdot hopen
    · have hlocal := closed_localAt.dotName hdot (closed_localAt.primary us)
      refine (dotName_completable hdot).bind hlocal (fun key => memberTail_ends _)
        fun key mid hkey => ?_
      have hlt : mid.length < us.length := dotName_length_lt hkey
      exact ihm mid.length (by omega) (by omega) _ rfl
    · refine completable_next_bind ?_
      have hends : ∀ key : Expr, Ends Closes Closes
          (expect .closeBracket .closingBracket >>= fun _ => memberTail (.index base key)) :=
        fun key => ends_of_token (someToken .closeBracket) (closes_someToken (by decide))
          fun t k ht => memberTail_of_stops _ ht.stopsSum.toStopsMember k
      refine (ih us (by omega)).bind localAt_assignment hends fun key mid hkey => ?_
      have hlt : mid.length < us.length := length_lt_of_ofRule hkey
      refine completable_expect_bind (fun _ => (hends key).completes) fun c ws hmid _ => ?_
      rw [hmid, List.length_cons] at hlt
      exact ihm ws.length (by omega) (by omega) _ rfl
    · exact completable_pure _ _

/-- A chain of accesses that ran out is completed where its primary or its last access is. -/
lemma member_completable {ts : List Token} (ih : CompletableBelow ts.length) :
    Completable Closes member ts := by
  rw [member_eq]
  refine (primary_completable ih).bind (closed_localAt.primary _)
    memberTail_ends fun first mid hfirst => ?_
  have hlt : mid.length < ts.length := length_lt_of_ofRule hfirst
  exact memberTail_completable ih (Nat.le_of_lt hlt) first

/-- Behind an argument, a closing parenthesis ends the list. -/
lemma argumentList_ends (first : Expr) : Ends Closes Closes (do
    let t ← peek
    if t.kind = .comma then
      let _ ← next
      let others ← argumentList
      pure (first :: others)
    else if t.kind = .closeParen then
      let _ ← next
      pure [first]
    else refuse (.unexpected .commaOrParen t)) :=
  ends_of_token (someToken .closeParen) (closes_someToken (by decide)) fun _ _ _ => rfl

/-- Arguments that ran out are completed in the last of them, or by one more. -/
lemma argumentList_completable {n : Nat} (ih : CompletableBelow n) {ts : List Token}
    (hts : ts.length < n) : Completable Closes argumentList ts := by
  induction hm : ts.length using Nat.strongRecOn generalizing ts with
  | ind m ihm =>
    rw [argumentList_eq]
    refine (ih ts hts).bind localAt_assignment argumentList_ends fun first mid hfirst => ?_
    have hlt : mid.length < ts.length := length_lt_of_ofRule hfirst
    refine completable_peek_bind (argumentList_ends first).completes fun t us hmid => ?_
    rw [hmid, List.length_cons] at hlt
    split_ifs with hcomma hclose
    · refine completable_next_bind ?_
      have hothers := ihm us.length (by omega) (by omega) rfl
      refine hothers.bind (closed_localAt.argumentList _)
        (fun others => ?_) fun others _ _ => completable_pure _ _
      exact ends_of_stops (fun _ ht => ht) fun _ _ _ => rfl
    · exact completable_next_bind (completable_pure _ _)
    · exact completable_refuse (by nofun) _

/-- Arguments that ran out need at most the rest of the last one and a parenthesis. -/
lemma argumentsTail_completable {n : Nat} (ih : CompletableBelow n) {ts : List Token}
    (hts : ts.length < n) : Completable Closes argumentsTail ts := by
  rw [argumentsTail_eq]
  refine completable_peek_bind ⟨[someToken .closeParen], [], fun _ _ _ => rfl⟩ fun t us heq => ?_
  split_ifs with hclose
  · exact completable_next_bind (completable_pure _ _)
  · rw [← heq]
    exact argumentList_completable ih hts

/-- A call that ran out needs the rest of its arguments. -/
lemma callTail_completable {n : Nat} (ih : CompletableBelow n) {ts : List Token}
    (hts : ts.length ≤ n) (callee : Expr) : Completable Closes (callTail callee) ts := by
  induction hm : ts.length using Nat.strongRecOn generalizing ts callee with
  | ind m ihm =>
    have hnil := (callTail_ends callee).completes
    rw [callTail_eq_next] at hnil ⊢
    refine completable_peek_bind hnil fun t us heq => ?_
    subst heq
    rw [List.length_cons] at hm hts
    split_ifs with hopen
    · refine completable_next_bind ?_
      refine (argumentsTail_completable ih (by omega)).bind
        (closed_localAt.argumentsTail _)
        (fun args => callTail_ends _) fun args mid hargs => ?_
      have hlt : mid.length < us.length := length_lt_of_ofRule hargs
      exact ihm mid.length (by omega) (by omega) _ rfl
    · exact completable_pure _ _

/-- A chain of calls that ran out is completed in its callee or in its last call. -/
lemma callMember_completable {ts : List Token} (ih : CompletableBelow ts.length) :
    Completable Closes callMember ts := by
  rw [callMember_eq]
  refine (member_completable ih).bind (closed_localAt.member _)
    callTail_ends fun callee mid hcallee => ?_
  have hlt : mid.length < ts.length := length_lt_of_ofRule hcallee
  exact callTail_completable ih (Nat.le_of_lt hlt) callee

/-! ## Chains of operators -/

/-- The tail of a chain, for both levels: `hop` is the rule for its operands. -/
lemma chainTail_completable {level : Operator.Level} {n : Nat}
    (hop : ∀ us : List Token, us.length < n → Completable Closes (operand level) us)
    {ts : List Token} (hts : ts.length ≤ n) (left : Expr) :
    Completable Closes (chainTail level left) ts := by
  induction hm : ts.length using Nat.strongRecOn generalizing ts left with
  | ind m ihm =>
    have hnil := (chainTail_ends level left).completes
    rw [chainTail_eq] at hnil ⊢
    refine completable_peek_bind hnil fun t us heq => ?_
    subst heq
    rw [List.length_cons] at hm hts
    split
    · exact completable_pure _ _
    · refine completable_next_bind ?_
      refine (hop us (by omega)).bind (closed_localAt.operand level us)
        (fun right => chainTail_ends level _) fun right mid hright => ?_
      have hlt : mid.length < us.length := operand_length_lt hright
      exact ihm mid.length (by omega) (by omega) _ rfl

/-- A product that ran out is completed in its last factor. -/
lemma multiplicative_completable {ts : List Token} (ih : CompletableBelow ts.length) :
    Completable Closes multiplicative ts := by
  rw [multiplicative_eq]
  refine (callMember_completable ih).bind (closed_localAt.operand .product _)
    (chainTail_ends .product) fun first mid hfirst => ?_
  have hlt : mid.length < ts.length := length_lt_of_ofRule hfirst
  have hop : ∀ us : List Token, us.length < ts.length → Completable Closes (operand .product) us :=
    fun us hus => callMember_completable (ih.mono (Nat.le_of_lt hus))
  exact chainTail_completable hop (Nat.le_of_lt hlt) first

/-- A sum that ran out is completed in its last product. -/
lemma additive_completable {ts : List Token} (ih : CompletableBelow ts.length) :
    Completable Closes additive ts := by
  rw [additive_eq]
  refine (multiplicative_completable ih).bind
    (closed_localAt.operand .sum _) (chainTail_ends .sum)
    fun first mid hfirst => ?_
  have hlt : mid.length < ts.length := length_lt_of_ofRule hfirst
  have hop : ∀ us : List Token, us.length < ts.length → Completable Closes (operand .sum) us :=
    fun us hus => multiplicative_completable (ih.mono (Nat.le_of_lt hus))
  exact chainTail_completable hop (Nat.le_of_lt hlt) first

/-! ## Objects and assignments -/

/-- The token closes an object. -/
def ClosesObject (t : Token) : Prop := t.kind = .closeBrace

/-- Behind the value of a property, the closing brace of the object ends it. -/
lemma pair_ends (key : String) (value : Expr) : Ends Closes ClosesObject (do
    let c ← peek
    if c.kind = .closeBrace then pure (.pair key value)
    else
      let _ ← expect .comma .commaOrBrace
      pure (.pair key value) : Reader Property) := by
  have hJ : ∀ t, ClosesObject t → Closes t := fun t ht => closes_of_closeBrace ht
  refine ends_of_stops (a := .pair key value) hJ fun t k ht => ?_
  have hbrace : t.kind = .closeBrace := ht
  rw [peek_bind_cons, if_pos hbrace, pure_apply]

/-- Behind a key alone, the closing brace of the object ends the property. -/
lemma shorthand_completes (key : Token) : Completes ClosesObject (do
    let t ← peek
    if t.kind = .comma then
      let _ ← next
      pure (.shorthand key.text)
    else if t.kind = .closeBrace then pure (.shorthand key.text)
    else
      let _ ← expect .colon .colon
      let value ← assignment
      let c ← peek
      if c.kind = .closeBrace then pure (.pair key.text value)
      else
        let _ ← expect .comma .commaOrBrace
        pure (.pair key.text value) : Reader Property) [] := by
  refine ⟨[], .shorthand key.text, fun t k ht => ?_⟩
  have hbrace : t.kind = .closeBrace := ht
  have hcomma : t.kind ≠ .comma := by simp [hbrace]
  rw [List.nil_append, List.nil_append, peek_bind_cons, if_neg hcomma, if_pos hbrace, pure_apply]

/-- A property that ran out needs a key, or the rest of its value. -/
lemma property_completable {n : Nat} (ih : CompletableBelow n) {ts : List Token}
    (hts : ts.length ≤ n) : Completable ClosesObject property ts := by
  rw [property_eq]
  refine completable_expect_bind (fun _ => ?_) fun key us heq _ => ?_
  · obtain ⟨us, p, hus⟩ := shorthand_completes (someToken .identifier)
    exact ⟨someToken .identifier :: us, p, hus⟩
  · subst heq
    rw [List.length_cons] at hts
    refine completable_peek_bind (shorthand_completes key) fun t vs hus => ?_
    split_ifs with hcomma hclose
    · exact completable_next_bind (completable_pure _ _)
    · exact completable_pure _ _
    · refine completable_expect_bind (fun hnil => by cases hnil) fun c ws hws _ => ?_
      cases hws
      rw [hus, List.length_cons] at hts
      refine (ih vs (by omega)).bind localAt_assignment (pair_ends key.text)
        fun value mid _ => ?_
      refine completable_peek_bind (pair_ends key.text value).completes fun d xs hmid => ?_
      split_ifs with hbrace
      · exact completable_pure _ _
      · refine completable_expect_bind (fun hnil => by cases hnil) fun _ _ _ _ => ?_
        exact completable_pure _ _

/-- Properties that ran out are completed up to the brace that closes them. -/
lemma properties_completable {n : Nat} (ih : CompletableBelow n) {ts : List Token}
    (hts : ts.length ≤ n) : Completable ClosesObject properties ts := by
  have hends : Ends ClosesObject ClosesObject properties :=
    ends_of_stops (fun _ ht => ht) fun t k ht => properties_cons_closeBrace ht k
  induction hm : ts.length using Nat.strongRecOn generalizing ts with
  | ind m ihm =>
    have hnil := hends.completes
    rw [properties_eq] at hnil ⊢
    refine completable_peek_bind hnil fun t us heq => ?_
    split_ifs with hstop
    · exact completable_pure _ _
    · rw [← heq]
      refine (property_completable ih hts).bind
        (closed_localAt.property _) (fun p => ?_)
        fun p mid hp => ?_
      · exact ends_of_stops (fun _ ht => ht) fun t k ht => by
          rw [bind_of_ok (properties_cons_closeBrace ht k), pure_apply]
      · have hlt : mid.length < ts.length := length_lt_of_ofRule hp
        have hothers := ihm mid.length (by omega) (by omega) rfl
        refine hothers.bind (closed_localAt.properties _)
          (fun ps => ?_) fun ps _ _ => completable_pure _ _
        exact ends_of_stops (fun _ ht => ht) fun _ _ _ => rfl

/-- An object that ran out is completed in its last property, and closed. -/
lemma object_completable {ts : List Token} (ih : CompletableBelow ts.length) :
    Completable Closes object ts := by
  have hnil : Completes Closes object [] :=
    ⟨[someToken .identifier], .name "a", fun t k ht =>
      object_of_primary (primary_cons_name rfl (t :: k)) ht.stopsSum⟩
  rw [object_eq] at hnil ⊢
  refine completable_peek_bind hnil fun t us heq => ?_
  split_ifs with hopen
  · refine completable_next_bind ?_
    have hends : ∀ ps : List Property, Ends ClosesObject Closes
        (expect .closeBrace .closingBrace >>= fun _ => pure (Expr.object ps)) := fun ps =>
      ends_of_token (someToken .closeBrace) rfl fun _ _ _ => rfl
    refine (properties_completable ih (by simp [heq])).bind
      (closed_localAt.properties _) hends fun ps mid _ => ?_
    exact completable_expect_bind (fun _ => (hends ps).completes)
      fun _ _ _ _ => completable_pure _ _
  · rw [← heq]
    exact additive_completable ih

/-- An expression ends in front of a token that closes it. -/
lemma assignment_ends (target : Expr) : Ends Closes Closes (do
    let t ← peek
    if t.kind = .equals then
      let _ ← next
      let value ← assignment
      pure (.assign target value)
    else pure target) :=
  ends_of_stops (fun _ ht => ht) fun t k ht => by
    rw [peek_bind_cons, if_neg ht.ne_equals, pure_apply]

/-- Every expression that ran out of tokens can be gone on with. -/
lemma assignment_completable (ts : List Token) : Completable Closes assignment ts := by
  induction hn : ts.length using Nat.strongRecOn generalizing ts with
  | ind n ihn =>
    have ih : CompletableBelow ts.length := fun us hus => ihn us.length (by omega) us rfl
    rw [assignment_eq]
    refine (object_completable ih).bind (closed_localAt.object _)
      assignment_ends fun target mid htarget => ?_
    have hlt : mid.length < ts.length := length_lt_of_ofRule htarget
    refine completable_peek_bind (assignment_ends target).completes fun t us hmid => ?_
    rw [hmid, List.length_cons] at hlt
    split_ifs with hequals
    · refine completable_next_bind ?_
      refine (ih us (by omega)).bind localAt_assignment (fun value => ?_)
        fun value _ _ => completable_pure _ _
      exact ends_of_stops (fun _ ht => ht) fun _ _ _ => rfl
    · exact completable_pure _ _

/-! ## Statements -/

/-- The token is an end marker. -/
def EndsInput (t : Token) : Prop := t.kind = .endOfInput

/-- Behind the value of a declaration, a semicolon ends it. -/
lemma declaration_ends (s : Expr → Statement) (value : Expr) : Ends Closes EndsInput
    (expect .semicolon .semicolon >>= fun _ => pure (s value)) :=
  ends_of_token (someToken .semicolon) (closes_someToken (by decide)) fun _ _ _ => rfl

/-- Behind a declared name, a value completes the declaration. -/
lemma declared_completes (constant : Bool) (name : Token) : Completes EndsInput (do
    let t ← peek
    if t.kind = .semicolon then
      if constant then refuse (.missingValue name.text t.position)
      else
        let _ ← next
        pure (.declaration name.text false none)
    else
      let _ ← expect .equals .equals
      let value ← assignment
      let _ ← expect .semicolon .semicolon
      pure (.declaration name.text constant (some value)) : Reader Statement) [] := by
  refine ⟨[someToken .equals, someToken .identifier, someToken .semicolon],
    .declaration name.text constant (some (.name "a")), fun t k _ => ?_⟩
  have hequals : (someToken .equals).kind ≠ .semicolon := by decide
  have hvalue : assignment (someToken .identifier :: someToken .semicolon :: t :: k) =
      .ok (.name "a", someToken .semicolon :: t :: k) :=
    assignment_name (closes_someToken (by decide)) (t :: k)
  rw [List.nil_append, List.cons_append, peek_bind_cons, if_neg hequals,
    bind_of_ok (expect_cons_of_eq _ _ (someToken_kind .equals)), List.cons_append,
    List.cons_append, List.nil_append, bind_of_ok hvalue]
  rfl

/-- A declaration that ran out needs a name, a value or a semicolon, as far as it got. -/
lemma declarationTail_completable (constant : Bool) (ts : List Token) :
    Completable EndsInput (declarationTail constant) ts := by
  rw [declarationTail_eq]
  refine completable_expect_bind (fun _ => ?_) fun name us _ _ => ?_
  · obtain ⟨us, s, hus⟩ := declared_completes constant (someToken .identifier)
    exact ⟨someToken .identifier :: us, s, hus⟩
  · refine completable_peek_bind (declared_completes constant name) fun t vs hus => ?_
    split_ifs with hsemi hconst
    · exact completable_refuse (by nofun) _
    · exact completable_next_bind (completable_pure _ _)
    · refine completable_expect_bind (fun hnil => by cases hnil) fun q ws hws _ => ?_
      let s : Expr → Statement := fun value => .declaration name.text constant (some value)
      refine (assignment_completable ws).bind localAt_assignment (declaration_ends s)
        fun value mid _ => ?_
      exact completable_expect_bind (fun _ => (declaration_ends s value).completes)
        fun _ _ _ _ => completable_pure _ _

/-- Behind an expression, a semicolon ends the statement. -/
lemma statement_ends (e : Expr) : Ends Closes EndsInput (do
    let c ← peek
    if c.kind = .semicolon then
      let _ ← next
      pure (.expr e)
    else pure (.expr e) : Reader Statement) :=
  ends_of_token (someToken .semicolon) (closes_someToken (by decide)) fun _ _ _ => rfl

/-- Every statement that ran out of tokens can be gone on with. -/
lemma statement_completable (ts : List Token) : Completable EndsInput statement ts := by
  have hnil : Completes EndsInput statement [] := by
    refine ⟨[someToken .identifier, someToken .semicolon], .expr (.name "a"), fun t k _ => ?_⟩
    have hword : ¬ ((someToken .identifier).kind = .letWord ∨
        (someToken .identifier).kind = .constWord) := by decide
    have hsemi : Closes (someToken .semicolon) := closes_someToken (by decide)
    rw [List.nil_append, List.cons_append, statement_eq_next, peek_bind_cons, if_neg hword,
      List.cons_append, List.nil_append, bind_of_ok (assignment_name hsemi (t :: k))]
    rfl
  rw [statement_eq_next] at hnil ⊢
  refine completable_peek_bind hnil fun t us _ => ?_
  split_ifs with hword
  · exact completable_next_bind (declarationTail_completable _ us)
  · refine (assignment_completable _).bind localAt_assignment statement_ends fun e mid _ => ?_
    refine completable_peek_bind (statement_ends e).completes fun c vs _ => ?_
    split_ifs with hsemi
    · exact completable_next_bind (completable_pure _ _)
    · exact completable_pure _ _

/-- An end marker ends the statements. -/
lemma statements_cons_marker {m : Token} (hm : EndsInput m) (us : List Token) :
    statements (m :: us) = .ok ([], m :: us) := by
  have hend : m.kind = .endOfInput := hm
  rw [statements_eq, peek_bind_cons, if_pos hend, pure_apply]

/-- Any statements that ran out of tokens can be gone on with, up to the end of the input. -/
lemma statements_completable (ts : List Token) : Completable EndsInput statements ts := by
  induction hn : ts.length using Nat.strongRecOn generalizing ts with
  | ind n ihn =>
    have hnil : Completes EndsInput statements [] :=
      ⟨[], [], fun m us hm => statements_cons_marker hm us⟩
    rw [statements_eq] at hnil ⊢
    refine completable_peek_bind hnil fun t us heq => ?_
    split_ifs with hend
    · exact completable_pure _ _
    · rw [← heq]
      refine (statement_completable ts).bind (closed_localAt.statement missing_blames ts)
        (fun s => ?_) fun s mid hs => ?_
      · exact ends_of_stops (fun _ ht => ht) fun m k hm => by
          rw [bind_of_ok (statements_cons_marker hm k), pure_apply]
      · have hlt : mid.length < ts.length := length_lt_of_ofRule hs
        refine (ihn mid.length (by omega) mid rfl).bind localAt_statements (fun ss => ?_)
          fun ss _ _ => completable_pure _ _
        exact ends_of_stops (fun _ ht => ht) fun _ _ _ => rfl

end Scriptlet.Grammar.Reader
