import Scriptlet.Proofs.Grammar.Locality
import Scriptlet.Proofs.Number.Digits
import Scriptlet.Proofs.Program.WellFormed

/-!
# The parser stops at the end marker

`ParseError.outOfTokens` is the violation of a list that ends too early, and an end marker keeps it
away: no rule takes an end marker, so that a rule which needs one more token finds it there.
`StopsAtMarker` is the invariant of the steps that shows this, and together with it that a number
is refused for its text only if that text cannot be read.  The lexer gives numbers the text of
digits, which always can (`Number.read?_isSome_of_isNumeral`).

The main result says what this means for the rules, for `parseTokens` on any list, and for `parse`
on any source.
-/

namespace Scriptlet.Grammar

/-- No token of the list is an end marker. -/
def NoMarker (ts : List Token) : Prop :=
  ∀ t ∈ ts, t.kind ≠ .endOfInput

/-- The empty list has no end marker. -/
lemma noMarker_nil : NoMarker [] := List.forall_mem_nil _

/-- A list has no end marker when neither its first token is one nor any other. -/
lemma noMarker_cons {t : Token} {ts : List Token} :
    NoMarker (t :: ts) ↔ t.kind ≠ .endOfInput ∧ NoMarker ts :=
  List.forall_mem_cons

/-- Two lists joined have no end marker when neither has one. -/
lemma noMarker_append {ts us : List Token} : NoMarker (ts ++ us) ↔ NoMarker ts ∧ NoMarker us :=
  List.forall_mem_append

/-- An end marker stands in every list that the parser reads. -/
lemma not_noMarker_withEndMarker (ts : List Token) : ¬ NoMarker (withEndMarker ts) := by
  intro h
  unfold withEndMarker at h
  cases hlast : ts.getLast? with
  | none =>
    rw [hlast] at h
    exact (noMarker_cons.1 h).1 rfl
  | some last =>
    rw [hlast] at h
    dsimp only at h
    split_ifs at h with hkind
    · exact h last (List.mem_of_getLast? hlast) hkind
    · exact (noMarker_cons.1 (noMarker_append.1 h).2).1 rfl

/-- The first end marker of a list is behind all that holds none. -/
lemma exists_eq_append_of_noMarker {pre suf used rest : List Token} {m : Token}
    (hm : m.kind = .endOfInput) (hused : NoMarker used) (h : pre ++ m :: suf = used ++ rest) :
    ∃ left, pre = used ++ left ∧ rest = left ++ m :: suf := by
  rcases List.append_eq_append_iff.1 h with ⟨vs, hvs, hrest⟩ | ⟨vs, hvs, hrest⟩
  · cases vs with
    | nil =>
      rw [List.append_nil] at hvs
      exact ⟨[], by rw [List.append_nil, hvs], hrest.symm⟩
    | cons v vs =>
      rw [List.cons_append, List.cons.injEq] at hrest
      have hmem : m ∈ used := by simp [hvs, hrest.1]
      exact absurd hm (hused m hmem)
  · exact ⟨vs, hvs, hrest⟩

namespace Reader

variable {α β : Type}

/-! ## The invariant of the steps -/

/-- What the reader `f` has to do with the end markers of the list `ts`, and with its numbers. -/
structure StopsAtMarker (f : Reader α) (ts : List Token) : Prop where
  /-- There is no end marker among the tokens that are taken. -/
  ok : ∀ a rest, f ts = .ok (a, rest) → ∃ used, ts = used ++ rest ∧ NoMarker used
  /-- The tokens run out only if there is no end marker among them. -/
  outOfTokens : f ts = .error .outOfTokens → NoMarker ts
  /-- A number that is refused for its text is one of the tokens, and cannot be read. -/
  number : ∀ t, f ts = .error (.unexpected .number t) →
    t ∈ ts ∧ t.kind = .number ∧ Number.read? t.text = none

/-- The violations that a look at the token `t` may give. -/
def RefusedAt (t : Token) (e : ParseError) : Prop :=
  e ≠ .outOfTokens ∧
    ∀ u, e = .unexpected .number u → u = t ∧ t.kind = .number ∧ Number.read? t.text = none

/-- A reader that takes nothing takes no end marker. -/
lemma stopsAtMarker_pure (a : α) (ts : List Token) : StopsAtMarker (pure a : Reader α) ts where
  ok := by
    rintro b rest ⟨⟩
    exact ⟨[], rfl, noMarker_nil⟩
  outOfTokens := by
    intro h
    cases h
  number := by
    intro t h
    cases h

/-- A refusal is no lack of tokens, and one for the text of a number is at a number. -/
lemma stopsAtMarker_refuse {e : ParseError} (ts : List Token) (hout : e ≠ .outOfTokens)
    (hnumber : ∀ u, e = .unexpected .number u →
      u ∈ ts ∧ u.kind = .number ∧ Number.read? u.text = none) :
    StopsAtMarker (refuse e : Reader α) ts where
  ok := by
    intro a rest h
    cases h
  outOfTokens := by
    intro h
    cases h
    exact absurd rfl hout
  number := by
    intro t h
    cases h
    exact hnumber t rfl

/-- Taking one more token in front, which is no end marker. -/
lemma StopsAtMarker.cons {f g : Reader α} {t : Token} {us : List Token} (h : StopsAtMarker g us)
    (ht : t.kind ≠ .endOfInput) (heq : f (t :: us) = g us) : StopsAtMarker f (t :: us) where
  ok := by
    intro a rest hok
    rw [heq] at hok
    obtain ⟨used, hus, hused⟩ := h.ok a rest hok
    exact ⟨t :: used, by rw [hus, List.cons_append], noMarker_cons.2 ⟨ht, hused⟩⟩
  outOfTokens := by
    intro hout
    rw [heq] at hout
    exact noMarker_cons.2 ⟨ht, h.outOfTokens hout⟩
  number := by
    intro u hnumber
    rw [heq] at hnumber
    obtain ⟨hmem, hbad⟩ := h.number u hnumber
    exact ⟨List.mem_cons_of_mem t hmem, hbad⟩

/-- A token that is only looked at may be an end marker. -/
lemma stopsAtMarker_look {g : Token → Reader α} {ts : List Token}
    (h : ∀ t us, ts = t :: us →
      StopsAtMarker (g t) (t :: us) ∨ ∃ e, RefusedAt t e ∧ g t = refuse e) :
    StopsAtMarker (peek >>= g) ts := by
  cases ts with
  | nil =>
    refine ⟨fun a rest hok => ?_, fun _ => noMarker_nil, fun t hnumber => ?_⟩
    · cases hok
    · cases hnumber
  | cons t us =>
    have hstep : StopsAtMarker (g t) (t :: us) := by
      rcases h t us rfl with hgo | ⟨e, ⟨hout, hnumber⟩, hrefuse⟩
      · exact hgo
      · rw [hrefuse]
        refine stopsAtMarker_refuse _ hout fun u hu => ?_
        obtain ⟨rfl, hbad⟩ := hnumber u hu
        exact ⟨List.mem_cons_self, hbad⟩
    exact ⟨hstep.ok, hstep.outOfTokens, hstep.number⟩

/-- In a sequence each part stops at the marker of what it gets. -/
lemma stopsAtMarker_bind {f : Reader α} {g : α → Reader β} {ts : List Token}
    (hf : StopsAtMarker f ts) (hg : ∀ a mid, f ts = .ok (a, mid) → StopsAtMarker (g a) mid) :
    StopsAtMarker (f >>= g) ts where
  ok := by
    intro b rest h
    obtain ⟨a, mid, hfirst, hsecond⟩ := bind_eq_ok.1 h
    obtain ⟨used, hts, hused⟩ := hf.ok a mid hfirst
    obtain ⟨used', hmid, hused'⟩ := (hg a mid hfirst).ok b rest hsecond
    refine ⟨used ++ used', ?_, noMarker_append.2 ⟨hused, hused'⟩⟩
    rw [hts, hmid, List.append_assoc]
  outOfTokens := by
    intro h
    rcases bind_eq_error.1 h with hfirst | ⟨a, mid, hfirst, hsecond⟩
    · exact hf.outOfTokens hfirst
    · obtain ⟨used, hts, hused⟩ := hf.ok a mid hfirst
      rw [hts]
      exact noMarker_append.2 ⟨hused, (hg a mid hfirst).outOfTokens hsecond⟩
  number := by
    intro t h
    rcases bind_eq_error.1 h with hfirst | ⟨a, mid, hfirst, hsecond⟩
    · exact hf.number t hfirst
    · obtain ⟨used, hts, -⟩ := hf.ok a mid hfirst
      obtain ⟨hmem, hbad⟩ := (hg a mid hfirst).number t hsecond
      exact ⟨by rw [hts]; exact List.mem_append_right used hmem, hbad⟩

/-- Behind a dot, the primary stops at the marker. -/
lemma stopsAtMarker_dotName {d : Token} {us : List Token} (hd : d.kind = .dot)
    (hprimary : StopsAtMarker primary us) : StopsAtMarker dotName (d :: us) := by
  have hdot : d.kind ≠ .endOfInput := by simp [hd]
  cases us with
  | nil =>
    refine ⟨fun a rest h => ?_, fun _ => noMarker_cons.2 ⟨hdot, noMarker_nil⟩, fun t h => ?_⟩
    · cases h
    · cases h
  | cons n vs =>
    refine StopsAtMarker.cons ?_ hdot (dotName_cons_cons d n vs)
    refine stopsAtMarker_bind hprimary fun key mid _ => ?_
    split_ifs
    · exact stopsAtMarker_pure key mid
    · exact stopsAtMarker_refuse mid nofun nofun

/-! ## The rules stop at the end marker -/

/-- The invariant passes through the steps of the rules. -/
lemma closed_stopsAtMarker : Closed RefusedAt fun f ts => StopsAtMarker f ts where
  pure a ts := stopsAtMarker_pure a ts
  next_bind ht hg := hg.cons ht rfl
  look := by
    intro α g ts h
    refine stopsAtMarker_look fun t us hts => ?_
    rcases h t us hts with ⟨hg, -⟩ | ⟨e, he, hrefuse, -⟩
    · exact .inl hg
    · exact .inr ⟨e, he, hrefuse⟩
  unexpected := by
    intro expected t hnumber
    refine ⟨nofun, fun u hu => ?_⟩
    cases hu
    exact ⟨rfl, hnumber rfl⟩
  bind := stopsAtMarker_bind
  dotName := stopsAtMarker_dotName

/-- A constant without its value is refused for that and not for the text of a number. -/
lemma missing_refusedAt : Closed.Missing RefusedAt :=
  fun _ _ _ => ⟨nofun, nofun⟩

end Reader

/-- The first end marker of a list stays unread, or the list is refused for another reason than that
the tokens ran out. -/
def KeepsMarker {α : Type} (read : List Token → Except ParseError (α × List Token)) : Prop :=
  ∀ pre m suf, NoMarker pre → m.kind = .endOfInput →
    (∃ a used left, pre = used ++ left ∧ read (pre ++ m :: suf) = .ok (a, left ++ m :: suf)) ∨
    ∃ e, e ≠ .outOfTokens ∧ read (pre ++ m :: suf) = .error e

/-- A reader with the invariant leaves the first end marker unread. -/
lemma keepsMarker_of_stops {α : Type} {f : Reader α} (h : ∀ ts, Reader.StopsAtMarker f ts) :
    KeepsMarker f := by
  intro pre m suf _ hm
  cases hread : f (pre ++ m :: suf) with
  | ok r =>
    obtain ⟨a, rest⟩ := r
    obtain ⟨used, hsplit, hused⟩ := (h _).ok a rest hread
    obtain ⟨left, hpre, rfl⟩ := exists_eq_append_of_noMarker hm hused hsplit
    exact .inl ⟨a, used, left, hpre, rfl⟩
  | error e =>
    refine .inr ⟨e, fun hout => ?_, rfl⟩
    rw [hout] at hread
    have hnone := (h _).outOfTokens hread
    exact (noMarker_cons.1 (noMarker_append.1 hnone).2).1 hm

/-- The parser never runs out of tokens. -/
lemma parseTokens_ne_outOfTokens (ts : List Token) : parseTokens ts ≠ .error .outOfTokens := by
  intro h
  have hread := Reader.parseTokens_eq_error_iff.1 h
  have hstops :=
    Reader.closed_stopsAtMarker.statements Reader.missing_refusedAt (withEndMarker ts)
  exact not_noMarker_withEndMarker ts (hstops.outOfTokens hread)

end Scriptlet.Grammar

namespace Scriptlet

open Lexer Grammar

/-! ## Sources -/

/-- No number of a source is refused for its text. -/
lemma parse_ne_unreadable (source : String) (t : Token) :
    parse source ≠ .error (.parse (.unexpected .number t)) := by
  intro h
  unfold parse at h
  cases hlex : lex source with
  | error e => rw [hlex] at h; cases h
  | ok ts =>
    rw [hlex] at h
    dsimp only at h
    cases hparse : parseTokens ts with
    | ok p => rw [hparse] at h; cases h
    | error e =>
      rw [hparse] at h
      cases h
      have hread := Reader.parseTokens_eq_error_iff.1 hparse
      obtain ⟨hmem, hkind, hbad⟩ :=
        (Reader.closed_stopsAtMarker.statements Reader.missing_refusedAt _).number t hread
      have hlexed : IsLexed (withEndMarker ts) := (isLexed_of_lex hlex).withEndMarker
      have hnumeral : IsNumeral t.text.toList := hlexed.spells hmem hkind nofun
      have hgood := Number.read?_isSome_of_isNumeral hnumeral
      rw [String.ofList_toList, hbad] at hgood
      cases hgood

/-- The parser stops at the end marker: no token list makes it run out of tokens, every rule leaves
the first end marker unread or fails for another reason, and no number of a source is refused for
its text.  A declaration takes whatever stands in the place of its word, so that this is said of
lists that start with one. -/
theorem rules_stop_at_endMarker :
    (∀ ts, parseTokens ts ≠ .error .outOfTokens) ∧
    (∀ r : Rule, KeepsMarker r.read) ∧
    (∀ word : Token, word.kind = .letWord ∨ word.kind = .constWord →
      KeepsMarker fun ts => Reader.declaration (word :: ts)) ∧
    (∀ constant, KeepsMarker (Reader.declarationTail constant)) ∧
    KeepsMarker Reader.property ∧
    KeepsMarker Reader.arguments ∧ KeepsMarker Reader.argumentsTail ∧
    ∀ source t, parse source ≠ .error (.parse (.unexpected .number t)) := by
  have hclosed := Reader.closed_stopsAtMarker
  have hmissing := Reader.missing_refusedAt
  have htail : ∀ constant, KeepsMarker (Reader.declarationTail constant) := fun constant =>
    keepsMarker_of_stops (hclosed.declarationTail hmissing constant)
  refine ⟨parseTokens_ne_outOfTokens, fun r => ?_, fun word _ => ?_, htail, ?_, ?_, ?_,
    parse_ne_unreadable⟩
  · exact keepsMarker_of_stops (hclosed.phrase hmissing r)
  · rw [Reader.declaration_eq]
    exact htail (word.kind = .constWord)
  · exact keepsMarker_of_stops hclosed.property
  · exact keepsMarker_of_stops hclosed.arguments
  · exact keepsMarker_of_stops hclosed.argumentsTail

end Scriptlet
