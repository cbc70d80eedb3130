import Scriptlet.Proofs.Grammar.Completeness
import Scriptlet.Proofs.Grammar.Soundness
import Scriptlet.Proofs.Grammar.Unrolling

/-!
# Rules that get on

Every rule comes to an end on every token list, whatever its tokens are and whether or not there is
an end marker among them, and a rule that succeeds has used up tokens at the front of its list and
made its tree of them.  The main statement is `rules_terminate_with_progress`.

That the rules come to an end was seen in `Unrolling`.  That the tree is made of the tokens that
were used up has two sides.  A rule looks one token further than it reads, and no more: what was
read is read again in front of every list that starts with the same token (`LooksAhead`).  And this
one token only decides whether there is more to read.  The tree does not depend on it, because what
was read is also read in front of a token that goes on nothing, one and the same for all
(`read_before_stop`).
-/

namespace Scriptlet.Grammar

open Reader

/-! ## One token further -/

namespace Reader

variable {α β : Type}

/-- What `f` reads off `ts` stands at its front, and is read as long as the token behind it is the
same. -/
def LooksAhead (f : Reader α) (ts : List Token) : Prop :=
  ∀ a rest, f ts = .ok (a, rest) →
    ∃ pre, ts = pre ++ rest ∧ ∀ us, us.head? = rest.head? → f (pre ++ us) = .ok (a, us)

/-- A reader that takes nothing reads nothing at the front. -/
lemma looksAhead_pure (a : α) (ts : List Token) : LooksAhead (pure a : Reader α) ts := by
  rintro b rest ⟨⟩
  exact ⟨[], rfl, fun us _ => rfl⟩

/-- There is nothing to show where a token is refused. -/
lemma looksAhead_refuse (e : ParseError) (ts : List Token) :
    LooksAhead (refuse e : Reader α) ts := by
  rintro a rest ⟨⟩

/-- A token that is taken is put in front of what is read behind it. -/
lemma looksAhead_next_bind {g : Reader α} {t : Token} {us : List Token} (hg : LooksAhead g us) :
    LooksAhead (next >>= fun _ => g) (t :: us) := by
  intro a rest h
  obtain ⟨pre, rfl, hpre⟩ := hg a rest h
  exact ⟨t :: pre, rfl, hpre⟩

/-- A token that was looked at is the one behind what is read, or part of it. -/
lemma looksAhead_peek_bind {g : Token → Reader α} {ts : List Token}
    (hg : ∀ t us, ts = t :: us → LooksAhead (g t) (t :: us)) : LooksAhead (peek >>= g) ts := by
  intro a rest h
  cases ts with
  | nil => cases h
  | cons t us =>
    obtain ⟨pre, heq, hpre⟩ := hg t us rfl a rest h
    cases pre with
    | nil =>
      rw [List.nil_append] at heq
      subst heq
      refine ⟨[], rfl, fun vs hvs => ?_⟩
      obtain ⟨ws, rfl⟩ := List.head?_eq_some_iff.1 hvs
      exact hpre (t :: ws) rfl
    | cons u pre =>
      cases heq
      exact ⟨t :: pre, rfl, hpre⟩

/-- What follows the first part of a sequence starts with the second part, if that is not empty. -/
lemma looksAhead_bind {f : Reader α} {g : α → Reader β} {ts : List Token} (hf : LooksAhead f ts)
    (hg : ∀ a mid, f ts = .ok (a, mid) → LooksAhead (g a) mid) : LooksAhead (f >>= g) ts := by
  intro b rest h
  obtain ⟨a, mid, hfirst, hsecond⟩ := bind_eq_ok.1 h
  obtain ⟨pre, rfl, hpre⟩ := hf a mid hfirst
  obtain ⟨pre', rfl, hpre'⟩ := hg a mid hfirst b rest hsecond
  refine ⟨pre ++ pre', (List.append_assoc ..).symm, fun us hus => ?_⟩
  have hhead : (pre' ++ us).head? = (pre' ++ rest).head? := by
    rw [List.head?_append, List.head?_append, hus]
  rw [List.append_assoc, bind_of_ok (hpre (pre' ++ us) hhead)]
  exact hpre' us hus

/-- A dot is put in front of what is read behind it. -/
lemma looksAhead_dotName {d : Token} {us : List Token} (hprimary : LooksAhead primary us) :
    LooksAhead dotName (d :: us) := by
  refine looksAhead_next_bind (looksAhead_peek_bind fun n vs hvs => ?_)
  subst hvs
  refine looksAhead_bind hprimary fun key mid _ => ?_
  split_ifs
  · exact looksAhead_pure key mid
  · exact looksAhead_refuse _ mid

/-- Looking ahead passes through the steps of which the rules are made. -/
lemma closed_looksAhead : Closed (fun _ _ => True) fun f ts => LooksAhead f ts where
  pure := looksAhead_pure
  next_bind _ := looksAhead_next_bind
  look := by
    intro α g ts h
    refine looksAhead_peek_bind fun t us hts => ?_
    rcases h t us hts with ⟨hgo, -⟩ | ⟨e, -, hrefuse, -⟩
    · exact hgo
    · rw [hrefuse]
      exact looksAhead_refuse e _
  unexpected _ _ _ := trivial
  bind := looksAhead_bind
  dotName _ := looksAhead_dotName

/-- The tails of chains look at the end of a list like at a token. -/
lemma looksAhead_operatorTail (level : Operator.Level) (left : Expr) (ts : List Token) :
    LooksAhead (operatorTail level left) ts := by
  intro a rest h
  cases ts with
  | nil =>
    rw [operatorTail_nil] at h
    cases h
    refine ⟨[], rfl, fun us hus => ?_⟩
    rw [List.head?_eq_none_iff.1 hus]
    exact operatorTail_nil level left
  | cons t us =>
    have hop : ∀ vs : List Token, vs.length < us.length + 1 → LooksAhead (operand level) vs :=
      fun vs _ => closed_looksAhead.operand level vs
    have hchain : LooksAhead (chainTail level left) (t :: us) :=
      closed_looksAhead.chainTail_of_operand hop (Nat.le_refl _) left
    obtain ⟨pre, heq, hpre⟩ := hchain a rest h
    refine ⟨pre, heq, fun vs hvs => ?_⟩
    -- Something is left to read, so that the two forms of the tail do the same.
    obtain ⟨u, ws, hws⟩ : ∃ u ws, pre ++ vs = u :: ws := by
      refine List.exists_cons_of_ne_nil fun hnil => ?_
      rw [List.append_eq_nil_iff] at hnil
      rw [hnil.2, List.head?_nil] at hvs
      rw [hnil.1, List.nil_append] at heq
      rw [← heq] at hvs
      cases hvs
    have hread : chainTail level left (pre ++ vs) = .ok (a, vs) := hpre vs hvs
    rw [hws] at hread ⊢
    exact hread

/-- A declaration takes its word, and looks no further for it. -/
lemma looksAhead_declaration (ts : List Token) : LooksAhead declaration ts := by
  have htail : ∀ constant us, LooksAhead (declarationTail constant) us :=
    closed_looksAhead.declarationTail fun _ _ _ => trivial
  rw [declaration_eq]
  cases ts with
  | nil =>
    intro a rest h
    cases h
  | cons word us =>
    intro a rest h
    obtain ⟨pre, rfl, hpre⟩ := htail (word.kind = .constWord) us a rest h
    exact ⟨word :: pre, rfl, hpre⟩

end Reader

/-- All rules look one token further than they read. -/
lemma looksAhead_rules (S : Symbol) (ts : List Token) : LooksAhead (rules S) ts := by
  have hP := closed_looksAhead
  have hE : Closed.Missing fun _ _ => True := fun _ _ _ => trivial
  cases S with
  | program =>
    rw [rules, ofRule_program]
    exact looksAhead_bind (hP.statements hE ts) fun ss mid _ => looksAhead_pure _ mid
  | statements => exact hP.statements hE ts
  | statement => exact hP.statement hE ts
  | declaration => exact looksAhead_declaration ts
  | declarationTail constant => exact hP.declarationTail hE constant ts
  | expression => exact hP.assignment ts
  | assignment => exact hP.assignment ts
  | object => exact hP.object ts
  | properties => exact hP.properties ts
  | property => exact hP.property ts
  | additive => exact hP.additive_of_below (hP.below _)
  | additiveTail left => exact looksAhead_operatorTail .sum left ts
  | multiplicative => exact hP.operand .sum ts
  | multiplicativeTail left => exact looksAhead_operatorTail .product left ts
  | callMember => exact hP.operand .product ts
  | callTail callee => exact hP.callTail_of_below (hP.below _) (Nat.le_refl _) callee
  | arguments => exact hP.arguments ts
  | argumentsTail => exact hP.argumentsTail ts
  | argumentList => exact hP.argumentList ts
  | member => exact hP.member ts
  | memberTail base => exact hP.memberTail_of_below (hP.below _) (Nat.le_refl _) base
  | primary => exact hP.primary ts

/-! ## In front of a token that goes on nothing -/

/-- The rules for what follows a tree that was already read. -/
def Symbol.IsTail : Symbol → Bool
  | .additiveTail _ => true
  | .multiplicativeTail _ => true
  | .callTail _ => true
  | .memberTail _ => true
  | _ => false

/-- The kind of a token that goes on nothing.  A property asks for a comma or a brace. -/
def Symbol.stop : Symbol → TokenKind
  | .properties => .closeBrace
  | .property => .closeBrace
  | _ => .endOfInput

/-- What the rule `S` reads it reads in front of a token that goes on nothing. -/
def ReadBeforeStop (S : Symbol) : Prop :=
  ∀ ts (a : S.Tree) rest, rules S ts = .ok (a, rest) → ∃ pre, ts = pre ++ rest ∧
    ∀ m : Token, m.kind = S.stop → rules S (pre ++ [m]) = .ok (a, [m])

namespace Reader

/-- What `assignment` reads is derivable, without a bound on the tokens. -/
lemma soundBelow (n : Nat) : SoundBelow n := by
  intro us _ e rest h
  obtain ⟨pre, heq, hpre, -⟩ := assignment_sound h
  exact ⟨pre, heq, hpre⟩

/-- An end marker goes on no sum. -/
lemma stopsSum_of_endOfInput {m : Token} (hm : m.kind = .endOfInput) : StopsSum m :=
  stopsSum_of_kind hm (by decide)

end Reader

/-- Statements end in front of an end marker. -/
lemma statements_before_stop : ReadBeforeStop .statements := by
  intro ts ss rest h
  obtain ⟨pre, heq, hpre, -⟩ := statements_sound h
  exact ⟨pre, heq, fun m hm => statements_complete hpre hm []⟩

/-- A program is read like its statements. -/
lemma program_before_stop : ReadBeforeStop .program := by
  intro ts p rest h
  rw [rules, ofRule_program] at h ⊢
  obtain ⟨ss, mid, hss, hpure⟩ := bind_eq_ok.1 h
  cases hpure
  obtain ⟨pre, heq, hpre⟩ := statements_before_stop ts ss rest hss
  refine ⟨pre, heq, fun m hm => ?_⟩
  have hread : Reader.statements (pre ++ [m]) = .ok (ss, [m]) := hpre m hm
  rw [bind_of_ok hread, pure_apply]

/-- An end marker does not go on a statement. -/
lemma statement_before_stop : ReadBeforeStop .statement := by
  intro ts s rest h
  obtain ⟨pre, heq, hpre, -⟩ := statement_sound h
  refine ⟨pre, heq, fun m hm => ?_⟩
  have hkind : m.kind = .endOfInput := hm
  have hglue : ¬ Glues pre [m] := fun hglue => by simpa [hkind] using hglue.2
  exact statement_complete hpre (by simp [hkind]) hglue

/-- With its word in front the tail of a declaration is a statement, and known as one. -/
lemma declarationTail_before_stop (constant : Bool) :
    ReadBeforeStop (.declarationTail constant) := by
  intro ts s rest h
  -- The word itself is gone, so that one has to be found that the tail can stand behind.
  obtain ⟨w, hw, rfl⟩ : ∃ w : Token, (w.kind = .letWord ∨ w.kind = .constWord) ∧
      decide (w.kind = .constWord) = constant := by
    cases constant with
    | true => exact ⟨⟨.constWord, "", .start⟩, .inr rfl, rfl⟩
    | false => exact ⟨⟨.letWord, "", .start⟩, .inl rfl, rfl⟩
  obtain ⟨pre, heq, hpre⟩ := declarationTail_sound hw h
  refine ⟨pre, heq, fun m _ => ?_⟩
  have hread := declaration_complete hpre [m]
  rw [List.cons_append, statement_eq_next, peek_bind_cons, if_pos hw, next_bind_cons] at hread
  exact hread

/-- A declaration is its word and its tail. -/
lemma declaration_before_stop : ReadBeforeStop .declaration := by
  intro ts s rest h
  rw [rules, declaration_eq] at h ⊢
  cases ts with
  | nil => cases h
  | cons word us =>
    obtain ⟨pre, rfl, hpre⟩ := declarationTail_before_stop (word.kind = .constWord) us s rest h
    exact ⟨word :: pre, rfl, hpre⟩

/-- An end marker does not go on an assignment. -/
lemma assignment_before_stop : ReadBeforeStop .assignment := by
  intro ts e rest h
  obtain ⟨pre, heq, hpre, -⟩ := assignment_sound h
  exact ⟨pre, heq, fun m hm => assignment_complete hpre (follows_of_kind hm (by decide) pre [])⟩

/-- An end marker does not go on an object or a sum. -/
lemma object_before_stop : ReadBeforeStop .object := by
  intro ts e rest h
  obtain ⟨pre, heq, hpre, -⟩ := object_sound (soundBelow _) h
  refine ⟨pre, heq, fun m hm => object_complete hpre (.inr ⟨m, [], rfl, ?_⟩)⟩
  exact stopsSum_of_endOfInput hm

/-- Properties end in front of a closing brace. -/
lemma properties_before_stop : ReadBeforeStop .properties := by
  intro ts ps rest h
  obtain ⟨pre, heq, hpre⟩ := properties_sound (soundBelow _) (Nat.le_refl _) h
  exact ⟨pre, heq, fun m hm => properties_complete hpre hm []⟩

/-- A property ends with its comma, or in front of a closing brace. -/
lemma property_before_stop : ReadBeforeStop .property := by
  intro ts p rest h
  obtain ⟨pre, hpre, hends⟩ := property_sound (soundBelow _) (Nat.le_refl _) h
  rcases hends with ⟨c, heq, hcomma⟩ | ⟨heq, -⟩
  · refine ⟨pre ++ [c], by rw [heq, List.append_assoc, List.singleton_append], fun m _ => ?_⟩
    have hread := property_complete hpre (.inr hcomma) [m]
    rw [if_pos hcomma] at hread
    rw [List.append_assoc]
    exact hread
  · refine ⟨pre, heq, fun m hm => ?_⟩
    have hread := property_complete hpre (.inl hm) []
    rw [if_neg (by simp [hm, Symbol.stop])] at hread
    exact hread

/-- An end marker goes on no sum. -/
lemma additive_before_stop : ReadBeforeStop .additive := by
  intro ts e rest h
  obtain ⟨pre, heq, hpre⟩ := additive_sound (soundBelow _) e rest h
  refine ⟨pre, heq, fun m hm => ?_⟩
  have hstops : StopsSum m := stopsSum_of_endOfInput hm
  exact (additive_complete hpre hstops.toStopsProduct []).trans
    (chainTail_of_stops e hstops.not_sum [])

/-- An end marker goes on no product. -/
lemma multiplicative_before_stop : ReadBeforeStop .multiplicative := by
  intro ts e rest h
  obtain ⟨pre, heq, hpre⟩ := multiplicative_sound (soundBelow _) e rest h
  refine ⟨pre, heq, fun m hm => ?_⟩
  have hstops : StopsSum m := stopsSum_of_endOfInput hm
  exact (multiplicative_complete hpre hstops.toStopsCall []).trans
    (chainTail_of_stops e hstops.not_product [])

/-- An end marker opens no call. -/
lemma callMember_before_stop : ReadBeforeStop .callMember := by
  intro ts e rest h
  obtain ⟨pre, heq, hpre⟩ := callMember_sound (soundBelow _) e rest h
  refine ⟨pre, heq, fun m hm => ?_⟩
  have hstops : StopsSum m := stopsSum_of_endOfInput hm
  exact (callMember_complete hpre hstops.toStopsMember []).trans
    (callTail_of_stops e hstops.toStopsCall [])

/-- A list of arguments ends with its parenthesis, whatever is behind it. -/
lemma argumentList_before_stop : ReadBeforeStop .argumentList := by
  intro ts args rest h
  obtain ⟨pre, c, heq, hc, hpre, hne⟩ := argumentList_sound (soundBelow _) (Nat.lt_succ_self _) h
  refine ⟨pre ++ [c], by rw [heq, List.append_assoc, List.singleton_append], fun m _ => ?_⟩
  rw [List.append_assoc]
  exact argumentList_complete hpre hne hc [m]

/-- The tail of the arguments ends with its parenthesis, also if there are none. -/
lemma argumentsTail_before_stop : ReadBeforeStop .argumentsTail := by
  intro ts args rest h
  obtain ⟨pre, c, heq, hc, hpre⟩ := argumentsTail_sound (soundBelow _) (Nat.lt_succ_self _) h
  refine ⟨pre ++ [c], by rw [heq, List.append_assoc, List.singleton_append], fun m _ => ?_⟩
  rw [List.append_assoc]
  exact argumentsTail_of_argumentList hpre hc fun hne => argumentList_complete hpre hne hc [m]

/-- The arguments of a call are a parenthesis and their tail. -/
lemma arguments_before_stop : ReadBeforeStop .arguments := by
  intro ts args rest h
  rw [rules, arguments_eq] at h ⊢
  obtain ⟨o, us, ho, htail⟩ := bind_eq_ok.1 h
  obtain ⟨rfl, hopen⟩ := expect_eq_ok ho
  obtain ⟨pre, rfl, hpre⟩ := argumentsTail_before_stop us args rest htail
  refine ⟨o :: pre, rfl, fun m hm => ?_⟩
  rw [List.cons_append, bind_of_ok (expect_cons_of_eq _ _ hopen)]
  exact hpre m hm

/-- An end marker opens no access. -/
lemma member_before_stop : ReadBeforeStop .member := by
  intro ts e rest h
  obtain ⟨pre, heq, hpre⟩ := member_sound (soundBelow _) e rest h
  refine ⟨pre, heq, fun m hm => ?_⟩
  have hstops : StopsSum m := stopsSum_of_endOfInput hm
  exact (member_complete hpre [m]).trans (memberTail_of_stops e hstops.toStopsMember [])

/-- A primary is read whatever is behind it. -/
lemma primary_before_stop : ReadBeforeStop .primary := by
  intro ts e rest h
  obtain ⟨pre, heq, hpre⟩ := primary_sound (soundBelow _) e rest h
  exact ⟨pre, heq, fun m _ => primary_complete hpre [m]⟩

/-- What was read is read in front of a token that goes on nothing. -/
lemma read_before_stop {S : Symbol} (hS : S.IsTail = false) : ReadBeforeStop S := by
  cases S with
  | program => exact program_before_stop
  | statements => exact statements_before_stop
  | statement => exact statement_before_stop
  | declaration => exact declaration_before_stop
  | declarationTail constant => exact declarationTail_before_stop constant
  | expression => exact assignment_before_stop
  | assignment => exact assignment_before_stop
  | object => exact object_before_stop
  | properties => exact properties_before_stop
  | property => exact property_before_stop
  | additive => exact additive_before_stop
  | multiplicative => exact multiplicative_before_stop
  | callMember => exact callMember_before_stop
  | arguments => exact arguments_before_stop
  | argumentsTail => exact argumentsTail_before_stop
  | argumentList => exact argumentList_before_stop
  | member => exact member_before_stop
  | primary => exact primary_before_stop
  | _ => cases hS

/-- The same tokens give the same tree, whatever follows them. -/
lemma tree_unique {S : Symbol} (hS : S.IsTail = false) {pre us vs : List Token} {a b : S.Tree}
    (ha : rules S (pre ++ us) = .ok (a, us)) (hb : rules S (pre ++ vs) = .ok (b, vs)) : b = a := by
  obtain ⟨pre₁, heq₁, hread₁⟩ := read_before_stop hS _ a us ha
  obtain ⟨pre₂, heq₂, hread₂⟩ := read_before_stop hS _ b vs hb
  obtain rfl : pre = pre₁ := List.append_cancel_right heq₁
  obtain rfl : pre = pre₂ := List.append_cancel_right heq₂
  have hsame := (hread₁ ⟨S.stop, "", .start⟩ rfl).symm.trans (hread₂ ⟨S.stop, "", .start⟩ rfl)
  cases hsame
  rfl

/-- The rules come to an end and get on.  They are a turn of themselves, so that `unroll` leaves
nothing of them out, and on any list, with any tokens in it, a number of turns that depends on its
length alone is enough: what would be done behind them makes no difference.  What a rule reads
stands at the front of its list, and apart from the loops and a program it is not empty.  It is read
with the same tree in front of every list that starts like the one behind it; and in front of no
list at all is it read with another one. -/
theorem rules_terminate_with_progress :
    unroll rules = rules ∧
    (∀ (call : Readers) (S : Symbol) (ts : List Token) (n : Nat), 12 * (ts.length + 1) ≤ n →
      (unroll^[n] call) S ts = rules S ts) ∧
    ∀ (S : Symbol) (ts : List Token) (a : S.Tree) (rest : List Token),
      rules S ts = .ok (a, rest) → ∃ pre, ts = pre ++ rest ∧
        (S.Consumes → pre ≠ []) ∧
        (∀ us, us.head? = rest.head? → rules S (pre ++ us) = .ok (a, us)) ∧
        (S.IsTail = false → ∀ us b, rules S (pre ++ us) = .ok (b, us) → b = a) := by
  refine ⟨unroll_rules, fun call S ts n hn => iterate_unroll_eq call S hn, ?_⟩
  intro S ts a rest h
  obtain ⟨pre, rfl, hpre⟩ := looksAhead_rules S ts a rest h
  refine ⟨pre, rfl, fun hS hnil => ?_, hpre, fun hS us b hb => tree_unique hS h hb⟩
  have hlt : rest.length < (pre ++ rest).length := length_lt_of_consumes hS h
  rw [hnil, List.nil_append] at hlt
  exact Nat.lt_irrefl _ hlt

/-- An object ends with its brace, although a parenthesis opens behind it and the list ends there:
the tokens of `{ a } (`. -/
theorem rules_terminate_with_progress_object :
    let object : List Token := [⟨.openBrace, "\x7b", ⟨1, 1⟩⟩, ⟨.identifier, "a", ⟨1, 3⟩⟩,
      ⟨.closeBrace, "\x7d", ⟨1, 5⟩⟩]
    let rest : List Token := [⟨.openParen, "(", ⟨1, 7⟩⟩]
    let tree : Expr := .object [.shorthand "a"]
    rules .object (object ++ rest) = .ok (tree, rest) ∧
      (unroll^[60] fun _ => refuse .outOfTokens) .object (object ++ rest) = .ok (tree, rest) ∧
      ∃ pre, object ++ rest = pre ++ rest ∧ pre ≠ [] ∧
        ∀ us b, rules .object (pre ++ us) = .ok (b, us) → b = tree := by
  intro object rest tree
  have hname : IsProperties [⟨.identifier, "a", ⟨1, 3⟩⟩] [.shorthand "a"] :=
    .last (.shorthand rfl)
  have hobject : IsObject object tree := .braces rfl hname rfl
  have hends : EndsIn [.closeBrace] object := ⟨[_, _], _, rfl, by decide⟩
  have hread : rules .object (object ++ rest) = .ok (tree, rest) :=
    object_complete hobject (.inl hends)
  obtain ⟨-, hturns, hprogress⟩ := rules_terminate_with_progress
  obtain ⟨pre, heq, hne, -, hunique⟩ := hprogress .object (object ++ rest) tree rest hread
  refine ⟨hread, ?_, pre, heq, hne rfl, hunique rfl⟩
  exact (hturns _ .object (object ++ rest) 60 (by decide)).trans hread

end Scriptlet.Grammar
