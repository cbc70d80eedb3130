import Scriptlet.Proofs.Eval.Outcome
import Scriptlet.Proofs.Grammar.Exactness
import Scriptlet.Proofs.Grammar.Respelling
import Scriptlet.Proofs.Program.Rendering

/-!
# Scripts in pieces

A script can be given line by line: two sources with a newline between them are read as the
statements of the first and then those of the second, and running them together is the same as
running one after the other in the same scope.  There is one exception.  An expression without a
semicolon at the end of the first source runs on into a parenthesis at the start of the second, and
becomes a call (`RunsOn`).

The three parts of the argument are one section each.  The newline keeps the last token of the first
source and the first of the second apart, so that the tokens are those of both sources, but for
their places.  Places do not matter to derivations, and two lists of statements derive the joined
list.  And a run stops where its first part goes wrong, or goes on in the store that it left.
-/

namespace Scriptlet

open Lexer Grammar

/-! ## Joined texts -/

namespace Lexer

/-- A layout with blanks and a second layout behind it is a layout of the pieces of both. -/
lemma exists_layout_append {lead gap : List Char} {xs ys : List Piece} (hlead : IsGap lead)
    (hgap : IsGap gap) (hne : gap ≠ []) (hxs : xs.IsChain Piece.Maximal)
    (hys : ys.IsChain Piece.Maximal) :
    ∃ lead' zs, IsGap lead' ∧ zs.IsChain Piece.Maximal ∧
      layout lead xs ++ layout gap ys = layout lead' zs ∧
      zs.map Piece.spelling = xs.map Piece.spelling ++ ys.map Piece.spelling := by
  induction xs generalizing lead with
  | nil =>
    refine ⟨lead ++ gap, ys, List.forall_mem_append.2 ⟨hlead, hgap⟩, hys, ?_, rfl⟩
    rw [layout_nil, layout, layout, List.append_assoc]
  | cons x xs ih =>
    obtain ⟨hx, hchain⟩ := List.isChain_cons.1 hxs
    obtain ⟨gap', zs, hgap', hzs, hchars, hmap⟩ := ih x.isGap hchain
    let x' : Piece := ⟨x.kind, x.text, gap', x.spells, hgap'⟩
    have hstop : ∀ d ∈ (layout x'.gap zs).head?, ¬ Extends x'.kind d := by
      -- What stands behind the token is what stood there, or else the first of the blanks.
      intro d hd
      have hbehind : d ∈ (layout x.gap xs ++ layout gap ys).head? := by
        rw [hchars]
        exact hd
      cases hrest : layout x.gap xs with
      | cons c cs =>
        rw [hrest] at hbehind
        exact (stop_layout_iff x.isGap).2 hx d (by rw [hrest]; exact hbehind)
      | nil =>
        rw [hrest, List.nil_append, layout] at hbehind
        obtain ⟨c, cs, rfl⟩ := List.exists_cons_of_ne_nil hne
        cases hbehind
        exact not_extends_of_blank (hgap d List.mem_cons_self)
    refine ⟨lead, x' :: zs, hlead, List.isChain_cons.2 ⟨(stop_layout_iff hgap').1 hstop, hzs⟩,
      ?_, ?_⟩
    · rw [layout_cons, layout_cons, List.append_assoc, List.append_assoc, hchars]
    · rw [List.map_cons, List.map_cons, List.cons_append, hmap]
      rfl

/-- The tokens of a source are tokens that are no end markers, and one end marker behind them. -/
lemma exists_tokens_of_lex {source : String} {ts : List Token} (h : lex source = .ok ts) :
    ∃ us q, ts = us ++ [.endMarker q] ∧ ∀ t ∈ us, t.kind ≠ .endOfInput := by
  obtain ⟨lead, xs, -, -, -, rfl⟩ := exists_layout h
  obtain ⟨us, q, heq, hmap⟩ := Piece.exists_tokens_eq xs (Position.start.past lead)
  refine ⟨us, q, heq, fun t ht => ?_⟩
  obtain ⟨x, -, hkind, -⟩ := exists_piece_of_mem hmap ht
  rw [← hkind]
  exact x.kind_ne.2

/-- The tokens of a source show as the pieces of a layout. -/
lemma exists_layout_of_lex {source : String} {ts : List Token} {m : Token}
    (h : lex source = .ok (ts ++ [m])) :
    ∃ lead xs, IsGap lead ∧ xs.IsChain Piece.Maximal ∧ source.toList = layout lead xs ∧
      ts.map spelling = xs.map Piece.spelling := by
  obtain ⟨lead, xs, hlead, hxs, hsource, htokens⟩ := exists_layout h
  obtain ⟨us, q, heq, hmap⟩ := Piece.exists_tokens_eq xs (Position.start.past lead)
  obtain ⟨rfl, -⟩ := List.append_inj' (htokens.trans heq) rfl
  exact ⟨lead, xs, hlead, hxs, hsource, hmap⟩

/-- Two sources with a newline between them have the tokens of both, but for their places. -/
lemma exists_lex_join {first second : String} {ts us : List Token} {m n : Token}
    (hfirst : lex first = .ok (ts ++ [m])) (hsecond : lex second = .ok (us ++ [n])) :
    ∃ ws q, lex (first ++ "\n" ++ second) = .ok (ws ++ [.endMarker q]) ∧
      ws.map spelling = ts.map spelling ++ us.map spelling := by
  obtain ⟨lead, xs, hlead, hxs, htext, hts⟩ := exists_layout_of_lex hfirst
  obtain ⟨gap, ys, hgap, hys, htext', hus⟩ := exists_layout_of_lex hsecond
  have hnewline : IsGap ('\n' :: gap) := List.forall_mem_cons.2 ⟨by decide, hgap⟩
  obtain ⟨lead', zs, hlead', hzs, hchars, hmap⟩ :=
    exists_layout_append hlead hnewline (List.cons_ne_nil _ _) hxs hys
  have hjoined : (first ++ "\n" ++ second).toList = layout lead' zs := by
    rw [← hchars, String.toList_append, String.toList_append, htext, htext', List.append_assoc]
    rfl
  obtain ⟨ws, q, heq, hws⟩ := Piece.exists_tokens_eq zs (Position.start.past lead')
  refine ⟨ws, q, ?_, ?_⟩
  · rw [lex, hjoined, lexFrom_layout hlead' hzs, heq]
  · rw [hws, hmap, hts, hus]

end Lexer

/-! ## Joined statements -/

namespace Grammar

/-- What ends a list ends its last part, if that part is not empty. -/
lemma EndsIn.of_append {kinds : List TokenKind} {ts us : List Token} (h : EndsIn kinds (ts ++ us))
    (hne : us ≠ []) : EndsIn kinds us := by
  rcases List.eq_nil_or_concat us with rfl | ⟨vs, t, rfl⟩
  · exact absurd rfl hne
  · rw [List.concat_eq_append] at h ⊢
    rw [← List.append_assoc, endsIn_concat] at h
    exact endsIn_concat.2 h

/-- What starts a list starts its first part, if that part is not empty. -/
lemma StartsIn.of_append {kinds : List TokenKind} {ts us : List Token}
    (h : StartsIn kinds (ts ++ us)) (hne : ts ≠ []) : StartsIn kinds ts := by
  obtain ⟨t, vs, rfl⟩ := List.exists_cons_of_ne_nil hne
  rw [List.cons_append, startsIn_cons] at h
  exact startsIn_cons.2 h

/-- Statements with statements behind them are statements, unless the last of the former runs on
into the first of the latter. -/
lemma IsStatements.append {ts us : List Token} {ss ss' : List Statement}
    (hss : IsStatements ts ss) (hss' : IsStatements us ss') (hglue : ts = [] ∨ ¬ Glues ts us) :
    IsStatements (ts ++ us) (ss ++ ss') := by
  induction hss with
  | none => exact hss'
  | @more ts vs s ss hs _ hapart ih =>
    have hjoin : ¬ Glues (ts ++ vs) us := by
      refine hglue.resolve_left fun hnil => ?_
      obtain ⟨t, ws, rfl, -⟩ := hs.startsIn
      cases hnil
    rw [List.append_assoc, List.cons_append]
    by_cases hvs : vs = []
    · rw [hvs, List.append_nil] at hjoin
      refine .more hs (ih (.inl hvs)) ?_
      rw [hvs, List.nil_append]
      exact hjoin
    · refine .more hs (ih (.inr fun hglue' => hjoin ?_)) fun hglue' => hapart ?_
      · exact ⟨fun hends => hglue'.1 (hends.of_append hvs), hglue'.2⟩
      · exact ⟨hglue'.1, hglue'.2.of_append hvs⟩

end Grammar

/-- The tokens of a source that spells a program derive it. -/
lemma exists_isStatements_of_parse {source : String} {p : Program} (h : parse source = .ok p) :
    ∃ ts q, lex source = .ok (ts ++ [.endMarker q]) ∧ IsStatements ts p.body := by
  obtain ⟨us, hlex, hparse⟩ := parse_eq_ok_iff.1 h
  obtain ⟨ts, q, rfl, hts⟩ := exists_tokens_of_lex hlex
  refine ⟨ts, q, hlex, ?_⟩
  obtain ⟨rest, hread⟩ := Reader.parseTokens_eq_ok_iff.1 hparse
  rw [withEndMarker_concat ts rfl] at hread
  obtain ⟨pre, heq, hpre, hrest⟩ := Reader.statements_sound hread
  rw [append_marker_inj hts heq hrest]
  exact hpre

/-- The last statement of the first source would run on into the second: the last token of the
first is neither a semicolon nor a closing brace, and the second starts with an opening
parenthesis. -/
def RunsOn (first second : String) : Prop :=
  ∃ ts t m u us, lex first = .ok (ts ++ [t, m]) ∧ t.kind ≠ .semicolon ∧ t.kind ≠ .closeBrace ∧
    lex second = .ok (u :: us) ∧ u.kind = .openParen

/-- Sources of which the first does not run on have tokens that do not run together. -/
lemma not_glues_of_not_runsOn {first second : String} {ts us : List Token} {m n : Token}
    (hfirst : lex first = .ok (ts ++ [m])) (hsecond : lex second = .ok (us ++ [n]))
    (h : ¬ RunsOn first second) : ts = [] ∨ ¬ Glues ts us := by
  rcases List.eq_nil_or_concat ts with hnil | ⟨vs, t, hts⟩
  · exact .inl hnil
  · refine .inr fun hglue => h ?_
    obtain ⟨hends, u, ws, rfl, hu⟩ := hglue
    rw [List.concat_eq_append] at hts
    subst hts
    rw [endsIn_concat, List.mem_cons, List.mem_singleton, not_or] at hends
    refine ⟨vs, t, m, u, ws ++ [n], ?_, hends.1, hends.2, hsecond, List.mem_singleton.1 hu⟩
    rw [hfirst, List.append_assoc]
    rfl

/-- Two sources with a newline between them spell the statements of both. -/
lemma parse_join {first second : String} {p q : Program} (hfirst : parse first = .ok p)
    (hsecond : parse second = .ok q) (hjoin : ¬ RunsOn first second) :
    parse (first ++ "\n" ++ second) = .ok ⟨p.body ++ q.body⟩ := by
  obtain ⟨ts, m, hlex, hts⟩ := exists_isStatements_of_parse hfirst
  obtain ⟨us, n, hlex', hus⟩ := exists_isStatements_of_parse hsecond
  obtain ⟨ws, r, hjoined, hws⟩ := exists_lex_join hlex hlex'
  have hboth := hts.append hus (not_glues_of_not_runsOn hlex hlex' hjoin)
  rw [← List.map_append] at hws
  exact parse_of_isStatements hjoined (hboth.respell hws)

/-! ## Joined runs -/

/-- Statements run one after the other: what comes first runs first. -/
lemma evalStatements_append (e : ScopeId) (last : Value) (ss ss' : List Statement) :
    evalStatements e last (ss ++ ss') =
      evalStatements e last ss >>= fun v => evalStatements e v ss' := by
  induction ss generalizing last with
  | nil => rw [List.nil_append, evalStatements, pure_bind]
  | cons s ss ih =>
    rw [List.cons_append, evalStatements, evalStatements, bind_assoc]
    exact congrArg (s.eval e >>= ·) (funext fun v => ih v)

namespace Script

/-- A script that can be read runs its program. -/
lemma run_of_parse {source : String} {p : Program} (h : parse source = .ok p) (e : ScopeId)
    (s : Store) : run source e s = perform (p.eval e) s := by
  rw [run, h]

/-- A sequence stops where its first part goes wrong, or goes on in the store that it left. -/
lemma perform_bind {α β : Type} (x : Eval α) (f : α → Eval β) (s : Store) :
    perform (x >>= f) s =
      match perform x s with
      | (.error err, s') => (.error err, s')
      | (.ok v, s') => perform (f v) s' := by
  rw [perform_eq, perform_eq, Eval.outcome_bind]
  cases x.outcome s with
  | mk r s' => cases r <;> rfl

/-- Running two sources together is running one after the other.  If the first goes wrong, so do
both together, with the same error and in the same store; else they give what the second gives in
the store that the first left, or the value of the first if the second has no statement. -/
theorem run_join (first second : String) (p q : Program) (hfirst : parse first = .ok p)
    (hsecond : parse second = .ok q) (hjoin : ¬ RunsOn first second) :
    parse (first ++ "\n" ++ second) = .ok ⟨p.body ++ q.body⟩ ∧
    ∀ e s, run (first ++ "\n" ++ second) e s =
      match run first e s with
      | (.error err, s') => (.error err, s')
      | (.ok v, s') => if q.body.isEmpty then (.ok v, s') else run second e s' := by
  have hparse := parse_join hfirst hsecond hjoin
  refine ⟨hparse, fun e s => ?_⟩
  rw [run_of_parse hparse, run_of_parse hfirst]
  unfold Program.eval
  rw [evalStatements_append, perform_bind]
  cases hrun : perform (evalStatements e .null p.body) s with
  | mk r s' =>
    cases r with
    | error err => rfl
    | ok v =>
      dsimp only
      cases hbody : q.body with
      | nil => rfl
      | cons stmt stmts =>
        -- The value so far is forgotten with the first statement that is run.
        rw [run_of_parse hsecond, Program.eval, hbody]
        rfl

/-- An object at the end of a source does not run on into a parenthesis: here the sources `x = {}`
and `(x)`. -/
theorem run_join_object_then_paren :
    let first := "x = \x7b\x7d"
    let second := "(x)"
    parse first = .ok ⟨[.expr (.assign (.name "x") (.object []))]⟩ ∧
      parse second = .ok ⟨[.expr (.name "x")]⟩ ∧ ¬ RunsOn first second ∧
      parse (first ++ "\n" ++ second) =
        .ok ⟨[.expr (.assign (.name "x") (.object [])), .expr (.name "x")]⟩ ∧
      ∀ e s, run (first ++ "\n" ++ second) e s =
        match run first e s with
        | (.error err, s') => (.error err, s')
        | (.ok _, s') => run second e s' := by
  intro first second
  have hlex : lex first = .ok ([⟨.identifier, "x", ⟨1, 1⟩⟩, ⟨.equals, "=", ⟨1, 3⟩⟩,
      ⟨.openBrace, "\x7b", ⟨1, 5⟩⟩, ⟨.closeBrace, "\x7d", ⟨1, 6⟩⟩] ++ [.endMarker ⟨1, 7⟩]) := by
    decide +kernel
  have hlex' : lex second = .ok ([⟨.openParen, "(", ⟨1, 1⟩⟩, ⟨.identifier, "x", ⟨1, 2⟩⟩,
      ⟨.closeParen, ")", ⟨1, 3⟩⟩] ++ [.endMarker ⟨1, 4⟩]) := by
    decide +kernel
  have htarget : IsObject [⟨.identifier, "x", ⟨1, 1⟩⟩] (.name "x") :=
    .additive (.one (.one (isCallMember_of_isPrimary (.name rfl))))
  have hvalue : IsAssignment [⟨.openBrace, "\x7b", ⟨1, 5⟩⟩, ⟨.closeBrace, "\x7d", ⟨1, 6⟩⟩]
      (.object []) :=
    .object (.braces rfl .none rfl)
  have hname : IsPrimary [⟨.openParen, "(", ⟨1, 1⟩⟩, ⟨.identifier, "x", ⟨1, 2⟩⟩,
      ⟨.closeParen, ")", ⟨1, 3⟩⟩] (.name "x") :=
    (IsWrappedName.paren rfl (.name rfl) rfl).isPrimary
  have hfirst : parse first = .ok ⟨[.expr (.assign (.name "x") (.object []))]⟩ :=
    parse_of_isStatements hlex (.more (.expr (.assign htarget rfl hvalue)) .none
      fun hglue => not_startsIn_nil hglue.2)
  have hsecond : parse second = .ok ⟨[.expr (.name "x")]⟩ :=
    parse_of_isStatements hlex' (.more (.expr (isAssignment_of_isPrimary hname)) .none
      fun hglue => not_startsIn_nil hglue.2)
  have hjoin : ¬ RunsOn first second := by
    rintro ⟨ts, t, m, u, us, hfirst', -, hbrace, -, -⟩
    rw [hlex, Except.ok.injEq] at hfirst'
    change [_, _, _] ++ [_, _] = ts ++ [t, m] at hfirst'
    obtain ⟨-, hlast⟩ := List.append_inj' hfirst' rfl
    cases hlast
    exact hbrace rfl
  exact ⟨hfirst, hsecond, hjoin, run_join first second _ _ hfirst hsecond hjoin⟩

end Script

end Scriptlet
