import Scriptlet.Proofs.Lexer.Positions
import Scriptlet.Proofs.Program.Places

/-!
# Where the end marker stands

The tokens of a source can be given to the parser with their end marker or without it.  With it,
the marker stands behind the whole source, and so behind the blanks at its end, too; without it, the
parser puts one just past the last token.

No rule asks where the end marker stands, but one that refuses it says so.  `EndBlind` is this
invariant: a reader does one thing on some tokens with an end marker behind them, wherever that
stands, and its place shows only in the violation that names the marker.

The place just past the last token is the one behind the source without the blanks at its end,
because there is no newline in a token (`behind_of_lex_concat`).
-/

namespace Scriptlet

open Lexer

/-- The violation is that an end marker was found. -/
def ParseError.FoundEnd : ParseError → Prop
  | .unexpected _ found => found.kind = .endOfInput
  | .missingValue _ _ => False
  | .notAName _ => False
  | .outOfTokens => False

namespace Grammar.Reader

variable {α β : Type}

/-! ## The invariant of the steps -/

/-- What the reader `f` does on the tokens `us` with an end marker behind them. -/
inductive EndBlind (f : Reader α) (us : List Token) : Prop where
  /-- It gives the same and leaves the same, with the marker. -/
  | ok (a : α) (rest : List Token) : NoMarker rest →
    (∀ q, f (us ++ [.endMarker q]) = .ok (a, rest ++ [.endMarker q])) → EndBlind f us
  /-- It fails in the same way, and not because of the marker. -/
  | error (e : ParseError) : ¬ e.FoundEnd → (∀ q, f (us ++ [.endMarker q]) = .error e) →
    EndBlind f us
  /-- It refuses the marker where it stands. -/
  | atEnd (expected : Expectation) :
    (∀ q, f (us ++ [.endMarker q]) = .error (.unexpected expected (.endMarker q))) → EndBlind f us

/-- The violations that a look at the token `t` may give: an end marker is refused as such. -/
def BlamesEnd (t : Token) (e : ParseError) : Prop :=
  if t.kind = .endOfInput then ∃ expected, e = .unexpected expected t else ¬ e.FoundEnd

section Steps

variable {f : Reader α} {g : α → Reader β} {t : Token} {us : List Token}

/-- A reader that takes nothing leaves the marker where it is. -/
lemma endBlind_pure (a : α) (hus : NoMarker us) : EndBlind (pure a : Reader α) us :=
  .ok a us hus fun _ => rfl

/-- A refusal that is not of the marker does not depend on it. -/
lemma endBlind_refuse {e : ParseError} (he : ¬ e.FoundEnd) : EndBlind (refuse e : Reader α) us :=
  .error e he fun _ => rfl

/-- A reader that does the same on another list does so with every end marker. -/
lemma EndBlind.congr {f' : Reader α} {us' : List Token} (h : EndBlind f us)
    (heq : ∀ q, f' (us' ++ [.endMarker q]) = f (us ++ [.endMarker q])) : EndBlind f' us' := by
  cases h with
  | ok a rest hrest h => exact .ok a rest hrest fun q => (heq q).trans (h q)
  | error e he h => exact .error e he fun q => (heq q).trans (h q)
  | atEnd expected h => exact .atEnd expected fun q => (heq q).trans (h q)

/-- A sequence is blind to the place of the marker if its parts are. -/
lemma EndBlind.bind (hf : EndBlind f us)
    (hg : ∀ a rest, NoMarker rest →
      (∀ q, f (us ++ [.endMarker q]) = .ok (a, rest ++ [.endMarker q])) → EndBlind (g a) rest) :
    EndBlind (f >>= g) us := by
  cases hf with
  | ok a rest hrest h => exact (hg a rest hrest h).congr fun q => bind_of_ok (h q)
  | error e he h => exact .error e he fun q => bind_of_error (h q)
  | atEnd expected h => exact .atEnd expected fun q => bind_of_error (h q)

/-- Behind a dot, an end marker is refused where a primary should start. -/
lemma EndBlind.dotName {d : Token} (h : EndBlind primary us) :
    EndBlind Reader.dotName (d :: us) := by
  cases us with
  | nil =>
    refine .atEnd .expression fun q => ?_
    have hprimary : primary [.endMarker q] = .error (.unexpected .expression (.endMarker q)) :=
      primary_cons_other (by simp [Token.endMarker]) []
    rw [List.cons_append, List.nil_append, dotName_cons_cons]
    exact bind_of_error hprimary
  | cons n vs =>
    have hchecked : EndBlind (do
        let key ← primary
        if key.kind = .identifier then pure key else refuse (.notAName n.position)) (n :: vs) := by
      refine h.bind fun key rest hrest _ => ?_
      split_ifs
      · exact endBlind_pure key hrest
      · exact endBlind_refuse id
    exact hchecked.congr fun q => dotName_cons_cons d n (vs ++ [Token.endMarker q])

end Steps

/-- The reader `f` is blind to where the end marker stands, if the list `ts` has one at its end. -/
def EndBlindOn (f : Reader α) (ts : List Token) : Prop :=
  ∀ us q, NoMarker us → ts = us ++ [.endMarker q] → EndBlind f us

/-- A list whose first token is no marker has its marker among the others. -/
lemma endBlindOn_cons {f : Reader α} {t : Token} {us : List Token} (ht : t.kind ≠ .endOfInput)
    (h : ∀ vs q, NoMarker vs → us = vs ++ [.endMarker q] → EndBlind f (t :: vs)) :
    EndBlindOn f (t :: us) := by
  intro ws q hws heq
  cases ws with
  | nil =>
    cases heq
    exact absurd rfl ht
  | cons w vs =>
    cases heq
    exact h vs q (noMarker_cons.1 hws).2 rfl

/-- Looking at a token does not tell where an end marker stands. -/
lemma endBlindOn_look {g : Token → Reader α} {ts : List Token}
    (h : ∀ t us, ts = t :: us →
      (EndBlindOn (g t) (t :: us) ∧ Placeless g t) ∨ ∃ e, BlamesEnd t e ∧ Refuses g t e) :
    EndBlindOn (peek >>= g) ts := by
  rintro us q hus rfl
  cases us with
  | nil =>
    rcases h (.endMarker q) [] rfl with ⟨hg, hplace⟩ | ⟨e, he, -, hmoved⟩
    · refine (hg [] q hus rfl).congr fun q' => ?_
      exact congrFun (hplace q') [.endMarker q']
    · obtain ⟨expected, rfl⟩ : ∃ expected, e = .unexpected expected (.endMarker q) := he
      exact .atEnd expected fun q' => congrFun (hmoved q') [.endMarker q']
  | cons t vs =>
    have ht : t.kind ≠ .endOfInput := (noMarker_cons.1 hus).1
    rcases h t (vs ++ [.endMarker q]) rfl with ⟨hg, -⟩ | ⟨e, he, hrefuse, -⟩
    · exact (hg (t :: vs) q hus rfl).congr fun q' => peek_bind_cons g t _
    · rw [BlamesEnd, if_neg ht] at he
      refine .error e he fun q' => ?_
      rw [List.cons_append, peek_bind_cons, hrefuse]
      rfl

/-- The invariant passes through the steps of the rules. -/
lemma closed_endBlindOn : Closed BlamesEnd fun f ts => EndBlindOn f ts where
  pure a ts us q hus hts := endBlind_pure a hus
  next_bind := by
    intro α g t us ht hg
    exact endBlindOn_cons ht fun vs q hvs heq => (hg vs q hvs heq).congr fun _ => rfl
  look := endBlindOn_look
  unexpected := by
    intro expected t _
    unfold BlamesEnd
    split_ifs with ht
    · exact ⟨expected, rfl⟩
    · exact ht
  bind := by
    rintro α β f g ts hf hg us q hus rfl
    refine (hf us q hus rfl).bind fun a rest hrest hread => ?_
    exact hg a _ (hread q) rest q hrest rfl
  dotName := by
    intro d us hd hprimary
    refine endBlindOn_cons (by simp [hd]) fun vs q hvs heq => ?_
    exact (hprimary vs q hvs heq).dotName

/-- A constant without its value is refused at a semicolon, which is no marker. -/
lemma missing_blamesEnd : Closed.Missing BlamesEnd := by
  intro name t ht
  rw [BlamesEnd, if_neg (by simp [ht])]
  exact id

/-- Statements are read alike wherever the end marker stands. -/
lemma endBlind_statements {ts : List Token} (hts : NoMarker ts) : EndBlind statements ts :=
  closed_endBlindOn.statements missing_blamesEnd _ ts .start hts rfl

end Grammar.Reader

/-! ## The places of both end markers -/

namespace Position

/-- Characters without a newline among them are as many columns. -/
lemma past_of_no_newline {cs : List Char} (h : '\n' ∉ cs) (p : Position) :
    p.past cs = ⟨p.line, p.column + cs.length⟩ := by
  induction cs generalizing p with
  | nil => rfl
  | cons c cs ih =>
    rw [List.mem_cons, not_or] at h
    rw [past_cons, ih h.2, advance, if_neg (Ne.symm h.1), List.length_cons, Nat.add_assoc,
      Nat.add_comm 1]

end Position

/-- The place just past a token is the one past its characters, if no newline is among them. -/
lemma Token.finish_eq {t : Token} (h : '\n' ∉ t.text.toList) :
    t.finish = t.position.past t.text.toList := by
  rw [Position.past_of_no_newline h, String.length_toList]
  rfl

namespace Lexer

open Position

/-- There is no blank in a token. -/
lemma Spells.isBlank_eq_false {kind : TokenKind} {text : List Char} (h : Spells kind text) :
    ∀ c ∈ text, isBlank c = false := by
  intro c hc
  rcases kind_cases kind with rfl | hword | hmark
  · exact Lexer.isBlank_eq_false (by decide) (h.2 c hc)
  · have hletter : isWordChar c = true := by
      match text, (h.isWord hword).1 with
      | d :: cs, ⟨hd, hcs⟩ =>
        rcases List.mem_cons.1 hc with rfl | hc
        · exact isWordChar_iff.2 (.inl hd)
        · exact isWordChar_iff.2 (hcs c hc)
    exact Lexer.isBlank_eq_false (by decide) hletter
  · obtain ⟨d, rfl, -, hblank, -⟩ := h.mark hmark
    rw [List.mem_singleton.1 hc]
    exact hblank

/-- A text that ends with a token and blanks ends with the token once the blanks are dropped. -/
lemma rdropWhile_isBlank_append {front gap : List Char} (x : Piece) (hgap : IsGap gap) :
    (front ++ (x.text ++ gap)).rdropWhile isBlank = front ++ x.text := by
  have hblank : ∀ c ∈ gap.reverse, isBlank c = true :=
    fun c hc => isBlank_iff.2 (hgap c (List.mem_reverse.1 hc))
  have hdrop : (front ++ (x.text ++ gap)).rdropWhile isBlank =
      (front ++ x.text).rdropWhile isBlank := by
    unfold List.rdropWhile
    rw [← List.append_assoc, List.reverse_append, List.dropWhile_append_of_pos hblank]
  obtain ⟨c, cs, htext, -⟩ := x.spells.extends_head
  have hne : x.text ≠ [] := by simp [htext]
  rw [hdrop, List.rdropWhile_eq_self_iff]
  intro hfront
  rw [List.getLast_append_of_ne_nil hfront hne,
    x.spells.isBlank_eq_false _ (List.getLast_mem hne)]
  exact Bool.false_ne_true

/-- The tokens of a source show as the pieces of a layout, and each of them stands behind the pieces
in front of it. -/
lemma exists_places_of_lex {source : String} {ts : List Token} {m : Token}
    (h : lex source = .ok (ts ++ [m])) :
    ∃ lead xs, IsGap lead ∧ source.toList = layout lead xs ∧
      ts.map spelling = xs.map Piece.spelling ∧
      ∀ i t, (ts ++ [m])[i]? = some t → t.position = behind (layout lead (xs.take i)) := by
  obtain ⟨lead, xs, hlead, -, hsource, htokens⟩ := exists_layout h
  rw [start_past_eq] at htokens
  obtain ⟨us, q, heq, hshown⟩ := Piece.exists_tokens_eq xs (behind lead)
  obtain ⟨rfl, -⟩ := List.append_inj' (htokens.trans heq) rfl
  refine ⟨lead, xs, hlead, hsource, hshown, fun i t hi => ?_⟩
  rw [htokens] at hi
  exact Piece.position_of_tokens hi

/-- The end marker of a source stands behind all of it. -/
lemma endMarker_of_lex {source : String} {ts : List Token} {m : Token}
    (h : lex source = .ok (ts ++ [m])) : m = .endMarker (behind source.toList) := by
  obtain ⟨us, q, heq, -⟩ := exists_tokens_of_lex h
  obtain ⟨-, hm⟩ := List.append_inj' heq rfl
  obtain ⟨lead, xs, -, hsource, hshown, hplace⟩ := exists_places_of_lex h
  have hlength : ts.length = xs.length := by simpa using congrArg List.length hshown
  have hend := hplace ts.length m List.getElem?_concat_length
  rw [hlength, List.take_length, ← hsource] at hend
  rw [List.singleton_inj.1 hm] at hend ⊢
  rw [← hend]
  rfl

/-- A source without tokens is blank. -/
lemma rdropWhile_of_lex_nil {source : String} {m : Token} (h : lex source = .ok [m]) :
    source.toList.rdropWhile isBlank = [] := by
  have hlex : lex source = .ok ([] ++ [m]) := h
  obtain ⟨lead, xs, hlead, hsource, hshown, -⟩ := exists_places_of_lex hlex
  have hnil : xs = [] := by simpa using hshown.symm
  rw [hsource, hnil, layout_nil, List.rdropWhile_eq_nil_iff]
  exact fun c hc => isBlank_iff.2 (hlead c hc)

/-- The place behind all of a source but the blanks at its end is just past its last token, in which
there is no newline. -/
lemma behind_of_lex_concat {source : String} {us : List Token} {t m : Token}
    (h : lex source = .ok (us ++ [t] ++ [m])) :
    behind (source.toList.rdropWhile isBlank) = t.position.past t.text.toList ∧
      '\n' ∉ t.text.toList := by
  obtain ⟨lead, xs, -, hsource, hshown, hplace⟩ := exists_places_of_lex h
  rw [List.map_append] at hshown
  obtain ⟨ys, zs, rfl, hys, hzs⟩ := List.map_eq_append_iff.1 hshown.symm
  obtain ⟨x, ws, rfl, hspelling, hws⟩ := List.map_eq_cons_iff.1 hzs
  obtain rfl := List.map_eq_nil_iff.1 hws
  have hlength : us.length = ys.length := by simpa using (congrArg List.length hys).symm
  have hposition : t.position = behind (layout lead ys) := by
    rw [hplace us.length t (by simp), hlength, List.take_left]
  have hlayout : layout lead (ys ++ [x]) = layout lead ys ++ (x.text ++ x.gap) := by
    simp [layout, Piece.chars]
  have htext : x.text = t.text.toList := by
    rw [← (Prod.mk.inj hspelling).2, String.toList_ofList]
  rw [← htext, hsource, hlayout, rdropWhile_isBlank_append x x.isGap, behind_append, hposition]
  refine ⟨rfl, fun hnewline => ?_⟩
  exact absurd (x.spells.isBlank_eq_false _ hnewline) (by decide)

end Lexer

/-! ## Parsing with and without the end marker -/

open Grammar Lexer Position

/-- The parser puts an end marker behind the source without the blanks at its end. -/
lemma withEndMarker_of_lex {source : String} {ts : List Token} {m : Token}
    (h : lex source = .ok (ts ++ [m])) (hts : NoMarker ts) :
    withEndMarker ts = ts ++ [.endMarker (behind (source.toList.rdropWhile isBlank))] := by
  rcases List.eq_nil_or_concat ts with rfl | ⟨us, t, hconcat⟩
  · rw [rdropWhile_of_lex_nil h]
    rfl
  · rw [List.concat_eq_append] at hconcat
    subst hconcat
    obtain ⟨hplace, hnewline⟩ := behind_of_lex_concat h
    have ht : t.kind ≠ .endOfInput := hts t (List.mem_append_right us List.mem_cons_self)
    rw [hplace, ← Token.finish_eq hnewline, withEndMarker, List.getLast?_concat]
    exact if_neg ht

/-- The parser does the same on tokens with an end marker behind them, wherever it stands. -/
lemma parseTokens_cases {ts : List Token} (hts : NoMarker ts) :
    (∃ prog, ∀ us q, withEndMarker us = ts ++ [.endMarker q] → parseTokens us = .ok prog) ∨
    (∃ e, ¬ e.FoundEnd ∧ ∀ us q, withEndMarker us = ts ++ [.endMarker q] →
      parseTokens us = .error e) ∨
    ∃ expected, ∀ us q, withEndMarker us = ts ++ [.endMarker q] →
      parseTokens us = .error (.unexpected expected (.endMarker q)) := by
  cases Reader.endBlind_statements hts with
  | ok body rest _ h =>
    refine .inl ⟨⟨body⟩, fun us q hus => ?_⟩
    rw [Reader.parseTokens_eq, hus, h]
    rfl
  | error e he h =>
    refine .inr (.inl ⟨e, he, fun us q hus => ?_⟩)
    rw [Reader.parseTokens_eq, hus, h]
    rfl
  | atEnd expected h =>
    refine .inr (.inr ⟨expected, fun us q hus => ?_⟩)
    rw [Reader.parseTokens_eq, hus, h]
    rfl

/-- The tokens of a source without their end marker are the same program as the source, or violate
the grammar alike.  Only a violation that an end marker was found has two places: just past the last
token, which is behind the source without the blanks at its end, and behind the whole source.  These
are one if there are no such blanks. -/
theorem parseTokens_without_marker (source : String) (ts : List Token) (m : Token)
    (h : lex source = .ok (ts ++ [m])) :
    let past := behind (source.toList.rdropWhile isBlank)
    ((∃ prog, parseTokens ts = .ok prog ∧ parse source = .ok prog) ∨
      (∃ e, ¬ e.FoundEnd ∧ parseTokens ts = .error e ∧ parse source = .error (.parse e)) ∨
      ∃ expected, parseTokens ts = .error (.unexpected expected (.endMarker past)) ∧
        parse source =
          .error (.parse (.unexpected expected (.endMarker (behind source.toList))))) ∧
    (ts = [] → past = .start) ∧
    (∀ us t, ts = us ++ [t] → past = t.position.past t.text.toList) ∧
    ((∀ c ∈ source.toList.getLast?, isBlank c = false) →
      parse source = (parseTokens ts).mapError .parse) := by
  intro past
  obtain ⟨us, q, heq, hus⟩ := exists_tokens_of_lex h
  obtain ⟨rfl, -⟩ := List.append_inj' heq rfl
  obtain rfl := endMarker_of_lex h
  have hwithout : withEndMarker ts = ts ++ [.endMarker past] := withEndMarker_of_lex h hus
  have hwith := withEndMarker_concat ts (m := .endMarker (behind source.toList)) rfl
  have hparse := parse_of_lex h
  refine ⟨?_, ?_, ?_, fun hend => ?_⟩
  · rcases parseTokens_cases hus with ⟨prog, hall⟩ | ⟨e, he, hall⟩ | ⟨expected, hall⟩
    · rw [hall _ _ hwith] at hparse
      exact .inl ⟨prog, hall _ _ hwithout, hparse⟩
    · rw [hall _ _ hwith] at hparse
      exact .inr (.inl ⟨e, he, hall _ _ hwithout, hparse⟩)
    · rw [hall _ _ hwith] at hparse
      exact .inr (.inr ⟨expected, hall _ _ hwithout, hparse⟩)
  · rintro rfl
    exact congrArg behind (rdropWhile_of_lex_nil h)
  · rintro us t rfl
    exact (behind_of_lex_concat h).1
  · have hsame : source.toList.rdropWhile isBlank = source.toList := by
      rw [List.rdropWhile_eq_self_iff]
      intro hne
      rw [hend _ (List.getLast?_eq_some_getLast hne)]
      exact Bool.false_ne_true
    rw [hparse, Reader.parseTokens_eq, Reader.parseTokens_eq, hwith, hwithout]
    dsimp only [past]
    rw [hsame]

/-- The source `1 +` and a newline: the sum is open just past the sign, and in the next line. -/
theorem parseTokens_without_marker_open_sum :
    let ts : List Token := [⟨.number, "1", ⟨1, 1⟩⟩, ⟨.operator, "+", ⟨1, 3⟩⟩]
    lex "1 +\n" = .ok (ts ++ [.endMarker ⟨2, 1⟩]) ∧
      parseTokens ts = .error (.unexpected .expression (.endMarker ⟨1, 4⟩)) ∧
      parse "1 +\n" = .error (.parse (.unexpected .expression (.endMarker ⟨2, 1⟩))) := by
  intro ts
  have hlex : lex "1 +\n" = .ok (ts ++ [.endMarker ⟨2, 1⟩]) := by decide +kernel
  have hpast : behind ("1 +\n".toList.rdropWhile isBlank) = ⟨1, 4⟩ := by decide +kernel
  have hend : behind "1 +\n".toList = ⟨2, 1⟩ := by decide +kernel
  have herror : (match parseTokens ts with | .ok _ => none | .error e => some e) =
      some (.unexpected .expression (.endMarker ⟨1, 4⟩)) := by
    decide +kernel
  obtain ⟨hcases, -⟩ := parseTokens_without_marker _ ts _ hlex
  rw [hpast, hend] at hcases
  rcases hcases with ⟨prog, hts, -⟩ | ⟨e, he, hts, -⟩ | ⟨expected, hts, hsource⟩
  · rw [hts] at herror
    cases herror
  · rw [hts] at herror
    cases herror
    exact absurd rfl he
  · rw [hts] at herror
    cases herror
    exact ⟨hlex, hts, hsource⟩

end Scriptlet
