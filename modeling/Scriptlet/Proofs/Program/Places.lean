import Scriptlet.Proofs.Grammar.EndMarker
import Scriptlet.Proofs.Program.Joining

/-!
# Places do not matter

Two sources whose tokens are spelled alike, kind by kind and text by text, may differ in where their
tokens stand.  They are the same program, or violate the grammar in the same way at tokens of the
same number; and so they run alike.

This compares two runs of the parser.  `SameReading ts ts'` relates what a reader did on the two
lists, and `Follows` says that a reader does so on every list that is spelled like the first one.
The rules follow because no step of theirs looks at places: a step goes on alike with a token that
was moved, or refuses it with a violation that moved along (`Placeless`, `Refuses`).

Blanks between tokens only move them.  So the second half of the main result says that a source may
be laid out anew with any other blanks, as long as no two tokens run together.
-/

namespace Scriptlet

open Lexer

namespace Grammar.Reader

variable {α β : Type}

/-! ## Two runs of a reader -/

/-- Tokens that are spelled alike differ in their places only. -/
lemma eq_movedTo_of_spelling {t t' : Token} (h : spelling t' = spelling t) :
    t' = t.movedTo t'.position := by
  obtain ⟨kind, text, p⟩ := t
  obtain ⟨kind', text', p'⟩ := t'
  obtain ⟨rfl, rfl⟩ := Prod.mk.inj h
  rfl

/-- What was done on the lists `ts` and `ts'` is the same but for places. -/
inductive SameReading (ts ts' : List Token) :
    Except ParseError (α × List Token) → Except ParseError (α × List Token) → Prop where
  /-- The same was read off the same number of tokens. -/
  | ok (a : α) (n : Nat) : SameReading ts ts' (.ok (a, ts.drop n)) (.ok (a, ts'.drop n))
  /-- The same violation was found, at two tokens of the same number. -/
  | error (e : ParseError) {t t' : Token} : (t, t') ∈ ts.zip ts' →
    SameReading ts ts' (.error (e.movedTo t.position)) (.error (e.movedTo t'.position))
  /-- The tokens ran out both times. -/
  | outOfTokens : SameReading ts ts' (.error .outOfTokens) (.error .outOfTokens)

/-- What was done behind the same number of tokens. -/
lemma SameReading.of_drop {ts ts' : List Token} {n : Nat}
    {r r' : Except ParseError (α × List Token)} (h : SameReading (ts.drop n) (ts'.drop n) r r') :
    SameReading ts ts' r r' := by
  cases h with
  | ok a m =>
    rw [List.drop_drop, List.drop_drop]
    exact .ok a (n + m)
  | error e hmem =>
    have hdrop : (ts.drop n).zip (ts'.drop n) = (ts.zip ts').drop n := List.drop_zipWith.symm
    rw [hdrop] at hmem
    exact .error e (List.mem_of_mem_drop hmem)
  | outOfTokens => exact .outOfTokens

/-- What `f` does on `ts` it does on every list that is spelled alike. -/
def Follows (f : Reader α) (ts : List Token) : Prop :=
  ∀ ts', ts'.map spelling = ts.map spelling → SameReading ts ts' (f ts) (f ts')

/-! ## The steps follow -/

/-- A reader that takes nothing does the same on all lists. -/
lemma follows_pure (a : α) (ts : List Token) : Follows (pure a : Reader α) ts :=
  fun _ _ => .ok a 0

/-- Behind a token that is taken, both runs go on alike. -/
lemma Follows.next_bind {g : Reader α} {t : Token} {us : List Token} (hg : Follows g us) :
    Follows (next >>= fun _ => g) (t :: us) := by
  intro ts' hts'
  obtain ⟨t', us', rfl, -, -, hus'⟩ := exists_cons_of_shown hts'
  exact SameReading.of_drop (n := 1) (hg us' hus')

/-- A look at a token goes on alike in both places, or refuses the token in each. -/
lemma follows_look {g : Token → Reader α} {ts : List Token}
    (h : ∀ t us, ts = t :: us → (Follows (g t) (t :: us) ∧ Placeless g t) ∨
      ∃ e : ParseError, e.movedTo t.position = e ∧ Refuses g t e) :
    Follows (peek >>= g) ts := by
  intro ts' hts'
  cases ts with
  | nil =>
    rw [List.map_nil, List.map_eq_nil_iff] at hts'
    subst hts'
    exact .outOfTokens
  | cons t us =>
    obtain ⟨t', us', rfl, hspelling, -⟩ := List.map_eq_cons_iff.1 hts'
    have ht' : t' = t.movedTo t'.position := eq_movedTo_of_spelling hspelling
    rw [peek_bind_cons, peek_bind_cons]
    rcases h t us rfl with ⟨hfollows, hplace⟩ | ⟨e, he, hrefuse, hmoved⟩
    · have hg : g t' = g t := by
        rw [ht']
        exact hplace t'.position
      rw [hg]
      exact hfollows _ hts'
    · have hg : g t' = refuse (e.movedTo t'.position) := by
        rw [ht']
        exact hmoved t'.position
      have hmem : (t, t') ∈ (t :: us).zip (t' :: us') := by
        rw [List.zip_cons_cons]
        exact List.mem_cons_self
      have hsame : SameReading (α := α) (t :: us) (t' :: us') _ _ := .error e hmem
      rw [he] at hsame
      rw [hrefuse, hg]
      exact hsame

/-- Two sequences do the same if they do so where their first parts gave something. -/
lemma SameReading.bind {f : Reader α} {g g' : α → Reader β} {ts ts' : List Token}
    (hf : SameReading ts ts' (f ts) (f ts'))
    (hg : ∀ a n, f ts = .ok (a, ts.drop n) →
      SameReading ts ts' (g a (ts.drop n)) (g' a (ts'.drop n))) :
    SameReading ts ts' ((f >>= g) ts) ((f >>= g') ts') := by
  generalize hr : f ts = r at hf
  generalize hr' : f ts' = r' at hf
  cases hf with
  | ok a n =>
    rw [bind_of_ok hr, bind_of_ok hr']
    exact hg a n hr
  | error e hmem =>
    rw [bind_of_error hr, bind_of_error hr']
    exact .error e hmem
  | outOfTokens =>
    rw [bind_of_error hr, bind_of_error hr']
    exact .outOfTokens

/-- A sequence does the same on both lists if both of its parts do. -/
lemma Follows.bind {f : Reader α} {g : α → Reader β} {ts : List Token} (hf : Follows f ts)
    (hg : ∀ a mid, f ts = .ok (a, mid) → Follows (g a) mid) : Follows (f >>= g) ts := by
  intro ts' hts'
  refine (hf ts' hts').bind fun a n hread => SameReading.of_drop (hg a _ hread _ ?_)
  rw [List.map_drop, List.map_drop, hts']

/-- Behind a dot, the violation is reported at the first token there, in both runs. -/
lemma Follows.dotName {d : Token} {us : List Token} (hprimary : Follows primary us) :
    Follows Reader.dotName (d :: us) := by
  intro ts' hts'
  obtain ⟨d', us', rfl, -, -, hus'⟩ := exists_cons_of_shown hts'
  cases us with
  | nil =>
    rw [List.map_nil, List.map_eq_nil_iff] at hus'
    subst hus'
    exact .outOfTokens
  | cons n vs =>
    obtain ⟨n', vs', rfl, -, -, -⟩ := exists_cons_of_shown hus'
    have hmem : (n, n') ∈ (n :: vs).zip (n' :: vs') := by
      rw [List.zip_cons_cons]
      exact List.mem_cons_self
    rw [dotName_cons_cons, dotName_cons_cons]
    refine SameReading.of_drop (n := 1) ((hprimary _ hus').bind fun key m _ => ?_)
    by_cases hkey : key.kind = .identifier
    · rw [if_pos hkey, if_pos hkey]
      exact .ok key m
    · rw [if_neg hkey, if_neg hkey]
      exact .error (.notAName n.position) hmem

/-! ## The rules follow -/

/-- To follow passes through the steps of the rules; violations stand at the token that was looked
at. -/
lemma closed_follows : Closed (fun t e => e.movedTo t.position = e) fun f ts => Follows f ts where
  pure := follows_pure
  next_bind _ := Follows.next_bind
  look := follows_look
  unexpected _ _ _ := rfl
  bind := Follows.bind
  dotName _ := Follows.dotName

/-- Statements are read alike off any two lists that are spelled alike. -/
lemma follows_statements (ts : List Token) : Follows statements ts :=
  closed_follows.statements (fun _ _ _ => rfl) ts

end Grammar.Reader

/-! ## Sources -/

open Grammar

/-- The sources have the same meaning; `ts` and `ts'` are their tokens. -/
structure SameMeaning (ts ts' : List Token) (source source' : String) : Prop where
  /-- They are the same program, or violate the grammar alike at tokens of the same number. -/
  parse : (∃ p, parse source = .ok p ∧ parse source' = .ok p) ∨
    ∃ (i : Nat) (t t' : Token) (e : ParseError), ts[i]? = some t ∧ ts'[i]? = some t' ∧
      e ≠ .outOfTokens ∧ parse source = .error (.parse (e.movedTo t.position)) ∧
      parse source' = .error (.parse (e.movedTo t'.position))
  /-- They leave the same store. -/
  store : ∀ e s, (Script.run source e s).2 = (Script.run source' e s).2
  /-- They give the same value. -/
  value : ∀ e s v, (Script.run source e s).1 = .ok v ↔ (Script.run source' e s).1 = .ok v
  /-- They go wrong with the same error. -/
  error : ∀ e s err, (Script.run source e s).1 = .error (.runtime err) ↔
    (Script.run source' e s).1 = .error (.runtime err)

/-- A source with tokens is what its tokens are. -/
lemma parse_of_lex {source : String} {ts : List Token} (h : lex source = .ok ts) :
    parse source = (parseTokens ts).mapError .parse := by
  unfold parse
  rw [h]
  dsimp only
  cases parseTokens ts <;> rfl

/-- A source that is no program changes nothing. -/
lemma Script.run_of_parse_error {source : String} {err : Error} (h : parse source = .error err)
    (e : ScopeId) (s : Store) : Script.run source e s = (.error err, s) := by
  rw [Script.run, h]

/-- The parser does the same on lists with an end marker that are spelled alike. -/
lemma parseTokens_of_spelling {ts ts' : List Token} {m m' : Token} (hm : m.kind = .endOfInput)
    (hm' : m'.kind = .endOfInput) (h : (ts' ++ [m']).map spelling = (ts ++ [m]).map spelling) :
    (∃ p, parseTokens (ts ++ [m]) = .ok p ∧ parseTokens (ts' ++ [m']) = .ok p) ∨
    ∃ (e : ParseError) (t t' : Token), (t, t') ∈ (ts ++ [m]).zip (ts' ++ [m']) ∧ e ≠ .outOfTokens ∧
      parseTokens (ts ++ [m]) = .error (e.movedTo t.position) ∧
      parseTokens (ts' ++ [m']) = .error (e.movedTo t'.position) := by
  have hsame := Reader.follows_statements _ _ h
  have hparse := Reader.parseTokens_eq (ts ++ [m])
  have hparse' := Reader.parseTokens_eq (ts' ++ [m'])
  have hout := parseTokens_ne_outOfTokens (ts ++ [m])
  rw [withEndMarker_concat ts hm] at hparse
  rw [withEndMarker_concat ts' hm'] at hparse'
  rw [hparse, hparse'] at *
  generalize Reader.statements (ts ++ [m]) = r at *
  generalize Reader.statements (ts' ++ [m']) = r' at *
  cases hsame with
  | ok body n => exact .inl ⟨⟨body⟩, rfl, rfl⟩
  | @error e t t' hmem =>
    refine .inr ⟨e, t, t', hmem, ?_, rfl, rfl⟩
    rintro rfl
    exact hout rfl
  | outOfTokens => exact absurd rfl hout

/-- Sources have the same meaning if their tokens are spelled alike. -/
lemma sameMeaning_of_spelling {source source' : String} {ts ts' : List Token}
    (hlex : lex source = .ok ts) (hlex' : lex source' = .ok ts')
    (h : ts.map spelling = ts'.map spelling) : SameMeaning ts ts' source source' := by
  have hparse : parse source = (parseTokens ts).mapError .parse := parse_of_lex hlex
  have hparse' : parse source' = (parseTokens ts').mapError .parse := parse_of_lex hlex'
  obtain ⟨us, q, rfl, -⟩ := exists_tokens_of_lex hlex
  obtain ⟨us', q', rfl, -⟩ := exists_tokens_of_lex hlex'
  rcases parseTokens_of_spelling rfl rfl h.symm with
    ⟨p, hp, hp'⟩ | ⟨e, t, t', hmem, hout, he, he'⟩
  · rw [hp] at hparse
    rw [hp'] at hparse'
    have hrun : Script.run source = Script.run source' := by
      funext e s
      rw [Script.run_of_parse hparse, Script.run_of_parse hparse']
    exact ⟨.inl ⟨p, hparse, hparse'⟩, by simp [hrun], by simp [hrun], by simp [hrun]⟩
  · rw [he] at hparse
    rw [he'] at hparse'
    obtain ⟨i, hi⟩ := List.mem_iff_getElem?.1 hmem
    obtain ⟨ht, ht'⟩ := List.getElem?_zip_eq_some.1 hi
    refine ⟨.inr ⟨i, t, t', e, ht, ht', hout, hparse, hparse'⟩, ?_, ?_, ?_⟩
    · simp [Script.run_of_parse_error hparse, Script.run_of_parse_error hparse']
    · simp [Script.run_of_parse_error hparse, Script.run_of_parse_error hparse']
    · simp [Script.run_of_parse_error hparse, Script.run_of_parse_error hparse']

/-- Where tokens stand does not matter.  Sources with tokens of the same kinds and texts are the
same program, or violate the grammar alike and at tokens of the same number, and so they run alike.
In particular a source may be laid out anew with other blanks, as long as there is a blank between
two numbers and between two words. -/
theorem meaning_independent_of_layout :
    (∀ source source' ts ts', lex source = .ok ts → lex source' = .ok ts' →
      ts.map spelling = ts'.map spelling → SameMeaning ts ts' source source') ∧
    ∀ source us m lead xs, lex source = .ok (us ++ [m]) →
      us.map spelling = xs.map Piece.spelling → IsGap lead → xs.IsChain Piece.Apart →
      ∃ ts, lex (String.ofList (layout lead xs)) = .ok ts ∧
        SameMeaning (us ++ [m]) ts source (String.ofList (layout lead xs)) := by
  refine ⟨fun source source' ts ts' hlex hlex' h => sameMeaning_of_spelling hlex hlex' h, ?_⟩
  intro source us m lead xs hlex hxs hlead hapart
  obtain ⟨us', q', hlex', hxs'⟩ := exists_lex_layout hlead hapart
  obtain ⟨_, q, heq, -⟩ := exists_tokens_of_lex hlex
  obtain ⟨-, ⟨⟩⟩ := List.append_inj' heq rfl
  refine ⟨_, hlex', sameMeaning_of_spelling hlex hlex' ?_⟩
  rw [List.map_append, List.map_append, hxs, hxs']
  rfl

/-- A number in the place of a name, in layouts of the source `a.1` over one line and over more. -/
theorem meaning_independent_of_layout_dot_number :
    let us : List Token :=
      [⟨.identifier, "a", ⟨1, 1⟩⟩, ⟨.dot, ".", ⟨1, 2⟩⟩, ⟨.number, "1", ⟨1, 3⟩⟩]
    let ts := us ++ [.endMarker ⟨1, 4⟩]
    let ts' : List Token := [⟨.identifier, "a", ⟨1, 1⟩⟩, ⟨.dot, ".", ⟨2, 1⟩⟩,
      ⟨.number, "1", ⟨2, 3⟩⟩, .endMarker ⟨2, 4⟩]
    (lex "a.1" = .ok ts ∧ lex "a\n. 1" = .ok ts' ∧ SameMeaning ts ts' "a.1" "a\n. 1") ∧
      ∃ ts', lex "a\n\t. 1\r" = .ok ts' ∧ SameMeaning ts ts' "a.1" "a\n\t. 1\r" := by
  intro us ts ts'
  have hlex : lex "a.1" = .ok ts := by decide +kernel
  have hlex' : lex "a\n. 1" = .ok ts' := by decide +kernel
  obtain ⟨hsame, hlayout⟩ := meaning_independent_of_layout
  refine ⟨⟨hlex, hlex', hsame _ _ ts ts' hlex hlex' (by decide)⟩, ?_⟩
  exact hlayout "a.1" us (.endMarker ⟨1, 4⟩) []
    [⟨.identifier, ['a'], ['\n', '\t'], by decide, by simp [IsGap]⟩,
      ⟨.dot, ['.'], [' '], by decide, by simp [IsGap]⟩,
      ⟨.number, ['1'], ['\r'], by decide, by simp [IsGap]⟩]
    hlex (by decide) (by simp [IsGap]) (by simp [Piece.Apart, IsWordKind])

end Scriptlet
