import Scriptlet.Proofs.Grammar.Derivation
import Scriptlet.Proofs.Lexer.Layout

/-!
# Places do not matter to derivations

A production asks for the kinds of tokens, and for the texts of names, numbers and operator signs;
where the tokens stand it does not ask.  So a list of tokens can be replaced in a derivation by any
list that shows the same kinds and texts: the tree stays.  The recursion is on the derivation, with
one lemma for each symbol, and the replaced list falls apart where the old one did.
-/

namespace Scriptlet.Grammar

open Lexer

/-- Tokens in the place of tokens between two others. -/
lemma exists_enclosed_of_shown {o c : Token} {ts us : List Token}
    (h : us.map spelling = (o :: (ts ++ [c])).map spelling) :
    ∃ o' vs c', us = o' :: (vs ++ [c']) ∧ o'.kind = o.kind ∧ vs.map spelling = ts.map spelling ∧
      c'.kind = c.kind := by
  rw [List.map_cons, List.map_append] at h
  obtain ⟨o', ws, rfl, ho, -, hws⟩ := exists_cons_of_shown h
  obtain ⟨vs, c', rfl, hvs, hc⟩ := exists_concat_of_shown hws
  exact ⟨o', vs, c', rfl, ho, hvs, hc⟩

/-- Tokens in the place of two lists and a token between them. -/
lemma exists_parts_of_shown {t : Token} {ts ts' us : List Token}
    (h : us.map spelling = (ts ++ t :: ts').map spelling) :
    ∃ vs u ws, us = vs ++ u :: ws ∧ vs.map spelling = ts.map spelling ∧ u.kind = t.kind ∧
      u.text = t.text ∧ ws.map spelling = ts'.map spelling := by
  rw [List.map_append, List.map_cons] at h
  exact exists_middle_of_shown h

/-- A name in parentheses stays one wherever its tokens stand. -/
lemma IsWrappedName.respell {ts us : List Token} {e : Expr} (h : IsWrappedName ts e)
    (hus : us.map spelling = ts.map spelling) : IsWrappedName us e := by
  induction h generalizing us with
  | name hkind =>
    obtain ⟨t, rfl, hk, htext⟩ := exists_singleton_of_shown hus
    dsimp only [spelling] at hk htext
    rw [← htext]
    exact .name (hk.trans hkind)
  | paren ho _ hc ih =>
    obtain ⟨o, vs, c, rfl, ho', hvs, hc'⟩ := exists_enclosed_of_shown hus
    exact .paren (ho'.trans ho) (ih hvs) (hc'.trans hc)

mutual

/-- An expression keeps its tree wherever its tokens stand. -/
lemma IsAssignment.respell {ts us : List Token} {e : Expr} (h : IsAssignment ts e)
    (hus : us.map spelling = ts.map spelling) : IsAssignment us e := by
  match h with
  | .object h => exact .object (h.respell hus)
  | .assign htarget hq hvalue =>
    obtain ⟨vs, q, ws, rfl, hvs, hq', -, hws⟩ := exists_parts_of_shown hus
    exact .assign (htarget.respell hvs) (hq'.trans hq) (hvalue.respell hws)

/-- An object keeps its tree wherever its tokens stand. -/
lemma IsObject.respell {ts us : List Token} {e : Expr} (h : IsObject ts e)
    (hus : us.map spelling = ts.map spelling) : IsObject us e := by
  match h with
  | .additive h => exact .additive (h.respell hus)
  | .braces ho hps hc =>
    obtain ⟨o, vs, c, rfl, ho', hvs, hc'⟩ := exists_enclosed_of_shown hus
    exact .braces (ho'.trans ho) (hps.respell hvs) (hc'.trans hc)

/-- The properties of an object stay the same wherever their tokens stand. -/
lemma IsProperties.respell {ts us : List Token} {ps : List Property} (h : IsProperties ts ps)
    (hus : us.map spelling = ts.map spelling) : IsProperties us ps := by
  match h with
  | .none =>
    rw [List.map_eq_nil_iff.1 hus]
    exact .none
  | .last h => exact .last (h.respell hus)
  | .more h hc hmore =>
    obtain ⟨vs, c, ws, rfl, hvs, hc', -, hws⟩ := exists_parts_of_shown hus
    exact .more (h.respell hvs) (hc'.trans hc) (hmore.respell hws)

/-- A property stays the same wherever its tokens stand. -/
lemma IsProperty.respell {ts us : List Token} {p : Property} (h : IsProperty ts p)
    (hus : us.map spelling = ts.map spelling) : IsProperty us p := by
  match h with
  | .shorthand hk =>
    obtain ⟨k, rfl, hk', htext⟩ := exists_singleton_of_shown hus
    dsimp only [spelling] at hk' htext
    rw [← htext]
    exact .shorthand (hk'.trans hk)
  | .pair hk hc hvalue =>
    obtain ⟨k, vs, rfl, hk', htext, hvs⟩ := exists_cons_of_shown hus
    obtain ⟨c, ws, rfl, hc', -, hws⟩ := exists_cons_of_shown hvs
    dsimp only [spelling] at htext
    rw [← htext]
    exact .pair (hk'.trans hk) (hc'.trans hc) (hvalue.respell hws)

/-- A sum keeps its tree wherever its tokens stand. -/
lemma IsAdditive.respell {ts us : List Token} {e : Expr} (h : IsAdditive ts e)
    (hus : us.map spelling = ts.map spelling) : IsAdditive us e := by
  match h with
  | .one h => exact .one (h.respell hus)
  | .more hl hkind htext hlevel hr =>
    obtain ⟨vs, t, ws, rfl, hvs, hkind', htext', hws⟩ := exists_parts_of_shown hus
    exact .more (hl.respell hvs) (hkind'.trans hkind) (htext'.trans htext) hlevel (hr.respell hws)

/-- A product keeps its tree wherever its tokens stand. -/
lemma IsMultiplicative.respell {ts us : List Token} {e : Expr} (h : IsMultiplicative ts e)
    (hus : us.map spelling = ts.map spelling) : IsMultiplicative us e := by
  match h with
  | .one h => exact .one (h.respell hus)
  | .more hl hkind htext hlevel hr =>
    obtain ⟨vs, t, ws, rfl, hvs, hkind', htext', hws⟩ := exists_parts_of_shown hus
    exact .more (hl.respell hvs) (hkind'.trans hkind) (htext'.trans htext) hlevel (hr.respell hws)

/-- A chain of calls keeps its tree wherever its tokens stand. -/
lemma IsCallMember.respell {ts us : List Token} {e : Expr} (h : IsCallMember ts e)
    (hus : us.map spelling = ts.map spelling) : IsCallMember us e := by
  match h with
  | .member h => exact .member (h.respell hus)
  | .call hcallee ho hargs hc =>
    rw [List.map_append] at hus
    obtain ⟨vs, ws, rfl, hvs, hws⟩ := List.map_eq_append_iff.1 hus
    obtain ⟨o, xs, c, rfl, ho', hxs, hc'⟩ := exists_enclosed_of_shown hws
    exact .call (hcallee.respell hvs) (ho'.trans ho) (hargs.respell hxs) (hc'.trans hc)

/-- Arguments keep their trees wherever their tokens stand. -/
lemma IsArguments.respell {ts us : List Token} {es : List Expr} (h : IsArguments ts es)
    (hus : us.map spelling = ts.map spelling) : IsArguments us es := by
  match h with
  | .none =>
    rw [List.map_eq_nil_iff.1 hus]
    exact .none
  | .one h => exact .one (h.respell hus)
  | .more h hc hmore hne =>
    obtain ⟨vs, c, ws, rfl, hvs, hc', -, hws⟩ := exists_parts_of_shown hus
    exact .more (h.respell hvs) (hc'.trans hc) (hmore.respell hws) hne

/-- A chain of accesses keeps its tree wherever its tokens stand. -/
lemma IsMember.respell {ts us : List Token} {e : Expr} (h : IsMember ts e)
    (hus : us.map spelling = ts.map spelling) : IsMember us e := by
  match h with
  | .primary h => exact .primary (h.respell hus)
  | .dot hbase hd hname =>
    obtain ⟨vs, d, ws, rfl, hvs, hd', -, hws⟩ := exists_parts_of_shown hus
    exact .dot (hbase.respell hvs) (hd'.trans hd) (hname.respell hws)
  | .index hbase ho hkey hc =>
    rw [List.map_append] at hus
    obtain ⟨vs, ws, rfl, hvs, hws⟩ := List.map_eq_append_iff.1 hus
    obtain ⟨o, xs, c, rfl, ho', hxs, hc'⟩ := exists_enclosed_of_shown hws
    exact .index (hbase.respell hvs) (ho'.trans ho) (hkey.respell hxs) (hc'.trans hc)

/-- A primary keeps its tree wherever its token stands. -/
lemma IsPrimary.respell {ts us : List Token} {e : Expr} (h : IsPrimary ts e)
    (hus : us.map spelling = ts.map spelling) : IsPrimary us e := by
  match h with
  | .name hkind =>
    obtain ⟨t, rfl, hkind', htext⟩ := exists_singleton_of_shown hus
    dsimp only [spelling] at hkind' htext
    rw [← htext]
    exact .name (hkind'.trans hkind)
  | .null hkind =>
    obtain ⟨t, rfl, hkind', -⟩ := exists_singleton_of_shown hus
    exact .null (hkind'.trans hkind)
  | .number hkind hread =>
    obtain ⟨t, rfl, hkind', htext⟩ := exists_singleton_of_shown hus
    dsimp only [spelling] at hkind' htext
    rw [← htext] at hread
    exact .number (hkind'.trans hkind) hread
  | .paren ho h hc =>
    obtain ⟨o, vs, c, rfl, ho', hvs, hc'⟩ := exists_enclosed_of_shown hus
    exact .paren (ho'.trans ho) (h.respell hvs) (hc'.trans hc)

end

/-- A declaration keeps its tree wherever its tokens stand. -/
lemma IsDeclaration.respell {ts us : List Token} {s : Statement} (h : IsDeclaration ts s)
    (hus : us.map spelling = ts.map spelling) : IsDeclaration us s := by
  -- In front of all else a declaration has its word and its name.
  have hfront : ∀ {w n : Token} {rest us : List Token},
      us.map spelling = (w :: n :: rest).map spelling → ∃ w' n' vs, us = w' :: n' :: vs ∧
        w'.kind = w.kind ∧ n'.kind = n.kind ∧ n'.text = n.text ∧
        vs.map spelling = rest.map spelling := by
    intro w n rest us hus
    obtain ⟨w', vs, rfl, hw, -, hvs⟩ := exists_cons_of_shown hus
    obtain ⟨n', ws, rfl, hn, htext, hws⟩ := exists_cons_of_shown hvs
    exact ⟨w', n', ws, rfl, hw, hn, htext, hws⟩
  cases h with
  | bare hw hn hs =>
    obtain ⟨w, n, vs, rfl, hw', hn', htext, hvs⟩ := hfront hus
    obtain ⟨s, rfl, hs', -⟩ := exists_singleton_of_shown hvs
    rw [← htext]
    exact .bare (hw'.trans hw) (hn'.trans hn) (hs'.trans hs)
  | mutable hw hn hq hvalue hs =>
    obtain ⟨w, n, vs, rfl, hw', hn', htext, hvs⟩ := hfront hus
    obtain ⟨q, ws, s, rfl, hq', hws, hs'⟩ := exists_enclosed_of_shown hvs
    rw [← htext]
    exact .mutable (hw'.trans hw) (hn'.trans hn) (hq'.trans hq) (hvalue.respell hws)
      (hs'.trans hs)
  | constant hw hn hq hvalue hs =>
    obtain ⟨w, n, vs, rfl, hw', hn', htext, hvs⟩ := hfront hus
    obtain ⟨q, ws, s, rfl, hq', hws, hs'⟩ := exists_enclosed_of_shown hvs
    rw [← htext]
    exact .constant (hw'.trans hw) (hn'.trans hn) (hq'.trans hq) (hvalue.respell hws)
      (hs'.trans hs)

/-- A statement keeps its tree wherever its tokens stand. -/
lemma IsStatement.respell {ts us : List Token} {s : Statement} (h : IsStatement ts s)
    (hus : us.map spelling = ts.map spelling) : IsStatement us s := by
  cases h with
  | declaration h => exact .declaration (h.respell hus)
  | expr h => exact .expr (h.respell hus)
  | closed h hs =>
    rw [List.map_append] at hus
    obtain ⟨vs, s, rfl, hvs, hs'⟩ := exists_concat_of_shown hus
    exact .closed (h.respell hvs) (hs'.trans hs)

/-- How a list starts shows. -/
lemma StartsIn.respell {kinds : List TokenKind} {ts us : List Token} (h : StartsIn kinds ts)
    (hus : us.map spelling = ts.map spelling) : StartsIn kinds us := by
  obtain ⟨t, ts, rfl, hmem⟩ := h
  obtain ⟨u, vs, rfl, hkind, -, -⟩ := exists_cons_of_shown hus
  exact startsIn_cons.2 (hkind ▸ hmem)

/-- How a list ends shows. -/
lemma EndsIn.respell {kinds : List TokenKind} {ts us : List Token} (h : EndsIn kinds ts)
    (hus : us.map spelling = ts.map spelling) : EndsIn kinds us := by
  obtain ⟨ts, t, rfl, hmem⟩ := h
  rw [List.map_append] at hus
  obtain ⟨vs, u, rfl, -, hkind⟩ := exists_concat_of_shown hus
  exact endsIn_concat.2 (hkind ▸ hmem)

/-- Whether two lists run together shows. -/
lemma Glues.respell {ts us ts' us' : List Token} (h : Glues ts us)
    (hts : ts'.map spelling = ts.map spelling) (hus : us'.map spelling = us.map spelling) :
    Glues ts' us' :=
  ⟨fun hends => h.1 (hends.respell hts.symm), h.2.respell hus⟩

/-- Tokens that show like statements are these statements. -/
lemma IsStatements.respell {ts us : List Token} {ss : List Statement} (h : IsStatements ts ss)
    (hus : us.map spelling = ts.map spelling) : IsStatements us ss := by
  induction h generalizing us with
  | none =>
    rw [List.map_eq_nil_iff.1 hus]
    exact .none
  | more hs _ hglue ih =>
    rw [List.map_append] at hus
    obtain ⟨vs, ws, rfl, hvs, hws⟩ := List.map_eq_append_iff.1 hus
    exact .more (hs.respell hvs) (ih hws) fun hglue' => hglue (hglue'.respell hvs.symm hws.symm)

end Scriptlet.Grammar
