import Scriptlet.Proofs.Program.Joining

/-!
# What stands behind a dot

A dot asks for a name, but what is read behind it is a primary, of which only the tree is looked at;
and parentheses leave no trace in a tree.  So a name behind a dot may stand in parentheses, as many
as one likes, and nothing else may stand there.

`DotsNamed` says this of all dots of a token list.  It holds of a list if it holds of its parts, and
the proof goes along the derivation of the list.
-/

namespace Scriptlet

open Lexer

namespace Grammar

/-- Behind every dot of the list stands a name in any number of matching parentheses. -/
def DotsNamed : List Token → Prop
  | [] => True
  | t :: us =>
    (t.kind = .dot → ∃ used rest key, us = used ++ rest ∧ IsWrappedName used key) ∧ DotsNamed us

section DotsNamed

variable {t d : Token} {kind : TokenKind} {ts us pre suf : List Token} {key : Expr}

/-- The empty list has no dots. -/
lemma dotsNamed_nil : DotsNamed [] := trivial

/-- A token of another kind in front changes nothing. -/
lemma DotsNamed.cons (h : DotsNamed us) (ht : t.kind = kind) (hkind : kind ≠ .dot) :
    DotsNamed (t :: us) :=
  ⟨fun hdot => absurd (ht.symm.trans hdot) hkind, h⟩

/-- What stands behind a dot stays there when the list goes on. -/
lemma DotsNamed.append (hts : DotsNamed ts) (hus : DotsNamed us) : DotsNamed (ts ++ us) := by
  induction ts with
  | nil => exact hus
  | cons t ts ih =>
    obtain ⟨hdot, hrest⟩ := hts
    refine ⟨fun ht => ?_, ih hrest⟩
    obtain ⟨used, rest, key, rfl, hname⟩ := hdot ht
    exact ⟨used, rest ++ us, key, List.append_assoc used rest us, hname⟩

/-- Something between two tokens that are no dots. -/
lemma DotsNamed.enclosed {o c : Token} {opening closing : TokenKind} (h : DotsNamed us)
    (ho : o.kind = opening) (hc : c.kind = closing) (hkinds : opening ≠ .dot ∧ closing ≠ .dot) :
    DotsNamed (o :: (us ++ [c])) :=
  (h.append (dotsNamed_nil.cons hc hkinds.2)).cons ho hkinds.1

/-- The dots of a list are named wherever they stand in it. -/
lemma DotsNamed.of_append (h : DotsNamed (pre ++ d :: suf)) (hd : d.kind = .dot) :
    ∃ used rest key, suf = used ++ rest ∧ IsWrappedName used key := by
  induction pre with
  | nil => exact h.1 hd
  | cons t pre ih => exact ih h.2

/-- There is no dot in a name in parentheses. -/
lemma IsWrappedName.dotsNamed (h : IsWrappedName ts key) : DotsNamed ts := by
  induction h with
  | name ht => exact dotsNamed_nil.cons ht (by decide)
  | paren ho _ hc ih => exact ih.enclosed ho hc (by decide)

end DotsNamed

/-! ## The dots of a phrase -/

-- Each lemma goes along the derivations of one symbol; the recursion is on the derivation.
mutual

/-- In an expression names stand behind the dots. -/
lemma IsAssignment.dotsNamed {ts : List Token} {e : Expr} (h : IsAssignment ts e) :
    DotsNamed ts :=
  match h with
  | .object h => h.dotsNamed
  | .assign htarget hq hvalue => htarget.dotsNamed.append (hvalue.dotsNamed.cons hq (by decide))

/-- In an object names stand behind the dots. -/
lemma IsObject.dotsNamed {ts : List Token} {e : Expr} (h : IsObject ts e) : DotsNamed ts :=
  match h with
  | .additive h => h.dotsNamed
  | .braces ho h hc => h.dotsNamed.enclosed ho hc (by decide)

/-- In the properties of an object names stand behind the dots. -/
lemma IsProperties.dotsNamed {ts : List Token} {ps : List Property} (h : IsProperties ts ps) :
    DotsNamed ts :=
  match h with
  | .none => dotsNamed_nil
  | .last h => h.dotsNamed
  | .more h hc hmore => h.dotsNamed.append (hmore.dotsNamed.cons hc (by decide))

/-- In a property, which has dots in its value only, names stand behind them. -/
lemma IsProperty.dotsNamed {ts : List Token} {p : Property} (h : IsProperty ts p) : DotsNamed ts :=
  match h with
  | .shorthand hk => dotsNamed_nil.cons hk (by decide)
  | .pair hk hc h => (h.dotsNamed.cons hc (by decide)).cons hk (by decide)

/-- In a sum names stand behind the dots. -/
lemma IsAdditive.dotsNamed {ts : List Token} {e : Expr} (h : IsAdditive ts e) : DotsNamed ts :=
  match h with
  | .one h => h.dotsNamed
  | .more hl ht _ _ hr => hl.dotsNamed.append (hr.dotsNamed.cons ht (by decide))

/-- In a product names stand behind the dots. -/
lemma IsMultiplicative.dotsNamed {ts : List Token} {e : Expr} (h : IsMultiplicative ts e) :
    DotsNamed ts :=
  match h with
  | .one h => h.dotsNamed
  | .more hl ht _ _ hr => hl.dotsNamed.append (hr.dotsNamed.cons ht (by decide))

/-- In a chain of calls names stand behind the dots. -/
lemma IsCallMember.dotsNamed {ts : List Token} {e : Expr} (h : IsCallMember ts e) : DotsNamed ts :=
  match h with
  | .member h => h.dotsNamed
  | .call hcallee ho hargs hc =>
    hcallee.dotsNamed.append (hargs.dotsNamed.enclosed ho hc (by decide))

/-- In arguments names stand behind the dots. -/
lemma IsArguments.dotsNamed {ts : List Token} {args : List Expr} (h : IsArguments ts args) :
    DotsNamed ts :=
  match h with
  | .none => dotsNamed_nil
  | .one h => h.dotsNamed
  | .more h hc hmore _ => h.dotsNamed.append (hmore.dotsNamed.cons hc (by decide))

/-- In a chain of accesses names stand behind the dots: here the dots come in. -/
lemma IsMember.dotsNamed {ts : List Token} {e : Expr} (h : IsMember ts e) : DotsNamed ts :=
  match h with
  | .primary h => h.dotsNamed
  | .dot hbase _ hkey =>
    -- The one production with a dot, and the name behind it is all that follows.
    hbase.dotsNamed.append ⟨fun _ => ⟨_, [], _, (List.append_nil _).symm, hkey⟩, hkey.dotsNamed⟩
  | .index hbase ho hkey hc =>
    hbase.dotsNamed.append (hkey.dotsNamed.enclosed ho hc (by decide))

/-- In a primary, which has dots in its parentheses only, names stand behind them. -/
lemma IsPrimary.dotsNamed {ts : List Token} {e : Expr} (h : IsPrimary ts e) : DotsNamed ts :=
  match h with
  | .name ht => dotsNamed_nil.cons ht (by decide)
  | .null ht => dotsNamed_nil.cons ht (by decide)
  | .number ht _ => dotsNamed_nil.cons ht (by decide)
  | .paren ho h hc => h.dotsNamed.enclosed ho hc (by decide)

end

/-- In a declaration, which has dots in its value only, names stand behind them. -/
lemma IsDeclaration.dotsNamed {ts : List Token} {s : Statement} (h : IsDeclaration ts s) :
    DotsNamed ts := by
  cases h with
  | bare hw hn hs =>
    exact ((dotsNamed_nil.cons hs (by decide)).cons hn (by decide)).cons hw (by decide)
  | mutable hw hn hq hvalue hs =>
    have hrest := hvalue.dotsNamed.enclosed hq hs (by decide)
    exact (hrest.cons hn (by decide)).cons hw (by decide)
  | constant hw hn hq hvalue hs =>
    have hrest := hvalue.dotsNamed.enclosed hq hs (by decide)
    exact (hrest.cons hn (by decide)).cons hw (by decide)

/-- In a statement names stand behind the dots. -/
lemma IsStatement.dotsNamed {ts : List Token} {s : Statement} (h : IsStatement ts s) :
    DotsNamed ts := by
  cases h with
  | declaration h => exact h.dotsNamed
  | expr h => exact h.dotsNamed
  | closed h hs => exact h.dotsNamed.append (dotsNamed_nil.cons hs (by decide))

/-- In statements names stand behind the dots. -/
lemma IsStatements.dotsNamed {ts : List Token} {ss : List Statement} (h : IsStatements ts ss) :
    DotsNamed ts := by
  induction h with
  | none => exact dotsNamed_nil
  | more hs _ _ ih => exact hs.dotsNamed.append ih

end Grammar

/-! ## The dots of a source -/

open Grammar

/-- Behind every dot of a source that is a program stands a name in any number of matching
parentheses. -/
theorem dot_before_wrapped_name (source : String) (p : Program) (ts pre suf : List Token)
    (d : Token) (hparse : parse source = .ok p) (hlex : lex source = .ok ts)
    (hts : ts = pre ++ d :: suf) (hd : d.kind = .dot) :
    ∃ used rest key, suf = used ++ rest ∧ IsWrappedName used key := by
  obtain ⟨us, q, hus, hbody⟩ := exists_isStatements_of_parse hparse
  rw [hlex] at hus
  cases hus
  have hend : (Token.endMarker q).kind = .endOfInput := rfl
  have hmarker : DotsNamed [.endMarker q] := dotsNamed_nil.cons hend (by decide)
  have hall : DotsNamed (pre ++ d :: suf) := hts ▸ hbody.dotsNamed.append hmarker
  exact hall.of_append hd

/-- The tokens of the source `a.(b)`. -/
lemma lex_parenthesized_key :
    lex "a.(b)" = .ok ([⟨.identifier, "a", ⟨1, 1⟩⟩, ⟨.dot, ".", ⟨1, 2⟩⟩,
      ⟨.openParen, "(", ⟨1, 3⟩⟩, ⟨.identifier, "b", ⟨1, 4⟩⟩, ⟨.closeParen, ")", ⟨1, 5⟩⟩] ++
      [.endMarker ⟨1, 6⟩]) := by
  decide +kernel

/-- The source `a.(b)` is an access by name. -/
lemma parse_parenthesized_key :
    parse "a.(b)" = .ok ⟨[.expr (.dot (.name "a") (.name "b"))]⟩ := by
  have hkey : IsWrappedName [⟨.openParen, "(", ⟨1, 3⟩⟩, ⟨.identifier, "b", ⟨1, 4⟩⟩,
      ⟨.closeParen, ")", ⟨1, 5⟩⟩] (.name "b") :=
    .paren rfl (.name rfl) rfl
  have hbase : IsMember [⟨.identifier, "a", ⟨1, 1⟩⟩] (.name "a") := .primary (.name rfl)
  have hexpr := IsAssignment.object (.additive (.one (.one (.member
    (.dot (d := ⟨.dot, ".", ⟨1, 2⟩⟩) hbase rfl hkey)))))
  exact parse_of_isStatements lex_parenthesized_key
    (.more (.expr hexpr) .none fun hglue => not_startsIn_nil hglue.2)

/-- In the source `a.(b)` the name behind the dot stands in parentheses. -/
theorem dot_before_wrapped_name_parenthesized :
    parse "a.(b)" = .ok ⟨[.expr (.dot (.name "a") (.name "b"))]⟩ ∧
    ∃ used rest key, [⟨.openParen, "(", ⟨1, 3⟩⟩, ⟨.identifier, "b", ⟨1, 4⟩⟩,
      ⟨.closeParen, ")", ⟨1, 5⟩⟩, .endMarker ⟨1, 6⟩] = used ++ rest ∧ IsWrappedName used key :=
  ⟨parse_parenthesized_key,
    dot_before_wrapped_name _ _ _ [⟨.identifier, "a", ⟨1, 1⟩⟩] _ ⟨.dot, ".", ⟨1, 2⟩⟩
      parse_parenthesized_key lex_parenthesized_key rfl rfl⟩

/-- A dot is not always followed by the name itself. -/
theorem not_only_bare_names_behind_dots :
    ¬ ∀ source p ts pre d suf, parse source = .ok p → lex source = .ok ts → ts = pre ++ d :: suf →
      d.kind = .dot → ∃ n rest, suf = n :: rest ∧ n.kind = .identifier := by
  intro h
  obtain ⟨n, rest, heq, hn⟩ := h _ _ _ [⟨.identifier, "a", ⟨1, 1⟩⟩] ⟨.dot, ".", ⟨1, 2⟩⟩ _
    parse_parenthesized_key lex_parenthesized_key rfl rfl
  cases heq
  cases hn

end Scriptlet
