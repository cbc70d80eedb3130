import Mathlib.Tactic.Choose
import Scriptlet.Proofs.Grammar.Completeness
import Scriptlet.Proofs.Program.WellFormed

/-!
# Writing programs out

`Program.text` writes a program with every compound expression in parentheses and a semicolon behind
every statement.  What is written is first a list of kinds and texts, `Program.spelled`, and
then a source with a blank behind each of them.  Tokens that show as a well-formed expression derive
it as a primary, whatever stands around them (`Expr.WellFormed.isPrimary`): this is what the
parentheses are for.  So a written program is read back as itself, and the programs that sources
spell are exactly the well-formed ones.

Many runs of digits are read as the same number, and a number too large for a double has no shortest
one.  The digits to write are therefore left open: `Numerals` are any choice of them.
-/

namespace Scriptlet

open Lexer Grammar

/-! ## What is written -/

/-- A choice of digits for the numbers that are read from digits. -/
structure Numerals where
  /-- The digits of a number. -/
  digits : Float → List Char
  /-- There are digits and nothing else. -/
  isNumeral : ∀ x, IsLiteral x → IsNumeral (digits x)
  /-- The digits are read as the number. -/
  read : ∀ x, IsLiteral x → Number.read? (String.ofList (digits x)) = some x

instance : Nonempty Numerals := by
  have hchoice : ∀ x, ∃ ds, IsLiteral x →
      IsNumeral ds ∧ Number.read? (String.ofList ds) = some x := by
    intro x
    by_cases hx : IsLiteral x
    · obtain ⟨ds, hds⟩ := hx
      exact ⟨ds, fun _ => hds⟩
    · exact ⟨[], fun hx' => absurd hx' hx⟩
  choose digits hdigits using hchoice
  exact ⟨⟨digits, fun x hx => (hdigits x hx).1, fun x hx => (hdigits x hx).2⟩⟩

/-- The parts with commas between them. -/
def separated : List (List (TokenKind × String)) → List (TokenKind × String)
  | [] => []
  | [x] => x
  | x :: y :: xs => x ++ (.comma, ",") :: separated (y :: xs)

/-- A part in parentheses. -/
def inParens (x : List (TokenKind × String)) : List (TokenKind × String) :=
  (.openParen, "(") :: (x ++ [(.closeParen, ")")])

mutual

/-- How an expression is written: what is not a name or a literal stands in parentheses. -/
def Expr.spelled (N : Numerals) : Expr → List (TokenKind × String)
  | .assign target value => inParens (target.spelled N ++ (.equals, "=") :: value.spelled N)
  | .dot base key => inParens (base.spelled N ++ (.dot, ".") :: key.spelled N)
  | .index base key =>
    inParens (base.spelled N ++ (.openBracket, "[") :: (key.spelled N ++ [(.closeBracket, "]")]))
  | .call callee args => inParens (callee.spelled N ++ inParens (separated (spelledExprs N args)))
  | .object properties =>
    inParens ((.openBrace, "\x7b") ::
      (separated (spelledProperties N properties) ++ [(.closeBrace, "\x7d")]))
  | .number x => [(.number, String.ofList (N.digits x))]
  | .null => [(.null, "null")]
  | .name n => [(.identifier, n)]
  | .binary op l r => inParens (l.spelled N ++ (.operator, op.symbol) :: r.spelled N)

/-- How each of some expressions is written. -/
def spelledExprs (N : Numerals) : List Expr → List (List (TokenKind × String))
  | [] => []
  | e :: es => e.spelled N :: spelledExprs N es

/-- How a property is written. -/
def Property.spelled (N : Numerals) : Property → List (TokenKind × String)
  | .shorthand key => [(.identifier, key)]
  | .pair key value => (.identifier, key) :: (.colon, ":") :: value.spelled N

/-- How each of some properties is written. -/
def spelledProperties (N : Numerals) : List Property → List (List (TokenKind × String))
  | [] => []
  | p :: ps => p.spelled N :: spelledProperties N ps

end

/-- Expressions in a list are spelled one by one. -/
lemma spelledExprs_eq_map (N : Numerals) (es : List Expr) :
    spelledExprs N es = es.map (Expr.spelled N) := by
  induction es with
  | nil => rfl
  | cons e es ih => rw [spelledExprs, ih, List.map_cons]

/-- Properties in a list are spelled one by one. -/
lemma spelledProperties_eq_map (N : Numerals) (ps : List Property) :
    spelledProperties N ps = ps.map (Property.spelled N) := by
  induction ps with
  | nil => rfl
  | cons p ps ih => rw [spelledProperties, ih, List.map_cons]

/-- How a statement is written, with its semicolon. -/
def Statement.spelled (N : Numerals) : Statement → List (TokenKind × String)
  | .declaration name constant value =>
    (if constant then (.constWord, "const") else (.letWord, "let")) :: (.identifier, name) ::
      ((match value with
        | none => []
        | some e => (.equals, "=") :: e.spelled N) ++ [(.semicolon, ";")])
  | .expr e => e.spelled N ++ [(.semicolon, ";")]

/-- How a program is written. -/
def Program.spelled (N : Numerals) (p : Program) : List (TokenKind × String) :=
  p.body.flatMap (Statement.spelled N)

/-- The source of kinds and texts, with a blank behind each. -/
def sourceOf (xs : List (TokenKind × String)) : String :=
  String.ofList (xs.flatMap fun x => x.2.toList ++ [' '])

/-- The source of a program. -/
def Program.text (N : Numerals) (p : Program) : String :=
  sourceOf (p.spelled N)

/-! ## The written texts are spellings -/

/-- Every text of the list is a spelling of its kind. -/
def AllSpell (xs : List (TokenKind × String)) : Prop :=
  ∀ x ∈ xs, Spells x.1 x.2.toList

section AllSpell

variable {xs ys : List (TokenKind × String)}

/-- No pieces are all spelled right. -/
lemma allSpell_nil : AllSpell [] := List.forall_mem_nil _

/-- Pieces are spelled right when the first one and the others are. -/
lemma allSpell_cons {x : TokenKind × String} :
    AllSpell (x :: xs) ↔ Spells x.1 x.2.toList ∧ AllSpell xs :=
  List.forall_mem_cons

/-- Two lists of pieces are spelled right together when each of them is. -/
lemma allSpell_append : AllSpell (xs ++ ys) ↔ AllSpell xs ∧ AllSpell ys :=
  List.forall_mem_append

/-- Joining lists of pieces keeps their spelling right. -/
lemma AllSpell.append (hxs : AllSpell xs) (hys : AllSpell ys) : AllSpell (xs ++ ys) :=
  allSpell_append.2 ⟨hxs, hys⟩

/-- A rightly spelled piece may be put in front. -/
lemma AllSpell.cons (h : AllSpell xs) {x : TokenKind × String} (hx : Spells x.1 x.2.toList) :
    AllSpell (x :: xs) :=
  allSpell_cons.2 ⟨hx, h⟩

/-- A rightly spelled piece may be put behind. -/
lemma AllSpell.concat (h : AllSpell xs) {x : TokenKind × String} (hx : Spells x.1 x.2.toList) :
    AllSpell (xs ++ [x]) :=
  h.append (allSpell_nil.cons hx)

/-- Parentheses around pieces are spelled right. -/
lemma AllSpell.inParens (h : AllSpell xs) : AllSpell (inParens xs) :=
  (h.concat (by decide)).cons (by decide)

/-- Commas between parts are spelled right. -/
lemma allSpell_separated {parts : List (List (TokenKind × String))}
    (h : ∀ part ∈ parts, AllSpell part) : AllSpell (separated parts) := by
  induction parts using separated.induct with
  | case1 => exact allSpell_nil
  | case2 x => exact h x List.mem_cons_self
  | case3 x y xs ih =>
    obtain ⟨hx, hrest⟩ := List.forall_mem_cons.1 h
    exact hx.append ((ih hrest).cons (by decide))

/-- A name may be put in front. -/
lemma AllSpell.consName (h : AllSpell xs) {n : String} (hn : IsName n.toList) :
    AllSpell ((.identifier, n) :: xs) :=
  allSpell_cons.2 ⟨hn, h⟩

/-- The sign of an operator is an operator sign. -/
lemma spells_symbol (op : Operator) : Spells .operator op.symbol.toList := by
  cases op <;> decide

end AllSpell

mutual

/-- What is written for a well-formed expression can be lexed. -/
lemma Expr.WellFormed.allSpell {N : Numerals} {e : Expr} (h : e.WellFormed) :
    AllSpell (e.spelled N) :=
  match h with
  | .assign htarget hvalue => (htarget.allSpell.append (hvalue.allSpell.cons (by decide))).inParens
  | .dot hbase hkey =>
    (hbase.allSpell.append ((allSpell_nil.consName hkey).cons (by decide))).inParens
  | .index hbase hkey =>
    (hbase.allSpell.append ((hkey.allSpell.concat (by decide)).cons (by decide))).inParens
  | .call hcallee hargs =>
    have hparts : ∀ part ∈ spelledExprs N _, AllSpell part := by
      intro part hmem
      rw [spelledExprs_eq_map] at hmem
      obtain ⟨a, ha, rfl⟩ := List.mem_map.1 hmem
      exact (hargs a ha).allSpell
    (hcallee.allSpell.append (allSpell_separated hparts).inParens).inParens
  | .object hproperties =>
    have hparts : ∀ part ∈ spelledProperties N _, AllSpell part := by
      intro part hmem
      rw [spelledProperties_eq_map] at hmem
      obtain ⟨p, hp, rfl⟩ := List.mem_map.1 hmem
      exact (hproperties p hp).allSpell
    (((allSpell_separated hparts).concat (by decide)).cons (by decide)).inParens
  | .number hx => allSpell_nil.cons (by rw [String.toList_ofList]; exact N.isNumeral _ hx)
  | .name hn => allSpell_nil.consName hn
  | .binary hl hr => (hl.allSpell.append (hr.allSpell.cons (spells_symbol _))).inParens

/-- What is written for a well-formed property can be lexed. -/
lemma Property.WellFormed.allSpell {N : Numerals} {p : Property} (h : p.WellFormed) :
    AllSpell (p.spelled N) :=
  match h with
  | .shorthand hkey => allSpell_nil.consName hkey
  | .pair hkey hvalue => (hvalue.allSpell.cons (by decide)).consName hkey

end

/-- What is written for a well-formed statement can be lexed. -/
lemma Statement.WellFormed.allSpell {N : Numerals} {s : Statement} (h : s.WellFormed) :
    AllSpell (s.spelled N) := by
  cases h with
  | bare hn => exact ((allSpell_nil.cons (by decide)).consName hn).cons (by decide)
  | @declaration n constant value hn hvalue =>
    have hword : Spells (if constant then (TokenKind.constWord, "const") else (.letWord, "let")).1
        (if constant then (TokenKind.constWord, "const") else (.letWord, "let")).2.toList := by
      cases constant <;> decide
    exact (((hvalue.allSpell.cons (by decide)).concat (by decide)).consName hn).cons hword
  | expr he => exact he.allSpell.concat (by decide)

/-! ## Written tokens derive what was written -/

/-- Tokens that show as a part in parentheses are in parentheses. -/
lemma exists_parens_of_shown {ts : List Token} {xs : List (TokenKind × String)}
    (h : ts.map spelling = inParens xs) :
    ∃ o us c, ts = o :: (us ++ [c]) ∧ o.kind = .openParen ∧ us.map spelling = xs ∧
      c.kind = .closeParen := by
  obtain ⟨o, ws, rfl, ho, -, hws⟩ := exists_cons_of_shown h
  obtain ⟨us, c, rfl, hus, hc⟩ := exists_concat_of_shown hws
  exact ⟨o, us, c, rfl, ho, hus, hc⟩

/-- A primary is also a member, a factor, a term and an expression. -/
lemma isCallMember_of_isPrimary {ts : List Token} {e : Expr} (h : IsPrimary ts e) :
    IsCallMember ts e :=
  .member (.primary h)

/-- A primary is an expression. -/
lemma isAssignment_of_isPrimary {ts : List Token} {e : Expr} (h : IsPrimary ts e) :
    IsAssignment ts e :=
  .object (.additive (.one (.one (isCallMember_of_isPrimary h))))

/-- Two primaries with the sign of an operator between them are an expression. -/
lemma isAssignment_binary {ts us : List Token} {t : Token} {op : Operator} {l r : Expr}
    (hl : IsPrimary ts l) (hkind : t.kind = .operator) (htext : t.text = op.symbol)
    (hr : IsPrimary us r) : IsAssignment (ts ++ t :: us) (.binary op l r) := by
  have hleft : IsMultiplicative ts l := .one (isCallMember_of_isPrimary hl)
  have hright : IsCallMember us r := isCallMember_of_isPrimary hr
  cases hlevel : op.level with
  | sum => exact .object (.additive (.more (.one hleft) hkind htext hlevel (.one hright)))
  | product => exact .object (.additive (.one (.more hleft hkind htext hlevel hright)))

/-- Tokens that show as arguments with commas between them are arguments. -/
lemma isArguments_of_shown {N : Numerals} {args : List Expr} {ts : List Token}
    (h : ∀ a ∈ args, ∀ us, us.map spelling = a.spelled N → IsPrimary us a)
    (hts : ts.map spelling = separated (spelledExprs N args)) : IsArguments ts args := by
  induction args generalizing ts with
  | nil =>
    rw [List.map_eq_nil_iff.1 hts]
    exact .none
  | cons a args ih =>
    obtain ⟨ha, hargs⟩ := List.forall_mem_cons.1 h
    cases args with
    | nil => exact .one (isAssignment_of_isPrimary (ha ts hts))
    | cons b args =>
      obtain ⟨us, c, vs, rfl, hus, hc, -, hvs⟩ := exists_middle_of_shown hts
      have hfirst : IsAssignment us a := isAssignment_of_isPrimary (ha us hus)
      exact .more hfirst hc (ih hargs hvs) (List.cons_ne_nil b args)

/-- Tokens that show as properties with commas between them are properties. -/
lemma isProperties_of_shown {N : Numerals} {ps : List Property} {ts : List Token}
    (h : ∀ p ∈ ps, ∀ us, us.map spelling = p.spelled N → IsProperty us p)
    (hts : ts.map spelling = separated (spelledProperties N ps)) : IsProperties ts ps := by
  induction ps generalizing ts with
  | nil =>
    rw [List.map_eq_nil_iff.1 hts]
    exact .none
  | cons p ps ih =>
    obtain ⟨hp, hps⟩ := List.forall_mem_cons.1 h
    cases ps with
    | nil => exact .last (hp ts hts)
    | cons q ps =>
      obtain ⟨us, c, vs, rfl, hus, hc, -, hvs⟩ := exists_middle_of_shown hts
      exact .more (hp us hus) hc (ih hps hvs)

mutual

/-- Tokens that show as a well-formed expression are a primary with that tree. -/
lemma Expr.WellFormed.isPrimary {N : Numerals} {e : Expr} {ts : List Token} (h : e.WellFormed)
    (hts : ts.map spelling = e.spelled N) : IsPrimary ts e :=
  match h with
  | .assign htarget hvalue => by
    obtain ⟨o, us, c, rfl, ho, hus, hc⟩ := exists_parens_of_shown hts
    obtain ⟨vs, q, ws, rfl, hvs, hq, -, hws⟩ := exists_middle_of_shown hus
    have htargetPrimary := htarget.isPrimary hvs
    have hvaluePrimary := hvalue.isPrimary hws
    exact .paren ho (.assign (.additive (.one (.one (isCallMember_of_isPrimary htargetPrimary)))) hq
      (isAssignment_of_isPrimary hvaluePrimary)) hc
  | .dot hbase hkey => by
    obtain ⟨o, us, c, rfl, ho, hus, hc⟩ := exists_parens_of_shown hts
    obtain ⟨vs, d, ws, rfl, hvs, hd, -, hws⟩ := exists_middle_of_shown hus
    obtain ⟨k, rfl, hk, rfl⟩ := exists_singleton_of_shown hws
    have hmember : IsMember _ _ := .dot (.primary (hbase.isPrimary hvs)) hd (.name hk)
    exact .paren ho (.object (.additive (.one (.one (.member hmember))))) hc
  | .index hbase hkey => by
    obtain ⟨o, us, c, rfl, ho, hus, hc⟩ := exists_parens_of_shown hts
    obtain ⟨vs, b, ws, rfl, hvs, hb, -, hws⟩ := exists_middle_of_shown hus
    obtain ⟨xs, b', rfl, hxs, hb'⟩ := exists_concat_of_shown hws
    have hmember : IsMember _ _ := .index (.primary (hbase.isPrimary hvs)) hb
      (isAssignment_of_isPrimary (hkey.isPrimary hxs)) hb'
    exact .paren ho (.object (.additive (.one (.one (.member hmember))))) hc
  | .call hcallee hargs => by
    obtain ⟨o, us, c, rfl, ho, hus, hc⟩ := exists_parens_of_shown hts
    obtain ⟨vs, ws, rfl, hvs, hws⟩ := List.map_eq_append_iff.1 hus
    obtain ⟨o', xs, c', rfl, ho', hxs, hc'⟩ := exists_parens_of_shown hws
    have hcall : IsCallMember _ _ := .call (isCallMember_of_isPrimary (hcallee.isPrimary hvs)) ho'
      (isArguments_of_shown (fun a ha ys hys => (hargs a ha).isPrimary hys) hxs) hc'
    exact .paren ho (.object (.additive (.one (.one hcall)))) hc
  | .object hproperties => by
    obtain ⟨o, us, c, rfl, ho, hus, hc⟩ := exists_parens_of_shown hts
    obtain ⟨b, vs, rfl, hb, -, hvs⟩ := exists_cons_of_shown hus
    obtain ⟨ws, b', rfl, hws, hb'⟩ := exists_concat_of_shown hvs
    have hbraces : IsObject _ _ := .braces hb
      (isProperties_of_shown (fun p hp ys hys => (hproperties p hp).isProperty hys) hws) hb'
    exact .paren ho (.object hbraces) hc
  | .number hx => by
    obtain ⟨t, rfl, hkind, htext⟩ := exists_singleton_of_shown hts
    exact .number hkind (by rw [htext]; exact N.read _ hx)
  | .name _ => by
    obtain ⟨t, rfl, hkind, rfl⟩ := exists_singleton_of_shown hts
    exact .name hkind
  | .binary hl hr => by
    obtain ⟨o, us, c, rfl, ho, hus, hc⟩ := exists_parens_of_shown hts
    obtain ⟨vs, t, ws, rfl, hvs, hkind, htext, hws⟩ := exists_middle_of_shown hus
    exact .paren ho (isAssignment_binary (hl.isPrimary hvs) hkind htext (hr.isPrimary hws)) hc

/-- Tokens that show as a well-formed property are that property. -/
lemma Property.WellFormed.isProperty {N : Numerals} {p : Property} {ts : List Token}
    (h : p.WellFormed) (hts : ts.map spelling = p.spelled N) : IsProperty ts p :=
  match h with
  | .shorthand _ => by
    obtain ⟨k, rfl, hk, rfl⟩ := exists_singleton_of_shown hts
    exact .shorthand hk
  | .pair _ hvalue => by
    obtain ⟨k, us, rfl, hk, rfl, hus⟩ := exists_cons_of_shown hts
    obtain ⟨c, vs, rfl, hc, -, hvs⟩ := exists_cons_of_shown hus
    exact .pair hk hc (isAssignment_of_isPrimary (hvalue.isPrimary hvs))

end

/-- Tokens that show as a well-formed declaration with a value are that declaration. -/
lemma isDeclaration_of_shown {N : Numerals} {n : String} {constant : Bool} {value : Expr}
    {ts : List Token} (hvalue : value.WellFormed)
    (hts : ts.map spelling = (Statement.declaration n constant (some value)).spelled N) :
    IsDeclaration ts (.declaration n constant (some value)) := by
  obtain ⟨w, us, rfl, hw, -, hus⟩ := exists_cons_of_shown hts
  obtain ⟨k, vs, rfl, hk, rfl, hvs⟩ := exists_cons_of_shown hus
  obtain ⟨q, ws, rfl, hq, -, hws⟩ := exists_cons_of_shown hvs
  obtain ⟨xs, m, rfl, hxs, hm⟩ := exists_concat_of_shown hws
  have he : IsAssignment xs value := isAssignment_of_isPrimary (hvalue.isPrimary hxs)
  cases constant with
  | false => exact .mutable hw hk hq he hm
  | true => exact .constant hw hk hq he hm

/-- Tokens that show as a well-formed statement are that statement. -/
lemma Statement.WellFormed.isStatement {N : Numerals} {s : Statement} {ts : List Token}
    (h : s.WellFormed) (hts : ts.map spelling = s.spelled N) : IsStatement ts s := by
  cases h with
  | bare hn =>
    obtain ⟨w, us, rfl, hw, -, hus⟩ := exists_cons_of_shown hts
    obtain ⟨k, vs, rfl, hk, rfl, hvs⟩ := exists_cons_of_shown hus
    obtain ⟨m, rfl, hm, -⟩ := exists_singleton_of_shown hvs
    exact .declaration (.bare hw hk hm)
  | declaration _ hvalue => exact .declaration (isDeclaration_of_shown hvalue hts)
  | expr he =>
    obtain ⟨us, m, rfl, hus, hm⟩ := exists_concat_of_shown hts
    exact .closed (isAssignment_of_isPrimary (he.isPrimary hus)) hm

/-- What is written for a statement ends with a semicolon. -/
lemma Statement.exists_spelled_eq (N : Numerals) (s : Statement) :
    ∃ xs, s.spelled N = xs ++ [(.semicolon, ";")] := by
  cases s with
  | declaration n constant value => exact ⟨_ :: _ :: _, rfl⟩
  | expr e => exact ⟨e.spelled N, rfl⟩

/-- Tokens that show as well-formed statements are those statements: the semicolons keep them
apart. -/
lemma isStatements_of_shown {N : Numerals} {ss : List Statement} {ts : List Token}
    (h : ∀ s ∈ ss, s.WellFormed) (hts : ts.map spelling = ss.flatMap (Statement.spelled N)) :
    IsStatements ts ss := by
  induction ss generalizing ts with
  | nil =>
    rw [List.map_eq_nil_iff.1 hts]
    exact .none
  | cons s ss ih =>
    obtain ⟨hs, hss⟩ := List.forall_mem_cons.1 h
    obtain ⟨us, vs, rfl, hus, hvs⟩ := List.map_eq_append_iff.1 hts
    obtain ⟨xs, hxs⟩ := s.exists_spelled_eq N
    obtain ⟨ws, m, heq, -, hm⟩ := exists_concat_of_shown (hus.trans hxs)
    have hend : EndsIn [.semicolon, .closeBrace] us := by
      rw [heq, endsIn_concat, hm]
      exact List.mem_cons_self
    exact .more (hs.isStatement hus) (ih hss hvs) fun hglue => hglue.1 hend

/-! ## Reading back -/

/-- The source of spellings is lexed as those spellings. -/
lemma exists_lex_sourceOf {xs : List (TokenKind × String)} (h : AllSpell xs) :
    ∃ us q, lex (sourceOf xs) = .ok (us ++ [.endMarker q]) ∧ us.map spelling = xs := by
  have hpieces : ∃ ps : List Piece, ps.map Piece.spelling = xs ∧ ps.IsChain Piece.Apart ∧
      ps.flatMap Piece.chars = xs.flatMap fun x => x.2.toList ++ [' '] := by
    induction xs with
    | nil => exact ⟨[], rfl, List.isChain_nil, rfl⟩
    | cons x xs ih =>
      obtain ⟨hx, hxs⟩ := allSpell_cons.1 h
      obtain ⟨ps, hmap, hchain, hchars⟩ := ih hxs
      have hgap : IsGap [' '] := List.forall_mem_singleton.2 List.mem_cons_self
      refine ⟨⟨x.1, x.2.toList, [' '], hx, hgap⟩ :: ps, ?_, ?_, ?_⟩
      · rw [List.map_cons, hmap, Piece.spelling, String.ofList_toList]
      · exact List.isChain_cons.2 ⟨fun _ _ _ => List.cons_ne_nil _ _, hchain⟩
      · rw [List.flatMap_cons, hchars]
        rfl
  obtain ⟨ps, hmap, hchain, hchars⟩ := hpieces
  obtain ⟨us, q, hlex, hus⟩ := exists_lex_layout (List.forall_mem_nil _ : IsGap []) hchain
  refine ⟨us, q, ?_, hus.trans hmap⟩
  rw [sourceOf, ← hchars]
  exact hlex

/-- A source whose tokens are statements, up to the end marker, is read as those statements. -/
lemma parse_of_isStatements {source : String} {us : List Token} {q : Position}
    {ss : List Statement} (hlex : lex source = .ok (us ++ [.endMarker q]))
    (hus : IsStatements us ss) : parse source = .ok ⟨ss⟩ := by
  refine parse_eq_ok_iff.2 ⟨_, hlex, Reader.parseTokens_eq_ok_iff.2 ?_⟩
  rw [withEndMarker_concat us rfl]
  exact ⟨_, Reader.statements_complete hus rfl []⟩

/-- What is written for a well-formed program is read as that program. -/
lemma Program.parse_text {p : Program} (h : p.WellFormed) (N : Numerals) :
    parse (p.text N) = .ok p := by
  have hspell : AllSpell (p.spelled N) := by
    intro x hx
    obtain ⟨s, hs, hmem⟩ := List.mem_flatMap.1 hx
    exact (h s hs).allSpell x hmem
  obtain ⟨us, q, hlex, hus⟩ := exists_lex_sourceOf hspell
  exact parse_of_isStatements hlex (isStatements_of_shown h hus)

example (N : Numerals) :
    Program.text N ⟨[.expr (.assign (.name "a") (.binary .mul (.name "b") (.object [])))]⟩ =
      "( a = ( b * ( \x7b \x7d ) ) ) ; " := by
  rfl

/-- The programs that sources spell are the well-formed ones, and writing such a program, with any
choice of digits for its numbers, is undone by reading. -/
theorem parse_inverts_text :
    (∀ source p, parse source = .ok p → p.WellFormed) ∧
    (∀ (p : Program), p.WellFormed → ∀ N : Numerals, parse (p.text N) = .ok p) ∧
    Nonempty Numerals :=
  ⟨fun _ _ h => Program.wellFormed_of_parse h, fun _ h N => Program.parse_text h N, inferInstance⟩

/-- An assignment to an object can be called, and its argument is an access: here the program
`(({ a } = b)(a.key))`. -/
theorem parse_inverts_text_call_of_assignment :
    let p : Program := ⟨[.expr (.call (.assign (.object [.shorthand "a"]) (.name "b"))
      [.dot (.name "a") (.name "key")])]⟩
    p.WellFormed ∧ ∃ N : Numerals, parse (p.text N) = .ok p := by
  intro p
  have ha : IsName "a".toList := by decide
  have hobject : (Expr.object [.shorthand "a"]).WellFormed :=
    .object (List.forall_mem_singleton.2 (.shorthand ha))
  have hdot : (Expr.dot (.name "a") (.name "key")).WellFormed := .dot (.name ha) (by decide)
  have hcall : (Expr.call (.assign (.object [.shorthand "a"]) (.name "b"))
      [.dot (.name "a") (.name "key")]).WellFormed :=
    .call (.assign hobject (.name (by decide))) (List.forall_mem_singleton.2 hdot)
  have hp : p.WellFormed := List.forall_mem_singleton.2 (.expr hcall)
  obtain ⟨N⟩ := parse_inverts_text.2.2
  exact ⟨hp, N, parse_inverts_text.2.1 p hp N⟩

end Scriptlet
