import Scriptlet.Proofs.Grammar.Soundness
import Scriptlet.Proofs.Lexer.Layout
import Scriptlet.Script

/-!
# Well-formed programs

The trees of expressions hold more than source texts can spell: any string can stand for a name, any
expression behind a dot, and a constant may lack its value.  `Program.WellFormed` says which
programs are free of that, node by node, and `Program.wellFormed_of_parse` shows that reading a
source gives no others.  The proof goes along the derivation of the tokens, each of which spells its
kind because the lexer cut it off (`isLexed_of_lex`).
-/

namespace Scriptlet

open Lexer Grammar

/-! ## The conditions on the nodes -/

/-- A number that some run of digits is read as. -/
def IsLiteral (x : Float) : Prop :=
  ∃ digits, IsNumeral digits ∧ Number.read? (String.ofList digits) = some x

mutual

/-- The expressions that a source text can spell.  There is no case for the null literal. -/
inductive Expr.WellFormed : Expr → Prop where
  /-- Any target and value make an assignment. -/
  | assign {target value : Expr} : target.WellFormed → value.WellFormed →
      (Expr.assign target value).WellFormed
  /-- Only a name stands behind a dot. -/
  | dot {base : Expr} {key : String} : base.WellFormed → IsName key.toList →
      (Expr.dot base (.name key)).WellFormed
  /-- Any expression stands in brackets. -/
  | index {base key : Expr} : base.WellFormed → key.WellFormed → (Expr.index base key).WellFormed
  /-- Any expression can be called. -/
  | call {callee : Expr} {args : List Expr} : callee.WellFormed → (∀ a ∈ args, a.WellFormed) →
      (Expr.call callee args).WellFormed
  /-- An object holds any number of properties. -/
  | object {properties : List Property} : (∀ p ∈ properties, p.WellFormed) →
      (Expr.object properties).WellFormed
  /-- A number is read from digits. -/
  | number {x : Float} : IsLiteral x → (Expr.number x).WellFormed
  /-- A variable has a name. -/
  | name {n : String} : IsName n.toList → (Expr.name n).WellFormed
  /-- An operator stands between any two operands. -/
  | binary {op : Operator} {l r : Expr} : l.WellFormed → r.WellFormed →
      (Expr.binary op l r).WellFormed

/-- The properties that a source text can spell. -/
inductive Property.WellFormed : Property → Prop where
  /-- A key that stands for itself. -/
  | shorthand {key : String} : IsName key.toList → (Property.shorthand key).WellFormed
  /-- A key with its value. -/
  | pair {key : String} {value : Expr} : IsName key.toList → value.WellFormed →
      (Property.pair key value).WellFormed

end

/-- The statements that a source text can spell: only a variable may lack its value. -/
inductive Statement.WellFormed : Statement → Prop where
  /-- A variable without a value. -/
  | bare {n : String} : IsName n.toList → (Statement.declaration n false none).WellFormed
  /-- A variable or constant with its value. -/
  | declaration {n : String} {constant : Bool} {value : Expr} : IsName n.toList →
      value.WellFormed → (Statement.declaration n constant (some value)).WellFormed
  /-- An expression. -/
  | expr {e : Expr} : e.WellFormed → (Statement.expr e).WellFormed

/-- The programs that a source text can spell. -/
def Program.WellFormed (p : Program) : Prop :=
  ∀ s ∈ p.body, s.WellFormed

/-! ## Lexed tokens -/

/-- The texts of the tokens are spellings of their kinds, end markers apart. -/
def IsLexed (ts : List Token) : Prop :=
  ∀ t ∈ ts, t.kind = .endOfInput ∨ Spells t.kind t.text.toList

section Lexed

variable {t : Token} {ts us : List Token}

/-- A list is lexed when its first token and its other tokens are. -/
lemma isLexed_cons : IsLexed (t :: ts) ↔
    (t.kind = .endOfInput ∨ Spells t.kind t.text.toList) ∧ IsLexed ts :=
  List.forall_mem_cons

/-- Two lists joined are lexed when both are. -/
lemma isLexed_append : IsLexed (ts ++ us) ↔ IsLexed ts ∧ IsLexed us :=
  List.forall_mem_append

/-- The tokens behind the first one are lexed too. -/
lemma IsLexed.tail (h : IsLexed (t :: ts)) : IsLexed ts :=
  (isLexed_cons.1 h).2

/-- The front of a lexed list is lexed. -/
lemma IsLexed.left (h : IsLexed (ts ++ us)) : IsLexed ts :=
  (isLexed_append.1 h).1

/-- The end of a lexed list is lexed. -/
lemma IsLexed.right (h : IsLexed (ts ++ us)) : IsLexed us :=
  (isLexed_append.1 h).2

/-- A token of a kind other than the end marker's spells that kind. -/
lemma IsLexed.spells {kind : TokenKind} (h : IsLexed ts) (hmem : t ∈ ts) (hkind : t.kind = kind)
    (hne : kind ≠ .endOfInput) : Spells kind t.text.toList := by
  rcases h t hmem with hend | hspells
  · exact absurd (hkind.symm.trans hend) hne
  · rw [hkind] at hspells
    exact hspells

/-- The name of a lexed token. -/
lemma IsLexed.isName (h : IsLexed (t :: ts)) (hkind : t.kind = .identifier) :
    IsName t.text.toList :=
  h.spells List.mem_cons_self hkind (by decide)

/-- The tokens of a source are lexed. -/
lemma isLexed_of_lex {source : String} (h : lex source = .ok ts) : IsLexed ts := by
  obtain ⟨lead, xs, -, -, -, rfl⟩ := exists_layout h
  obtain ⟨us, q, heq, hmap⟩ := Piece.exists_tokens_eq xs (Position.start.past lead)
  rw [heq, isLexed_append]
  constructor
  · intro t ht
    obtain ⟨x, -, hkind, htext⟩ := exists_piece_of_mem hmap ht
    right
    rw [← hkind, ← htext, String.toList_ofList]
    exact x.spells
  · intro t ht
    rw [List.mem_singleton.1 ht]
    exact .inl rfl

end Lexed

/-! ## The trees of lexed tokens -/

/-- A wrapped name is a name. -/
lemma exists_name_of_isWrappedName {ts : List Token} {e : Expr} (h : IsWrappedName ts e)
    (hts : IsLexed ts) : ∃ n, e = .name n ∧ IsName n.toList := by
  induction h with
  | name hkind => exact ⟨_, rfl, hts.isName hkind⟩
  | paren _ _ _ ih => exact ih hts.tail.left

-- Each lemma goes along the derivations of one symbol; the recursion is on the derivation.
mutual

/-- The tree of a lexed expression is well formed. -/
lemma wellFormed_of_isAssignment {ts : List Token} {e : Expr} (h : IsAssignment ts e)
    (hts : IsLexed ts) : e.WellFormed :=
  match h with
  | .object h => wellFormed_of_isObject h hts
  | .assign htarget _ hvalue =>
    .assign (wellFormed_of_isObject htarget hts.left)
      (wellFormed_of_isAssignment hvalue hts.right.tail)

/-- The tree of a lexed object literal is well formed. -/
lemma wellFormed_of_isObject {ts : List Token} {e : Expr} (h : IsObject ts e)
    (hts : IsLexed ts) : e.WellFormed :=
  match h with
  | .additive h => wellFormed_of_isAdditive h hts
  | .braces _ h _ => .object (wellFormed_of_isProperties h hts.tail.left)

/-- The properties of a lexed list of them are well formed. -/
lemma wellFormed_of_isProperties {ts : List Token} {ps : List Property} (h : IsProperties ts ps)
    (hts : IsLexed ts) : ∀ p ∈ ps, p.WellFormed :=
  match h with
  | .none => List.forall_mem_nil _
  | .last h => List.forall_mem_singleton.2 (wellFormed_of_isProperty h hts)
  | .more h _ hmore =>
    List.forall_mem_cons.2 ⟨wellFormed_of_isProperty h hts.left,
      wellFormed_of_isProperties hmore hts.right.tail⟩

/-- A lexed property is well formed: its key is a name. -/
lemma wellFormed_of_isProperty {ts : List Token} {p : Property} (h : IsProperty ts p)
    (hts : IsLexed ts) : p.WellFormed :=
  match h with
  | .shorthand hkey => .shorthand (hts.isName hkey)
  | .pair hkey _ h => .pair (hts.isName hkey) (wellFormed_of_isAssignment h hts.tail.tail)

/-- The tree of a lexed sum is well formed. -/
lemma wellFormed_of_isAdditive {ts : List Token} {e : Expr} (h : IsAdditive ts e)
    (hts : IsLexed ts) : e.WellFormed :=
  match h with
  | .one h => wellFormed_of_isMultiplicative h hts
  | .more hl _ _ _ hr =>
    .binary (wellFormed_of_isAdditive hl hts.left)
      (wellFormed_of_isMultiplicative hr hts.right.tail)

/-- The tree of a lexed product is well formed. -/
lemma wellFormed_of_isMultiplicative {ts : List Token} {e : Expr} (h : IsMultiplicative ts e)
    (hts : IsLexed ts) : e.WellFormed :=
  match h with
  | .one h => wellFormed_of_isCallMember h hts
  | .more hl _ _ _ hr =>
    .binary (wellFormed_of_isMultiplicative hl hts.left)
      (wellFormed_of_isCallMember hr hts.right.tail)

/-- The tree of a lexed chain of calls is well formed. -/
lemma wellFormed_of_isCallMember {ts : List Token} {e : Expr} (h : IsCallMember ts e)
    (hts : IsLexed ts) : e.WellFormed :=
  match h with
  | .member h => wellFormed_of_isMember h hts
  | .call hcallee _ hargs _ =>
    .call (wellFormed_of_isCallMember hcallee hts.left)
      (wellFormed_of_isArguments hargs hts.right.tail.left)

/-- The arguments in a lexed list of them are well formed. -/
lemma wellFormed_of_isArguments {ts : List Token} {args : List Expr} (h : IsArguments ts args)
    (hts : IsLexed ts) : ∀ a ∈ args, a.WellFormed :=
  match h with
  | .none => List.forall_mem_nil _
  | .one h => List.forall_mem_singleton.2 (wellFormed_of_isAssignment h hts)
  | .more h _ hmore _ =>
    List.forall_mem_cons.2 ⟨wellFormed_of_isAssignment h hts.left,
      wellFormed_of_isArguments hmore hts.right.tail⟩

/-- The tree of a lexed chain of accesses is well formed: behind a dot stands a name. -/
lemma wellFormed_of_isMember {ts : List Token} {e : Expr} (h : IsMember ts e)
    (hts : IsLexed ts) : e.WellFormed :=
  match h with
  | .primary h => wellFormed_of_isPrimary h hts
  | .dot hbase _ hkey => by
    obtain ⟨n, rfl, hname⟩ := exists_name_of_isWrappedName hkey hts.right.tail
    exact .dot (wellFormed_of_isMember hbase hts.left) hname
  | .index hbase _ hkey _ =>
    .index (wellFormed_of_isMember hbase hts.left)
      (wellFormed_of_isAssignment hkey hts.right.tail.left)

/-- The tree of a lexed primary is well formed. -/
lemma wellFormed_of_isPrimary {ts : List Token} {e : Expr} (h : IsPrimary ts e)
    (hts : IsLexed ts) : e.WellFormed :=
  match h with
  | .name hkind => .name (hts.isName hkind)
  | .null hkind =>
    -- No lexed token is a null literal: its kind has no spelling.
    absurd (hts.spells List.mem_cons_self hkind (by decide)) List.not_mem_nil
  | @IsPrimary.number t _ hkind hread =>
    have hnumeral : IsNumeral t.text.toList := hts.spells List.mem_cons_self hkind (by decide)
    .number ⟨t.text.toList, hnumeral, by rw [String.ofList_toList, hread]⟩
  | .paren _ h _ => wellFormed_of_isAssignment h hts.tail.left

end

/-- The tree of a lexed declaration is well formed: a constant has a value. -/
lemma wellFormed_of_isDeclaration {ts : List Token} {s : Statement} (h : IsDeclaration ts s)
    (hts : IsLexed ts) : s.WellFormed := by
  cases h with
  | bare _ hname _ => exact .bare (hts.tail.isName hname)
  | mutable _ hname _ hvalue _ =>
    exact .declaration (hts.tail.isName hname)
      (wellFormed_of_isAssignment hvalue hts.tail.tail.tail.left)
  | constant _ hname _ hvalue _ =>
    exact .declaration (hts.tail.isName hname)
      (wellFormed_of_isAssignment hvalue hts.tail.tail.tail.left)

/-- The tree of a lexed statement is well formed. -/
lemma wellFormed_of_isStatement {ts : List Token} {s : Statement} (h : IsStatement ts s)
    (hts : IsLexed ts) : s.WellFormed := by
  cases h with
  | declaration h => exact wellFormed_of_isDeclaration h hts
  | expr h => exact .expr (wellFormed_of_isAssignment h hts)
  | closed h _ => exact .expr (wellFormed_of_isAssignment h hts.left)

/-- The statements that lexed tokens derive are well formed. -/
lemma wellFormed_of_isStatements {ts : List Token} {ss : List Statement} (h : IsStatements ts ss)
    (hts : IsLexed ts) : ∀ s ∈ ss, s.WellFormed := by
  induction h with
  | none => exact List.forall_mem_nil _
  | more h _ _ ih =>
    exact List.forall_mem_cons.2 ⟨wellFormed_of_isStatement h hts.left, ih hts.right⟩

/-! ## The programs of sources -/

/-- A source is read by lexing it and reading its tokens. -/
lemma parse_eq_ok_iff {source : String} {p : Program} :
    parse source = .ok p ↔ ∃ ts, lex source = .ok ts ∧ parseTokens ts = .ok p := by
  unfold parse
  cases hlex : lex source with
  | error e => simp
  | ok ts => cases hparse : parseTokens ts <;> simp [hparse]

/-- The end marker that the parser adds does no harm. -/
lemma IsLexed.withEndMarker {ts : List Token} (h : IsLexed ts) : IsLexed (withEndMarker ts) := by
  rcases withEndMarker_eq ts with heq | ⟨q, heq⟩
  · rw [heq]
    exact h
  · rw [heq, isLexed_append]
    exact ⟨h, List.forall_mem_singleton.2 (.inl rfl)⟩

/-- Reading a source gives well-formed programs only. -/
lemma Program.wellFormed_of_parse {source : String} {p : Program} (h : parse source = .ok p) :
    p.WellFormed := by
  obtain ⟨ts, hlex, hparse⟩ := parse_eq_ok_iff.1 h
  obtain ⟨rest, hread⟩ := Reader.parseTokens_eq_ok_iff.1 hparse
  obtain ⟨pre, heq, hpre, -⟩ := Reader.statements_sound hread
  have hts : IsLexed (pre ++ rest) := heq ▸ (isLexed_of_lex hlex).withEndMarker
  exact wellFormed_of_isStatements hpre hts.left

end Scriptlet
