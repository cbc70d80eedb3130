import Scriptlet.Proofs.Eval.Outcome
import Scriptlet.Proofs.Lexer.Fragment
import Scriptlet.Proofs.Number.RoundTrip
import Scriptlet.Proofs.Program.Joining
import Scriptlet.Proofs.Store.Scopes
import Scriptlet.Proofs.Value.Content

/-!
# Printed values read back

The text of a value is a script, and running it gives an equal value.  That asks something of the
value: its keys have to be names, and its numbers have to be written with digits only, without a
sign or a point (`Objects.Printable`).

Between the value and the script stands the tree that the value is written out as.  The proof goes
along the tree three times: its text is cut into tokens (`Content.Readable.readsAs`), the tokens
are the expression that the tree is written as (`Content.Readable.isAssignment`), and evaluating
that expression makes new objects which are written out as the tree again
(`Content.Readable.rebuilds`).  Null and the truth values are written as names, so that the scope
has to see the global constants.
-/

namespace Scriptlet

open Lexer Grammar

/-! ## Trees that can be read back -/

namespace Content

/-- The keys are names, none of them twice in an object, and the numbers are written with digits. -/
inductive Readable : Content → Prop where
  /-- Null. -/
  | null : Readable .null
  /-- A truth value. -/
  | bool (b : Bool) : Readable (.bool b)
  /-- A number that is written with digits only. -/
  | number {x : Float} : IsNumeral (Number.text x).toList → Readable (.number x)
  /-- An object. -/
  | object {ps : List (String × Content)} : (ps.map Prod.fst).Nodup →
      (∀ p ∈ ps, IsName p.1.toList) → (∀ p ∈ ps, p.2.Readable) → Readable (.object ps)

/-- The numbers of a readable tree equal themselves. -/
lemma Readable.reflexive {c : Content} (h : c.Readable) : c.Reflexive := by
  induction h with
  | null => exact .null
  | bool b => exact .bool b
  | number hx =>
    obtain ⟨m, hparts, -⟩ := Number.parts_of_isNumeral hx
    exact .number (Binary64.beq_self (by rw [hparts]; nofun))
  | object _ _ _ ih => exact .object ih

mutual

/-- How the text of a tree is cut into tokens. -/
def spelled : Content → List (TokenKind × String)
  | .null => [(.identifier, "null")]
  | .bool true => [(.identifier, "true")]
  | .bool false => [(.identifier, "false")]
  | .number x => [(.number, Number.text x)]
  | .object ps =>
    (.openBrace, "\x7b") :: (separated (spelledPairs ps) ++ [(.closeBrace, "\x7d")])

/-- How the texts of properties are cut into tokens. -/
def spelledPairs : List (String × Content) → List (List (TokenKind × String))
  | [] => []
  | (key, c) :: ps => ((.identifier, key) :: (.colon, ":") :: c.spelled) :: spelledPairs ps

end

mutual

/-- The expression that a tree is written as. -/
def toExpr : Content → Expr
  | .null => .name "null"
  | .bool true => .name "true"
  | .bool false => .name "false"
  | .number x => .number x
  | .object ps => .object (toProperties ps)

/-- The properties that trees are written as. -/
def toProperties : List (String × Content) → List Property
  | [] => []
  | (key, c) :: ps => .pair key c.toExpr :: toProperties ps

end

/-- The text of a property is cut into its key, a colon and the tokens of its value. -/
lemma readsAs_property {key : String} {c : Content} (hkey : IsName key.toList)
    (hc : ReadsAs c.text.toList c.spelled) :
    ReadsAs (key ++ ": " ++ c.text).toList ((.identifier, key) :: (.colon, ":") :: c.spelled) := by
  have htail : ReadsAs (':' :: ' ' :: c.text.toList) ((.colon, ":") :: c.spelled) :=
    hc.blank.mark (by decide) (by decide)
  have hread : ReadsAs (key.toList ++ ':' :: ' ' :: c.text.toList)
      ((.identifier, String.ofList key.toList) :: (.colon, ":") :: c.spelled) :=
    htail.token hkey (stops_cons (by decide))
  rw [String.ofList_toList] at hread
  rw [String.toList_append, String.toList_append, List.append_assoc]
  exact hread

/-- The texts of properties, with a comma and a blank between them. -/
lemma readsAs_properties {ps : List (String × Content)} (hne : ps ≠ [])
    (hkeys : ∀ p ∈ ps, IsName p.1.toList)
    (hvalues : ∀ p ∈ ps, ReadsAs p.2.text.toList p.2.spelled) :
    ReadsAs (", ".intercalate (propertyTexts ps)).toList (separated (spelledPairs ps)) := by
  induction ps with
  | nil => exact absurd rfl hne
  | cons p ps ih =>
    obtain ⟨key, c⟩ := p
    obtain ⟨hkey, hkeys⟩ := List.forall_mem_cons.1 hkeys
    obtain ⟨hvalue, hvalues⟩ := List.forall_mem_cons.1 hvalues
    have hfirst := readsAs_property hkey hvalue
    cases ps with
    | nil =>
      rw [propertyTexts, propertyTexts, String.intercalate_singleton]
      exact hfirst
    | cons p' ps =>
      obtain ⟨key', c'⟩ := p'
      have hrest := ih (List.cons_ne_nil _ _) hkeys hvalues
      rw [propertyTexts, propertyTexts, String.intercalate_cons_cons, String.toList_append,
        String.toList_append, List.append_assoc, ← propertyTexts]
      exact hfirst.append (stops_cons (by decide)) (hrest.blank.mark (by decide) (by decide))

/-- The text of a readable tree is cut into its tokens.  Only a colon, a comma, a blank or the end
stands behind a value, and no token goes on with these. -/
lemma Readable.readsAs {c : Content} (h : c.Readable) : ReadsAs c.text.toList c.spelled := by
  induction h with
  | null =>
    rw [text, spelled]
    exact readsAs_text (by decide)
  | bool b =>
    cases b
    · rw [text, spelled]
      exact readsAs_text (by decide)
    · rw [text, spelled]
      exact readsAs_text (by decide)
  | @number x hx =>
    have hspells : Spells .number (Number.text x).toList := hx
    rw [text, spelled]
    exact readsAs_text hspells
  | @object ps _ hkeys _ ih =>
    rw [spelled]
    have hclose : ReadsAs ['\x7d'] [(.closeBrace, "\x7d")] :=
      readsAs_nil.mark (by decide) (by decide)
    cases ps with
    | nil =>
      rw [text]
      exact hclose.mark (by decide) (by decide)
    | cons p ps =>
      have hinner := readsAs_properties (List.cons_ne_nil p ps) hkeys ih
      have hbody := hinner.append (stops_cons (by decide)) hclose.blank
      rw [text, String.toList_append, String.toList_append, List.append_assoc]
      exact hbody.blank.mark (by decide) (by decide)

/-! ## Tokens of a tree -/

/-- Tokens that show as properties with commas between them are the properties. -/
lemma isProperties_toProperties {ps : List (String × Content)} {ts : List Token}
    (h : ∀ p ∈ ps, ∀ us, us.map spelling = p.2.spelled → IsAssignment us p.2.toExpr)
    (hts : ts.map spelling = separated (spelledPairs ps)) : IsProperties ts (toProperties ps) := by
  induction ps generalizing ts with
  | nil =>
    rw [List.map_eq_nil_iff.1 hts]
    exact .none
  | cons p ps ih =>
    obtain ⟨key, c⟩ := p
    obtain ⟨hc, hps⟩ := List.forall_mem_cons.1 h
    have hproperty : ∀ us : List Token,
        us.map spelling = (.identifier, key) :: (.colon, ":") :: c.spelled →
          IsProperty us (.pair key c.toExpr) := by
      intro us hus
      obtain ⟨k, vs, rfl, hk, rfl, hvs⟩ := exists_cons_of_shown hus
      obtain ⟨d, ws, rfl, hd, -, hws⟩ := exists_cons_of_shown hvs
      exact .pair hk hd (hc ws hws)
    rw [toProperties]
    cases ps with
    | nil => exact .last (hproperty ts hts)
    | cons p' ps =>
      obtain ⟨us, d, vs, rfl, hus, hd, -, hvs⟩ := exists_middle_of_shown hts
      exact .more (hproperty us hus) hd (ih hps hvs)

/-- Tokens that show as one word are the name. -/
lemma isAssignment_of_word {ts : List Token} {word : String}
    (hts : ts.map spelling = [(.identifier, word)]) : IsAssignment ts (.name word) := by
  obtain ⟨t, rfl, hkind, rfl⟩ := exists_singleton_of_shown hts
  exact isAssignment_of_isPrimary (.name hkind)

/-- Tokens that show as a readable tree are the expression that it is written as. -/
lemma Readable.isAssignment {c : Content} (h : c.Readable) {ts : List Token}
    (hts : ts.map spelling = c.spelled) : IsAssignment ts c.toExpr := by
  induction h generalizing ts with
  | null => exact isAssignment_of_word hts
  | bool b =>
    cases b
    · exact isAssignment_of_word hts
    · exact isAssignment_of_word hts
  | @number x hx =>
    obtain ⟨t, rfl, hkind, htext⟩ := exists_singleton_of_shown hts
    have hread : Number.read? t.text = some x := by
      rw [htext]
      exact Number.read?_text hx
    exact isAssignment_of_isPrimary (.number hkind hread)
  | object _ _ _ ih =>
    obtain ⟨o, us, rfl, ho, -, hus⟩ := exists_cons_of_shown hts
    obtain ⟨vs, d, rfl, hvs, hd⟩ := exists_concat_of_shown hus
    rw [toExpr]
    have hinner := isProperties_toProperties (fun p hp ws hws => ih p hp hws) hvs
    exact .object (.braces ho hinner hd)

/-- The text of a readable tree is read as the expression that it is written as. -/
lemma Readable.parse_text {c : Content} (h : c.Readable) :
    parse c.text = .ok ⟨[.expr c.toExpr]⟩ := by
  obtain ⟨us, q, hlex, hus⟩ := h.readsAs.exists_lex
  have hstatement : IsStatements (us ++ []) [.expr c.toExpr] :=
    .more (.expr (h.isAssignment hus)) .none fun hglue => not_startsIn_nil hglue.2
  rw [List.append_nil] at hstatement
  exact parse_of_isStatements hlex hstatement

end Content

/-! ## The value of a tree -/

namespace Store

/-- The names of the global constants mean these constants in the scope. -/
def SeesGlobals (s : Store) (e : ScopeId) : Prop :=
  ∀ b ∈ globals, s.lookup e b.1 = .ok b.2

/-- A new global scope sees the constants. -/
lemma seesGlobals_openGlobal (s : Store) : s.openGlobal.SeesGlobals s.nextScope :=
  fun _ hb => lookup_of_localValue? (s.openGlobal_of_mem hb).1

end Store

namespace Content

/-- Evaluating the expression of a tree gives a value that is written out as the tree, and does
nothing but to make new objects. -/
def Rebuilds (e : ScopeId) (c : Content) : Prop :=
  ∀ s : Store, s.SeesGlobals e → ∃ v o,
    (c.toExpr.eval e).outcome s = (.ok v, { s with objects := o }) ∧ s.objects.Grows o ∧
      o.Shows v c

section Rebuilds

variable {e : ScopeId}

/-- A constant is found under its name. -/
lemma rebuilds_word {word : String} {v : Value} {c : Content} (hc : c.toExpr = .name word)
    (hglobal : (word, v) ∈ Store.globals) (hv : ∀ o : Objects, o.Shows v c) : c.Rebuilds e := by
  intro s hs
  refine ⟨v, s.objects, ?_, .refl _, hv _⟩
  rw [hc, Expr.eval, Eval.outcome_read, hs _ hglobal]

/-- The properties are put behind those that are in the table already. -/
lemma rebuilds_properties {ps : List (String × Content)} (hvalues : ∀ p ∈ ps, p.2.Rebuilds e)
    (table : Table Value) (hkeys : (table.keys ++ ps.map Prod.fst).Nodup) {s : Store}
    (hs : s.SeesGlobals e) :
    ∃ table' es o, (evalProperties e table (toProperties ps)).outcome s =
        (.ok table', { s with objects := o }) ∧ s.objects.Grows o ∧
      table'.entries = table.entries ++ es ∧ o.ShowsAll es ps := by
  induction ps generalizing table s with
  | nil => exact ⟨table, [], s.objects, rfl, .refl _, (List.append_nil _).symm, .nil⟩
  | cons p ps ih =>
    obtain ⟨key, c⟩ := p
    obtain ⟨hc, hvalues⟩ := List.forall_mem_cons.1 hvalues
    obtain ⟨v, o, heval, hgrows, hshows⟩ := hc s hs
    have hfresh : key ∉ table.keys := fun hmem =>
      (List.nodup_append.1 hkeys).2.2 key hmem key List.mem_cons_self rfl
    have hinsert : (table.insert key v).keys ++ ps.map Prod.fst =
        table.keys ++ ((key, c) :: ps).map Prod.fst := by
      rw [Table.keys_insert, if_neg hfresh, List.append_assoc]
      rfl
    rw [← hinsert] at hkeys
    have hs' : Store.SeesGlobals { s with objects := o } e := hs
    obtain ⟨table', es, o', hrest, hgrows', hentries, hall⟩ := ih hvalues _ hkeys hs'
    refine ⟨table', (key, v) :: es, o', ?_, hgrows.trans hgrows', ?_,
      .cons (hshows.mono hgrows') hall⟩
    · rw [toProperties, evalProperties, Eval.outcome_bind_of_ok heval, hrest]
    · rw [hentries, Table.entries_insert_of_not_mem v hfresh, List.append_assoc]
      rfl

/-- Evaluating the expression of a readable tree gives the tree back. -/
lemma Readable.rebuilds {c : Content} (h : c.Readable) : c.Rebuilds e := by
  induction h with
  | null => exact rebuilds_word rfl (by decide) fun _ => .null
  | bool b =>
    cases b
    · exact rebuilds_word rfl (by decide) fun _ => .bool false
    · exact rebuilds_word rfl (by decide) fun _ => .bool true
  | @number x hx =>
    intro s _
    exact ⟨.number x, s.objects, rfl, .refl _, .number x⟩
  | @object ps hnodup _ _ ih =>
    intro s hs
    obtain ⟨table, es, o, heval, hgrows, hentries, hall⟩ := rebuilds_properties ih .empty hnodup hs
    refine ⟨.object o.next, o.push table, ?_, hgrows.trans (o.grows_push table), ?_⟩
    · rw [toExpr, Expr.eval, Eval.outcome_bind_of_ok heval]
      rfl
    · have hget : (o.push table).get? o.next = some table := by
        rw [Heap.get?_push, if_pos rfl]
      refine .object hget ?_
      rw [hentries]
      exact hall.mono (o.grows_push table)

end Rebuilds

/-- Running the text of a readable tree gives a value that is written out as the tree. -/
lemma Readable.run_text {c : Content} (h : c.Readable) {e : ScopeId} {s : Store}
    (hs : s.SeesGlobals e) :
    ∃ v o, Script.run c.text e s = (.ok v, { s with objects := o }) ∧ s.objects.Grows o ∧
      o.Shows v c := by
  obtain ⟨v, o, heval, hgrows, hshows⟩ := h.rebuilds s hs
  refine ⟨v, o, ?_, hgrows, hshows⟩
  have hprogram : (Program.eval e ⟨[.expr c.toExpr]⟩).outcome s =
      (.ok v, { s with objects := o }) := by
    show ((c.toExpr.eval e) >>= fun v => evalStatements e v []).outcome s = _
    rw [Eval.outcome_bind_of_ok heval]
    rfl
  rw [Script.run_of_parse h.parse_text, Script.perform_eq, hprogram]

end Content

namespace Objects

/-- Values that are built from null, truth values, numbers that are written with digits only, and
objects whose keys are names. -/
inductive Printable (objects : Objects) : Value → Prop where
  /-- Null. -/
  | null : Printable objects .null
  /-- A truth value. -/
  | bool (b : Bool) : Printable objects (.bool b)
  /-- A number. -/
  | number {x : Float} : IsNumeral (Number.text x).toList → Printable objects (.number x)
  /-- An object that there is. -/
  | object {id : ObjectId} {table : Table Value} : objects.get? id = some table →
      (∀ p ∈ table.entries, IsName p.1.toList) → (∀ p ∈ table.entries, Printable objects p.2) →
      Printable objects (.object id)

/-- A printable value is written out as a readable tree. -/
lemma Printable.exists_shows {objects : Objects} {v : Value} (h : objects.Printable v) :
    ∃ c, objects.Shows v c ∧ c.Readable := by
  induction h with
  | null => exact ⟨.null, .null, .null⟩
  | bool b => exact ⟨.bool b, .bool b, .bool b⟩
  | @number x hx => exact ⟨.number x, .number x, .number hx⟩
  | @object id table hget hnames _ ih =>
    obtain ⟨ps, hall, hkeys, hps⟩ := exists_showsAll ih
    have hnodup : (ps.map Prod.fst).Nodup := by
      rw [hkeys]
      exact table.keys_nodup
    have hnames' : ∀ p ∈ ps, IsName p.1.toList := by
      intro p hp
      have hmem : p.1 ∈ table.entries.map Prod.fst := hkeys ▸ List.mem_map_of_mem hp
      obtain ⟨q, hq, heq⟩ := List.mem_map.1 hmem
      rw [← heq]
      exact hnames q hq
    exact ⟨.object ps, .object hget hall, .object hnodup hnames' hps⟩

end Objects

/-- The text of a printable value is a script that gives an equal value.  The value is written out
in full in its text.  Run by itself, the text gives a value that is written out as the same tree,
with the same keys in the same order at every level; and run among the objects of the value, it
leaves these as they are and gives a value that is equal to it. -/
theorem printed_reads_back (s : Store) (v : Value) (h : s.objects.Printable v) :
    s.objects.Shows v (s.objects.content v) ∧
    (∃ w t, Script.result (s.objects.text v) = (.ok w, t) ∧
      t.objects.Shows w (s.objects.content v)) ∧
    ∃ w t, Script.run (s.objects.text v) s.nextScope s.openGlobal = (.ok w, t) ∧
      s.objects.Grows t.objects ∧ t.objects.Shows w (s.objects.content v) ∧
      t.objects.equal w v = true := by
  obtain ⟨c, hshows, hc⟩ := h.exists_shows
  rw [Objects.text, hshows.content_eq]
  refine ⟨hshows, ?_, ?_⟩
  · obtain ⟨w, o, hrun, -, hw⟩ := hc.run_text Store.empty.seesGlobals_openGlobal
    exact ⟨w, _, hrun, hw⟩
  · obtain ⟨w, o, hrun, hgrows, hw⟩ := hc.run_text s.seesGlobals_openGlobal
    exact ⟨w, _, hrun, hgrows, hw, hw.equal (hshows.mono hgrows) hc.reflexive⟩

/-- Objects may stand in objects, and a key may be the name of a constant. -/
theorem printed_reads_back_nested :
    let s : Store := ⟨.empty, (Heap.empty.push (.ofList [("true", .bool false)])).push
      (.ofList [("n", .number 1200), ("inner_", .object 0), ("z", .null)])⟩
    let source := "\x7b n: 1200, inner_: \x7b true: false \x7d, z: null \x7d"
    s.objects.text (.object 1) = source ∧
      ∃ w t, Script.run source s.nextScope s.openGlobal = (.ok w, t) ∧
        t.objects.equal w (.object 1) = true := by
  intro s source
  have hinner : s.objects.get? 0 = some (.ofList [("true", .bool false)]) := rfl
  have houter : s.objects.get? 1 =
      some (.ofList [("n", .number 1200), ("inner_", .object 0), ("z", .null)]) := rfl
  have hnumber : IsNumeral (Number.text 1200).toList := by decide +kernel
  have hprintable : s.objects.Printable (.object 1) := by
    refine .object houter (by decide) (List.forall_mem_cons.2 ⟨.number hnumber, ?_⟩)
    refine List.forall_mem_cons.2 ⟨?_, List.forall_mem_singleton.2 .null⟩
    exact .object hinner (by decide) (List.forall_mem_singleton.2 (.bool false))
  have htext : s.objects.text (.object 1) = source := by decide +kernel
  obtain ⟨-, -, w, t, hrun, -, -, hequal⟩ := printed_reads_back s (.object 1) hprintable
  rw [htext] at hrun
  exact ⟨htext, w, t, hrun, hequal⟩

end Scriptlet
