import Mathlib.Data.List.Induction
import Scriptlet.Proofs.Eval.Outcome

/-!
# Tables from lists, and objects that are written out

A list of entries may name a key more than once.  The table that it makes up has each key once, in
the place where it first came, and with the value that came last.  The first section says this of
`Table.ofList`, each time by induction from the right: one more entry at the end is one more
`Table.insert`.

An object that is written out evaluates its properties one after the other and sets them in a table
as it goes.  `ObjectLiteral.Computes` and `ObjectLiteral.Fails` say what the properties do, without
the table: the one is a run of them that goes well, with the pairs of keys and values that come of
it, and the other ends at the first property that goes wrong.  One of the two is the case, and it
decides what the evaluation gives.
-/

namespace Scriptlet

/-! ## Tables from lists -/

namespace Table

variable {α : Type} {es : List (String × α)}

/-- Sets the entries of a list, one after the other. -/
def insertAll (t : Table α) (es : List (String × α)) : Table α :=
  es.foldl (fun t e => t.insert e.1 e.2) t

/-- Setting two lists of keys is setting one and then the other. -/
lemma insertAll_append (t : Table α) (es fs : List (String × α)) :
    t.insertAll (es ++ fs) = (t.insertAll es).insertAll fs :=
  List.foldl_append

/-- One more entry is one more key that is set. -/
lemma ofList_concat (es : List (String × α)) (e : String × α) :
    ofList (es ++ [e]) = (ofList es).insert e.1 e.2 :=
  empty.insertAll_append es [e]

/-- The keys are those of the list, each in the place where it first came. -/
lemma keys_ofList (es : List (String × α)) : (ofList es).keys = (es.map Prod.fst).eraseDups := by
  induction es using List.reverseRecOn with
  | nil => rfl
  | append_singleton es e ih =>
    rw [ofList_concat, keys_insert, ih, List.map_append, List.eraseDups_append, List.map_singleton]
    by_cases hold : e.1 ∈ es.map Prod.fst
    · have hnone : [e.1].removeAll (es.map Prod.fst) = [] := by
        simp [List.removeAll, hold]
      rw [if_pos (List.mem_eraseDups.2 hold), hnone, List.eraseDups_nil, List.append_nil]
    · have hone : [e.1].removeAll (es.map Prod.fst) = [e.1] := by
        simp [List.removeAll, hold]
      rw [if_neg (fun hmem => hold (List.mem_eraseDups.1 hmem)), hone]
      rfl

/-- A key has the value of the last entry that names it. -/
lemma get?_ofList (es : List (String × α)) (key : String) :
    (ofList es).get? key = (es.filter fun e => e.1 = key).getLast?.map Prod.snd := by
  induction es using List.reverseRecOn with
  | nil => rfl
  | append_singleton es e ih =>
    rw [ofList_concat, get?_insert, List.filter_append]
    by_cases hkey : key = e.1
    · rw [if_pos hkey, List.filter_cons_of_pos (by simp [hkey]), List.filter_nil,
        List.getLast?_concat, Option.map_some]
    · have hne : ¬ e.1 = key := fun h => hkey h.symm
      rw [if_neg hkey, List.filter_cons_of_neg (by simp [hne]), List.filter_nil, List.append_nil,
        ih]

/-- A list that names no key twice is the list of entries of its table. -/
lemma entries_ofList (h : (es.map Prod.fst).Nodup) : (ofList es).entries = es := by
  induction es using List.reverseRecOn with
  | nil => rfl
  | append_singleton es e ih =>
    rw [List.map_append, List.nodup_append] at h
    obtain ⟨hes, -, hdisjoint⟩ := h
    have hentries : (ofList es).entries = es := ih hes
    have hfresh : e.1 ∉ (ofList es).keys := by
      rw [keys, hentries]
      exact fun hmem => hdisjoint e.1 hmem e.1 (List.mem_singleton_self e.1) rfl
    rw [ofList_concat, entries_insert_of_not_mem e.2 hfresh, hentries]

/-- A table is made up of its own entries. -/
lemma ofList_entries (t : Table α) : ofList t.entries = t :=
  Table.ext (entries_ofList t.keys_nodup)

end Table

/-! ## Objects that are written out -/

/-- The number of a new object leads to its table. -/
lemma Store.get?_addObject_self (t : Store) (table : Table Value) :
    (t.addObject table).objects.get? t.objects.next = some table := by
  rw [addObject, Heap.get?_push, if_pos rfl]

/-- The value of a property: that of the variable of the same name, or that of an expression. -/
def Property.eval (e : ScopeId) : Property → Eval Value
  | .shorthand key => Eval.read fun s => s.lookup e key
  | .pair _ value => value.eval e

namespace ObjectLiteral

variable {e : ScopeId} {ps : List Property} {s t : Store} {es : List (String × Value)}
  {err : RuntimeError}

/-- The properties are evaluated one after the other, each in the store that the one before it left,
from `s` to `t`.  They all go well, and with their keys they give the pairs `es`. -/
inductive Computes (e : ScopeId) :
    List Property → Store → List (String × Value) → Store → Prop where
  /-- No property. -/
  | nil (s : Store) : Computes e [] s [] s
  /-- A property, and those behind it. -/
  | cons {p : Property} {ps : List Property} {s mid t : Store} {v : Value}
      {es : List (String × Value)} : (p.eval e).outcome s = (.ok v, mid) →
      Computes e ps mid es t → Computes e (p :: ps) s ((p.key, v) :: es) t

/-- The properties are evaluated one after the other up to the first that goes wrong: it does so
with the error `err`, and leaves the store `t`. -/
inductive Fails (e : ScopeId) : List Property → Store → RuntimeError → Store → Prop where
  /-- The first property goes wrong. -/
  | here {p : Property} {ps : List Property} {s t : Store} {err : RuntimeError} :
      (p.eval e).outcome s = (.error err, t) → Fails e (p :: ps) s err t
  /-- The first property goes well, and one behind it goes wrong. -/
  | later {p : Property} {ps : List Property} {s mid t : Store} {v : Value} {err : RuntimeError} :
      (p.eval e).outcome s = (.ok v, mid) → Fails e ps mid err t → Fails e (p :: ps) s err t

/-- Properties go well, or one of them is the first to go wrong. -/
lemma computes_or_fails (e : ScopeId) (ps : List Property) (s : Store) :
    (∃ es t, Computes e ps s es t) ∨ ∃ err t, Fails e ps s err t := by
  induction ps generalizing s with
  | nil => exact .inl ⟨[], s, .nil s⟩
  | cons p ps ih =>
    cases hp : (p.eval e).outcome s with
    | mk r mid =>
      cases r with
      | error err => exact .inr ⟨err, mid, .here hp⟩
      | ok v =>
        rcases ih mid with ⟨es, t, hes⟩ | ⟨err, t, herr⟩
        · exact .inl ⟨(p.key, v) :: es, t, .cons hp hes⟩
        · exact .inr ⟨err, t, .later hp herr⟩

/-- A property is evaluated, and then it is set in the table. -/
lemma evalProperties_cons (e : ScopeId) (table : Table Value) (p : Property) (ps : List Property) :
    evalProperties e table (p :: ps) =
      p.eval e >>= fun v => evalProperties e (table.insert p.key v) ps := by
  cases p <;> rfl

/-- Properties that go well are set in the table, in their order. -/
lemma Computes.outcome_evalProperties (h : Computes e ps s es t) (table : Table Value) :
    (evalProperties e table ps).outcome s = (.ok (table.insertAll es), t) := by
  induction h generalizing table with
  | nil s => rfl
  | @cons p ps s mid t v es hp _ ih =>
    rw [evalProperties_cons, Eval.outcome_bind_of_ok hp, ih]
    rfl

/-- The first property that goes wrong ends the evaluation. -/
lemma Fails.outcome_evalProperties (h : Fails e ps s err t) (table : Table Value) :
    (evalProperties e table ps).outcome s = (.error err, t) := by
  induction h generalizing table with
  | here hp => rw [evalProperties_cons, Eval.outcome_bind_of_error hp]
  | later hp _ ih => rw [evalProperties_cons, Eval.outcome_bind_of_ok hp, ih]

/-- An object that is written out has the pairs of its properties, in a table that is new. -/
lemma Computes.outcome_eval (h : Computes e ps s es t) :
    ((Expr.object ps).eval e).outcome s =
      (.ok (.object t.objects.next), t.addObject (.ofList es)) := by
  rw [Expr.eval, Eval.outcome_bind_of_ok (h.outcome_evalProperties .empty), Eval.outcome_newObject]
  rfl

/-- A literal with a property that fails gives its error, in the store it left. -/
lemma Fails.outcome_eval (h : Fails e ps s err t) :
    ((Expr.object ps).eval e).outcome s = (.error err, t) := by
  rw [Expr.eval, Eval.outcome_bind_of_error (h.outcome_evalProperties .empty)]

end ObjectLiteral

open ObjectLiteral

/-- Keys stay where they first came and have the value that came last.  This holds of the table that
a list of entries makes up, which goes on in the same way with further entries, and is made up of
its own entries again.  And it holds of an object that is written out: its properties are evaluated
in their order, each in the store that the one before it left, and the value is a new object, whose
table is that of their keys and values; or else the first property that goes wrong decides the
error. -/
theorem first_place_last_value :
    (∀ es : List (String × Value),
      (Table.ofList es).keys = (es.map Prod.fst).eraseDups ∧
      (Table.ofList es).size = (es.map Prod.fst).eraseDups.length ∧
      (∀ key, (Table.ofList es).get? key =
        (es.filter fun e => e.1 = key).getLast?.map Prod.snd) ∧
      Table.ofList es = es.foldl (fun t e => t.insert e.1 e.2) .empty ∧
      ∀ fs : List (String × Value),
        fs.foldl (fun t e => t.insert e.1 e.2) (Table.ofList es) = .ofList (es ++ fs)) ∧
    (∀ t : Table Value, Table.ofList t.entries = t) ∧
    ∀ e ps s,
      ((∃ es t, Computes e ps s es t) ∨ ∃ err t, Fails e ps s err t) ∧
      (∀ es t, Computes e ps s es t →
        ((Expr.object ps).eval e).outcome s =
          (.ok (.object t.objects.next), t.addObject (.ofList es)) ∧
        (t.addObject (.ofList es)).objects.get? t.objects.next = some (.ofList es)) ∧
      ∀ err t, Fails e ps s err t → ((Expr.object ps).eval e).outcome s = (.error err, t) := by
  refine ⟨fun es => ⟨Table.keys_ofList es, ?_, Table.get?_ofList es, rfl, fun fs => ?_⟩,
    Table.ofList_entries, fun e ps s => ⟨computes_or_fails e ps s, ?_, ?_⟩⟩
  · rw [← Table.keys_ofList, Table.keys, List.length_map]
    rfl
  · exact (Table.empty.insertAll_append es fs).symm
  · intro es t h
    exact ⟨h.outcome_eval, t.get?_addObject_self (.ofList es)⟩
  · intro err t h
    exact h.outcome_eval

/-- A key that comes twice, with an assignment that a later property sees: here the object
`{ b: x = 2, x, b: null }`. -/
theorem first_place_last_value_assigned :
    let ps : List Property :=
      [.pair "b" (.assign (.name "x") (.number 2)), .shorthand "x", .pair "b" .null]
    let s : Store := ⟨Heap.empty.push ⟨.ofList [("x", .null)], [], []⟩, .empty⟩
    let t : Store := ⟨Heap.empty.push ⟨.ofList [("x", .number 2)], [], []⟩, .empty⟩
    let es : List (String × Value) := [("b", .number 2), ("x", .number 2), ("b", .null)]
    Computes 0 ps s es t ∧
      ((Expr.object ps).eval 0).outcome s = (.ok (.object 0), t.addObject (.ofList es)) ∧
      (t.addObject (.ofList es)).objects.get? 0 = some (.ofList es) ∧
      (Table.ofList es).keys = ["b", "x"] ∧ (Table.ofList es).get? "b" = some .null := by
  intro ps s t es
  have hcomputes : Computes 0 ps s es t := .cons rfl (.cons rfl (.cons rfl (.nil t)))
  obtain ⟨hkeys, -, hget, -⟩ := first_place_last_value.1 es
  obtain ⟨houtcome, hobject⟩ := (first_place_last_value.2.2 0 ps s).2.1 es t hcomputes
  refine ⟨hcomputes, houtcome, hobject, ?_, ?_⟩
  · rw [hkeys]
    decide
  · rw [hget]
    decide

end Scriptlet
