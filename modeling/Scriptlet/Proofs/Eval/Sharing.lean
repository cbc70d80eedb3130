import Mathlib.Data.List.Nodup
import Scriptlet.Proofs.Eval.Outcome
import Scriptlet.Proofs.Store.Scopes
import Scriptlet.Proofs.Value.Graph

/-!
# Which objects a program passes on

A program gets hold of an object in two ways only: a name stands for it, or an object literal makes
it.  What it binds to names and puts into new objects is what it got hold of before.
`Eval.Acts` describes a run in these terms, with the set of the objects that are in hand, and
`Phrase.does` says that every run is of this form.  The rest is said about acts: they leave old
objects as they are, they make no object contain itself, and each object in a name afterwards was in
a name before or is one of those that were made.

`Phrase.evaluations` lists the evaluations of expressions that a run consists of, and `Phrase.made`
the objects that the object literals among them give.  They come from acts that make objects, one
from each, so that the numbers of the objects are handed out one after the other.
-/

namespace Scriptlet

/-! ## The evaluations in a run -/

/-- What comes after a computation that goes well. -/
def Eval.after {α β : Type} (x : Eval α) (s : Store) (f : α → Store → List β) : List β :=
  match x.outcome s with
  | (.ok a, t) => f a t
  | (.error _, _) => []

mutual

/-- The evaluations of expressions that take place when an expression is evaluated in the scope `e`,
in the order in which they end, each with the store in which it starts. -/
def Expr.evaluations (e : ScopeId) : Expr → Store → List (Expr × Store)
  | .binary op left right, s =>
    left.evaluations e s ++ ((left.eval e).after s fun _ t => right.evaluations e t) ++
      [(.binary op left right, s)]
  | .assign target value, s =>
    (match target.name? with
      | none => []
      | some _ => value.evaluations e s) ++ [(.assign target value, s)]
  | .object ps, s => propertyEvaluations e ps s ++ [(.object ps, s)]
  | x, s => [(x, s)]

/-- The evaluations of expressions that take place when properties are evaluated. -/
def propertyEvaluations (e : ScopeId) : List Property → Store → List (Expr × Store)
  | [], _ => []
  | .shorthand key :: ps, s =>
    (Eval.read fun s => s.lookup e key).after s fun _ t => propertyEvaluations e ps t
  | .pair _ value :: ps, s =>
    value.evaluations e s ++ (value.eval e).after s fun _ t => propertyEvaluations e ps t

end

/-- The evaluations of expressions that take place when a statement is run. -/
def Statement.evaluations (e : ScopeId) : Statement → Store → List (Expr × Store)
  | .expr x, s => x.evaluations e s
  | .declaration _ _ (some x), s => x.evaluations e s
  | .declaration _ _ none, _ => []

/-- The evaluations of expressions that take place when statements are run. -/
def statementEvaluations (e : ScopeId) : List Statement → Store → List (Expr × Store)
  | [], _ => []
  | stmt :: stmts, s =>
    stmt.evaluations e s ++ (stmt.eval e).after s fun _ t => statementEvaluations e stmts t

/-- The evaluations of expressions that take place when a phrase is run. -/
def Phrase.evaluations (e : ScopeId) : Phrase → Store → List (Expr × Store)
  | .program p, s => statementEvaluations e p.body s
  | .statement stmt, s => stmt.evaluations e s
  | .expr x, s => x.evaluations e s

/-- The object that an evaluation gives, if it is that of an object literal and goes well. -/
def objectMade? (e : ScopeId) : Expr × Store → Option Value
  | (.object ps, s) => (((Expr.object ps).eval e).outcome s).1.toOption
  | _ => none

/-- The objects that the object literals among some evaluations give. -/
def objectsMade (e : ScopeId) (evaluations : List (Expr × Store)) : List Value :=
  evaluations.filterMap (objectMade? e)

/-- The objects that object literals give when a phrase is run. -/
def Phrase.made (e : ScopeId) (p : Phrase) (s : Store) : List Value :=
  objectsMade e (p.evaluations e s)

section Made

variable {α β γ : Type} (x : Eval α) (s : Store) (e : ScopeId)

/-- Nothing comes after a computation if nothing comes after its results. -/
@[simp] lemma Eval.after_nil : (x.after s fun _ _ => ([] : List β)) = [] := by
  unfold Eval.after
  split <;> rfl

/-- Objects are made by the first evaluations and then by the others. -/
@[simp] lemma objectsMade_append (l l' : List (Expr × Store)) :
    objectsMade e (l ++ l') = objectsMade e l ++ objectsMade e l' :=
  List.filterMap_append

/-- The objects made after a computation are those of the evaluations after it. -/
@[simp] lemma objectsMade_after (f : α → Store → List (Expr × Store)) :
    objectsMade e (x.after s f) = x.after s fun a t => objectsMade e (f a t) := by
  unfold Eval.after
  split <;> rfl

/-- Other evaluations make no objects themselves. -/
lemma objectsMade_concat {y : Expr} (h : objectMade? e (y, s) = none) (l : List (Expr × Store)) :
    objectsMade e (l ++ [(y, s)]) = objectsMade e l := by
  rw [objectsMade_append, objectsMade, objectsMade, List.filterMap_cons, h, List.filterMap_nil,
    List.append_nil]

/-- An object literal gives its object last. -/
lemma objectsMade_object (ps : List Property) :
    objectsMade e [(.object ps, s)] =
      (evalProperties e .empty ps).after s fun _ t => [.object t.objects.next] := by
  have hmade : objectsMade e [(.object ps, s)] =
      (((Expr.object ps).eval e).outcome s).1.toOption.toList := by
    unfold objectsMade
    rw [List.filterMap_cons, objectMade?]
    cases (((Expr.object ps).eval e).outcome s).1 <;> rfl
  rw [hmade, Expr.eval, Eval.outcome_bind, Eval.after]
  obtain ⟨table | err, t⟩ := (evalProperties e .empty ps).outcome s
  · rfl
  · rfl

end Made

/-! ## Objects in scopes -/

namespace Store

open Relation

variable {s t : Store} {e : ScopeId} {v : Value}

/-- The objects that names stand for, in any scope. -/
def bound (s : Store) : Set ObjectId := {id | ∃ e name, s.localValue? e name = some (.object id)}

/-- What a name stands for is bound. -/
lemma within_bound_of_lookup {name : String} (h : s.lookup e name = .ok v) :
    v.Within s.bound := by
  rw [lookup] at h
  cases howner : s.resolve? e name with
  | none =>
    rw [howner] at h
    cases h
  | some owner =>
    rw [howner, Option.bind_some] at h
    cases hvalue : s.localValue? owner name with
    | none =>
      rw [hvalue] at h
      cases h
    | some u =>
      rw [hvalue] at h
      cases h
      rintro id rfl
      exact ⟨owner, name, hvalue⟩

/-- Binding a name to a value makes at most that value bound. -/
lemma bound_setValue_subset {ids : Set ObjectId} (hv : v.Within ids) (i : ScopeId) (name : String) :
    (s.setValue i name v).bound ⊆ s.bound ∪ ids := by
  rintro id ⟨e, n, hvalue⟩
  rw [localValue?_setValue] at hvalue
  split at hvalue
  · exact .inr (hv id (Option.some.inj hvalue))
  · exact .inl ⟨e, n, hvalue⟩

/-- A write touches no object. -/
lemma Writes.objects_eq (h : Writes e v s t) : t.objects = s.objects := by
  cases h with
  | @declare name constant h =>
    obtain ⟨-, rfl⟩ := declare_eq_ok_iff.1 h
    cases constant <;> rfl
  | assign h =>
    obtain ⟨owner, -, -, rfl⟩ := assign_eq_ok_iff.1 h
    rfl

/-- A write binds no other value than the one that is written. -/
lemma Writes.bound_subset {ids : Set ObjectId} (h : Writes e v s t) (hv : v.Within ids) :
    t.bound ⊆ s.bound ∪ ids := by
  cases h with
  | @declare name constant h =>
    obtain ⟨-, rfl⟩ := declare_eq_ok_iff.1 h
    cases constant with
    | false => exact bound_setValue_subset hv e name
    | true =>
      have hbound : (s.holdConstant e name).bound = s.bound := by
        simp only [bound, localValue?_holdConstant]
      rw [← hbound]
      exact bound_setValue_subset hv e name
  | @assign name h =>
    obtain ⟨owner, -, -, rfl⟩ := assign_eq_ok_iff.1 h
    exact bound_setValue_subset hv owner name

/-- Names stand for objects that exist, and no object contains itself. -/
structure WellBuilt (s : Store) : Prop where
  /-- The objects are well built. -/
  objects : s.objects.WellBuilt
  /-- What names stand for exists. -/
  bound : s.bound ⊆ s.objects.ids

end Store

/-! ## Acts -/

/-- A run in the scope `e` starts in the store `s`, with the objects `known` in hand.  By now it has
made some objects, has come to some store, and has some objects in hand. -/
inductive Eval.Acts (e : ScopeId) (s : Store) (known : Set ObjectId) :
    List Value → Store → Set ObjectId → Prop where
  /-- Nothing was done. -/
  | start : Acts e s known [] s known
  /-- A name is looked up. -/
  | look {made : List Value} {t : Store} {hand : Set ObjectId} {name : String} {v : Value} :
    Acts e s known made t hand → t.lookup e name = .ok v →
    Acts e s known made t ({id | v = .object id} ∪ hand)
  /-- An object is made of what is in hand. -/
  | make {made : List Value} {t : Store} {hand : Set ObjectId} {table : Table Value} :
    Acts e s known made t hand → table.ValuesWithin hand →
    Acts e s known (made ++ [.object t.objects.next]) (t.addObject table)
      (insert t.objects.next hand)
  /-- A value is declared or assigned that is in hand. -/
  | write {made : List Value} {t t' : Store} {hand : Set ObjectId} {v : Value} :
    Acts e s known made t hand → v.Within hand → Store.Writes e v t t' →
    Acts e s known made t' hand

namespace Eval

variable {e : ScopeId} {s t u : Store} {known hand hand' : Set ObjectId} {made made' : List Value}

namespace Acts

/-- A run goes on from where another one came to. -/
lemma trans (h : Acts e s known made t hand) (h' : Acts e t hand made' u hand') :
    Acts e s known (made ++ made') u hand' := by
  induction h' with
  | start => rwa [List.append_nil]
  | look _ hlookup ih => exact ih.look hlookup
  | make _ htable ih =>
    rw [← List.append_assoc]
    exact ih.make htable
  | write _ hv hwrites ih => exact ih.write hv hwrites

/-- What is in hand stays in hand. -/
lemma subset (h : Acts e s known made t hand) : known ⊆ hand := by
  induction h with
  | start => exact subset_rfl
  | look _ _ ih => exact ih.trans Set.subset_union_right
  | make _ _ ih => exact ih.trans (Set.subset_insert _ _)
  | write _ _ _ ih => exact ih

/-- The objects that are made get the numbers that come next. -/
lemma made_eq (h : Acts e s known made t hand) :
    t.objects.next = s.objects.next + made.length ∧
      made = (List.range' s.objects.next made.length).map Value.object := by
  induction h with
  | start => exact ⟨rfl, rfl⟩
  | look _ _ ih => exact ih
  | @make made t hand table _ _ ih =>
    obtain ⟨hnext, hmade⟩ := ih
    constructor
    · change (t.objects.push table).next = _
      rw [Heap.next_push, hnext, List.length_append, List.length_singleton, Nat.add_assoc]
    · rw [List.length_append, List.length_singleton, List.range'_concat, List.map_append, ← hmade,
        Nat.one_mul, hnext]
      rfl
  | write _ _ hwrites ih =>
    rw [hwrites.objects_eq]
    exact ih

/-- Objects that there are stay as they are, and none is made under an old number. -/
lemma get?_eq (h : Acts e s known made t hand) {id : ObjectId} (hid : id < s.objects.next) :
    t.objects.get? id = s.objects.get? id := by
  induction h with
  | start => rfl
  | look _ _ ih => exact ih
  | @make made t hand table hacts _ ih =>
    have hne : id ≠ t.objects.next := by
      rw [hacts.made_eq.1]
      exact (Nat.lt_add_right _ hid).ne
    exact ((Heap.get?_push ..).trans (if_neg hne)).trans ih
  | write _ _ hwrites ih =>
    rw [hwrites.objects_eq]
    exact ih

/-- Names go on standing for objects that exist, and no object comes to contain itself. -/
lemma wellBuilt (h : Acts e s known made t hand) (hs : s.WellBuilt)
    (hknown : known ⊆ s.objects.ids) : t.WellBuilt ∧ hand ⊆ t.objects.ids := by
  induction h with
  | start => exact ⟨hs, hknown⟩
  | look _ hlookup ih =>
    obtain ⟨ht, hhand⟩ := ih
    have hv := (Store.within_bound_of_lookup hlookup).mono ht.bound
    exact ⟨ht, Set.union_subset hv hhand⟩
  | @make made t hand table _ htable ih =>
    obtain ⟨ht, hhand⟩ := ih
    have hids : (t.addObject table).objects.ids = insert t.objects.next t.objects.ids :=
      Objects.ids_push _ _
    rw [hids]
    refine ⟨⟨ht.objects.push (htable.mono hhand), ?_⟩, Set.insert_subset_insert hhand⟩
    rw [hids]
    exact ht.bound.trans (Set.subset_insert _ _)
  | write _ hv hwrites ih =>
    obtain ⟨ht, hhand⟩ := ih
    have hobjects := hwrites.objects_eq
    refine ⟨⟨hobjects ▸ ht.objects, ?_⟩, hobjects ▸ hhand⟩
    rw [hobjects]
    exact (hwrites.bound_subset hv).trans (Set.union_subset ht.bound hhand)

/-- Objects that are not among those in hand, those that names stand for and those still to be made
do not come up: neither in hand, nor in names, nor in new objects. -/
lemma within {ids : Set ObjectId} (h : Acts e s known made t hand) (hknown : known ⊆ ids)
    (hbound : s.bound ⊆ ids) (hnew : ∀ id, s.objects.next ≤ id → id ∈ ids) :
    hand ⊆ ids ∧ t.bound ⊆ ids ∧
      ∀ i j, s.objects.next ≤ i → t.objects.Holds i j → j ∈ ids := by
  induction h with
  | start =>
    refine ⟨hknown, hbound, fun i j hi ⟨key, hmem⟩ => ?_⟩
    rw [Objects.properties, s.objects.get?_of_next_le hi] at hmem
    cases hmem
  | look _ hlookup ih =>
    obtain ⟨hhand, hbound, hholds⟩ := ih
    have hv := (Store.within_bound_of_lookup hlookup).mono hbound
    exact ⟨Set.union_subset hv hhand, hbound, hholds⟩
  | @make made t hand table hacts htable ih =>
    obtain ⟨hhand, hbound, hholds⟩ := ih
    have hle : s.objects.next ≤ t.objects.next := by
      rw [hacts.made_eq.1]
      exact Nat.le_add_right _ _
    refine ⟨Set.insert_subset (hnew _ hle) hhand, hbound, fun i j hi hij => ?_⟩
    rcases Objects.holds_push_iff.1 hij with ⟨-, key, hmem⟩ | ⟨-, hold⟩
    · exact hhand (htable key _ hmem j rfl)
    · exact hholds i j hi hold
  | write _ hv hwrites ih =>
    obtain ⟨hhand, hbound, hholds⟩ := ih
    rw [hwrites.objects_eq]
    exact ⟨hhand, (hwrites.bound_subset hv).trans (Set.union_subset hbound hhand), hholds⟩

end Acts

/-! ## Every run is a series of acts -/

/-- The computation, started with the objects `known` in hand, is a series of acts that make the
objects `made`.  If it goes well, `Q` holds of what it gives and of the objects in hand then. -/
def Does {α : Type} (e : ScopeId) (known : Set ObjectId) (s : Store) (x : Eval α)
    (made : List Value) (Q : Set ObjectId → α → Prop) : Prop :=
  ∃ hand, Acts e s known made (x.outcome s).2 hand ∧ ∀ a, (x.outcome s).1 = .ok a → Q hand a

section Does

variable {α β : Type} {Q : Set ObjectId → α → Prop} {R : Set ObjectId → β → Prop}

/-- Giving a value makes no object. -/
lemma does_pure {a : α} (h : Q known a) : Does e known s (pure a) [] Q := by
  refine ⟨known, .start, fun b hb => ?_⟩
  cases hb
  exact h

/-- Failing makes no object. -/
lemma does_throw (err : RuntimeError) : Does e known s (throw err : Eval α) [] Q :=
  ⟨known, .start, nofun⟩

/-- A look at a name makes no object, and puts the one it stands for in hand. -/
lemma does_lookup (name : String) :
    Does e known s (read fun s => s.lookup e name) [] fun hand v => v.Within hand := by
  cases hlookup : s.lookup e name with
  | error err => exact ⟨known, .start, fun v hv => by cases hlookup.symm.trans hv⟩
  | ok v =>
    refine ⟨_, Acts.start.look hlookup, fun u hu => ?_⟩
    cases hlookup.symm.trans hu
    exact fun id hid => .inl hid

/-- A write makes no object, and writes one that is in hand. -/
lemma does_change {f : Store → Except RuntimeError Store} {v : Value}
    (h : ∀ s t, f s = .ok t → Store.Writes e v s t) (hv : v.Within known) :
    Does e known s (change f) [] fun hand _ => v.Within hand := by
  refine ⟨known, ?_, fun _ _ => hv⟩
  rw [outcome_change]
  cases hf : f s with
  | error err => exact .start
  | ok t => exact Acts.start.write hv (h s t hf)

/-- A new object is made of objects in hand. -/
lemma does_newObject {table : Table Value} (h : table.ValuesWithin known) :
    Does e known s (newObject table) [.object s.objects.next] fun hand v => v.Within hand := by
  refine ⟨insert s.objects.next known, Acts.start.make h, fun v hv => ?_⟩
  cases hv
  rintro id ⟨⟩
  exact Set.mem_insert _ _

/-- A sequence goes on with what its first part has in hand. -/
lemma Does.bind {x : Eval α} {f : α → Eval β} {made : List Value} {g : α → Store → List Value}
    (hx : Does e known s x made Q)
    (hf : ∀ hand a t, known ⊆ hand → Q hand a → Does e hand t (f a) (g a t) R) :
    Does e known s (x >>= f) (made ++ x.after s g) R := by
  obtain ⟨hand, hacts, hQ⟩ := hx
  unfold after
  rw [Does, outcome_bind]
  cases hout : x.outcome s with
  | mk r t =>
    rw [hout] at hacts hQ
    cases r with
    | error err =>
      dsimp only
      rw [List.append_nil]
      exact ⟨hand, hacts, nofun⟩
    | ok a =>
      obtain ⟨hand', hacts', hR⟩ := hf hand a t hacts.subset (hQ a rfl)
      exact ⟨hand', hacts.trans hacts', hR⟩

/-- A sequence whose second part makes no objects. -/
lemma Does.bind_nil {x : Eval α} {f : α → Eval β} {made : List Value} (hx : Does e known s x made Q)
    (hf : ∀ hand a t, known ⊆ hand → Q hand a → Does e hand t (f a) [] R) :
    Does e known s (x >>= f) made R := by
  have h := hx.bind hf
  rwa [after_nil, List.append_nil] at h

/-- A value is computed, then it is written, and it is what the whole gives. -/
lemma Does.bind_change {x : Eval Value} {f : Value → Store → Except RuntimeError Store}
    {made : List Value} (hx : Does e known s x made fun hand v => v.Within hand)
    (hf : ∀ v s t, f v s = .ok t → Store.Writes e v s t) :
    Does e known s (x >>= fun v => do change (f v); pure v) made fun hand v => v.Within hand :=
  hx.bind_nil fun _ v _ _ hv => (does_change (hf v) hv).bind_nil fun _ _ _ _ hv' => does_pure hv'

end Does

end Eval

/-- Operators give no objects. -/
lemma Operator.within_onValues (op : Operator) (x y : Value) (ids : Set ObjectId) :
    (op.onValues x y).Within ids := by
  unfold Operator.onValues
  split <;> nofun

open Eval

mutual

/-- An expression makes the objects of its literals, and gives one in hand. -/
lemma Expr.does (e : ScopeId) (x : Expr) (known : Set ObjectId) (s : Store) :
    Does e known s (x.eval e) (objectsMade e (x.evaluations e s)) fun hand v => v.Within hand := by
  unfold Expr.eval Expr.evaluations
  cases x with
  | number v => exact does_pure nofun
  | null => exact does_pure nofun
  | name n => exact does_lookup n
  | binary op left right =>
    have hright : ∀ (hand : Set ObjectId) (v : Value) (t : Store), Does e hand t
        (do let y ← right.eval e; pure (op.onValues v y)) (objectsMade e (right.evaluations e t))
        fun hand v => v.Within hand := fun hand v t =>
      (right.does e hand t).bind_nil fun _ y _ _ _ => does_pure (op.within_onValues v y _)
    dsimp only
    rw [objectsMade_concat _ _ rfl, objectsMade_append, objectsMade_after]
    exact (left.does e known s).bind fun hand v t _ _ => hright hand v t
  | assign target value =>
    dsimp only
    rw [objectsMade_concat _ _ rfl]
    cases target.name? with
    | none => exact does_throw _
    | some n => exact (value.does e known s).bind_change fun v _ _ => .assign
  | object ps =>
    dsimp only
    rw [objectsMade_append, objectsMade_object]
    exact (evalProperties_does e ps Table.valuesWithin_empty s).bind
      fun _ _ _ _ htable => does_newObject htable
  | dot object property => exact does_throw _
  | index object property => exact does_throw _
  | call callee args => exact does_throw _

/-- Properties make the objects of their literals, and give a table of objects in hand. -/
lemma evalProperties_does (e : ScopeId) (ps : List Property) {table : Table Value}
    {known : Set ObjectId} (htable : table.ValuesWithin known) (s : Store) :
    Does e known s (evalProperties e table ps) (objectsMade e (propertyEvaluations e ps s))
      fun hand table => table.ValuesWithin hand := by
  unfold evalProperties propertyEvaluations
  match ps with
  | [] => exact does_pure htable
  | .shorthand key :: ps =>
    dsimp only
    rw [objectsMade_after, ← List.nil_append (Eval.after ..)]
    exact (does_lookup key).bind fun hand v t hsub hv =>
      evalProperties_does e ps ((htable.mono hsub).insert hv key) t
  | .pair key value :: ps =>
    dsimp only
    rw [objectsMade_append, objectsMade_after]
    exact (value.does e known s).bind fun hand v t hsub hv =>
      evalProperties_does e ps ((htable.mono hsub).insert hv key) t

end

/-- A statement makes the objects of its literals, and gives one in hand. -/
lemma Statement.does (e : ScopeId) (stmt : Statement) (known : Set ObjectId) (s : Store) :
    Does e known s (stmt.eval e) (objectsMade e (stmt.evaluations e s))
      fun hand v => v.Within hand := by
  cases stmt with
  | expr x => exact x.does e known s
  | declaration name constant value =>
    cases value with
    | none => exact (does_pure (a := Value.null) nofun).bind_change fun v _ _ => .declare
    | some x => exact (x.does e known s).bind_change fun v _ _ => .declare

/-- Statements make the objects of their literals, and give one in hand. -/
lemma evalStatements_does (e : ScopeId) (stmts : List Statement) {last : Value}
    {known : Set ObjectId} (hlast : last.Within known) (s : Store) :
    Does e known s (evalStatements e last stmts) (objectsMade e (statementEvaluations e stmts s))
      fun hand v => v.Within hand := by
  induction stmts generalizing last known s with
  | nil => exact does_pure hlast
  | cons stmt stmts ih =>
    rw [statementEvaluations, objectsMade_append, objectsMade_after]
    exact (stmt.does e known s).bind fun hand v t _ hv => ih hv t

/-- Every run is a series of acts that make the objects of its object literals, and what it gives is
in hand then. -/
lemma Phrase.does (e : ScopeId) (p : Phrase) (known : Set ObjectId) (s : Store) :
    Does e known s (p.eval e) (p.made e s) fun hand v => v.Within hand := by
  cases p with
  | program p => exact evalStatements_does e p.body (show Value.null.Within known from nofun) s
  | statement stmt => exact stmt.does e known s
  | expr x => exact x.does e known s

/-! ## Where objects come from -/

/-- The objects that are made are made once each, and those are all that are new. -/
lemma Eval.Acts.count_made {e : ScopeId} {s t : Store} {known hand : Set ObjectId}
    {made : List Value} (h : Eval.Acts e s known made t hand) {id : ObjectId}
    (hid : s.objects.next ≤ id) (hids : id ∈ t.objects.ids) : made.count (.object id) = 1 := by
  obtain ⟨hnext, hmade⟩ := h.made_eq
  have hlt : id < s.objects.next + made.length := hnext ▸ Objects.lt_next_of_mem_ids hids
  rw [hmade]
  refine List.count_eq_one_of_mem ?_ (List.mem_map_of_mem (List.mem_range'_1.2 ⟨hid, hlt⟩))
  exact List.Nodup.map (fun _ _ => Value.object.inj) List.nodup_range'

/-- A run leaves the objects that there are as they are. -/
lemma Phrase.keeps_objects (e : ScopeId) (p : Phrase) (s : Store) :
    s.objects.Grows ((p.eval e).outcome s).2.objects := by
  obtain ⟨hand, hacts, -⟩ := p.does e ∅ s
  intro id table hget
  rw [hacts.get?_eq (Objects.lt_next_of_mem_ids (Objects.mem_ids_iff.2 ⟨table, hget⟩)), hget]

/-- An object that a run gives, leaves in a name or puts into a new object stood under a name
before, or did not exist before and was made once. -/
lemma Phrase.origin {s : Store} (hs : s.WellBuilt) (e : ScopeId) (p : Phrase) {id : ObjectId}
    (h : ((p.eval e).outcome s).1 = .ok (.object id) ∨ id ∈ ((p.eval e).outcome s).2.bound ∨
      ∃ i, i ∉ s.objects.ids ∧ ((p.eval e).outcome s).2.objects.Holds i id) :
    id ∈ s.bound ∨ id ∉ s.objects.ids ∧ (p.made e s).count (.object id) = 1 := by
  obtain ⟨hand, hacts, hresult⟩ := p.does e ∅ s
  obtain ⟨ht, hexists⟩ := hacts.wellBuilt hs (Set.empty_subset _)
  obtain ⟨hhand, hbound, hholds⟩ := hacts.within (Set.empty_subset _)
    (Set.subset_union_left : s.bound ⊆ s.bound ∪ {id | s.objects.next ≤ id}) fun _ => .inr
  have hids : id ∈ ((p.eval e).outcome s).2.objects.ids ∧
      id ∈ s.bound ∪ {id | s.objects.next ≤ id} := by
    rcases h with hok | hname | ⟨i, hi, hij⟩
    · have hid := hresult _ hok id rfl
      exact ⟨hexists hid, hhand hid⟩
    · exact ⟨ht.bound hname, hbound hname⟩
    · have hnext : s.objects.next ≤ i := by
        by_contra hlt
        have hafter := Objects.mem_ids_of_holds hij
        rw [Objects.mem_ids_iff, hacts.get?_eq (Nat.lt_of_not_le hlt)] at hafter
        exact hi (Objects.mem_ids_iff.2 hafter)
      exact ⟨ht.objects.held i id hij, hholds i id hnext hij⟩
  rcases hids.2 with hold | hnew
  · exact .inl hold
  · refine .inr ⟨fun hold => ?_, hacts.count_made hnew hids.1⟩
    exact Nat.not_le_of_lt (Objects.lt_next_of_mem_ids hold) hnew

end Scriptlet
