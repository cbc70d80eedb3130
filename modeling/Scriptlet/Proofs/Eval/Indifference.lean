import Mathlib.Data.List.Find
import Mathlib.Data.List.TakeWhile
import Scriptlet.Proofs.Eval.Congruence
import Scriptlet.Proofs.Store.Scopes

/-!
# Whether a program fails does not depend on values

A program goes wrong because of names: one that is not bound, or bound already, or a constant, or
an expression that has no value at all.  It never goes wrong because of the values that names have.
So a program that is run in two stores in which the scopes in reach bind the same names and hold the
same names constant goes well in both or goes wrong in both, with the same error; and then the
scopes in reach again have the same names.

`Store.SameNames` relates the two stores.  The scopes of the one need not have the numbers of those
of the other; they correspond to each other by their places on the path.
-/

namespace Scriptlet

namespace Store

/-! ## Scopes in reach -/

/-- The scopes in reach are open. -/
lemma isOpen_of_mem_reach {s : Store} {e i : ScopeId} (h : i ∈ s.reach e) : s.isOpen i :=
  List.mem_takeWhile_imp h

/-- An open scope is in reach of itself. -/
lemma mem_reach_self {s : Store} {e : ScopeId} (h : s.isOpen e) : e ∈ s.reach e := by
  rw [reach, List.takeWhile_cons_of_pos h]
  exact List.mem_cons_self

/-- What is in reach depends on paths and on open scopes only. -/
lemma reach_congr {s t : Store} (hopen : ∀ i, t.isOpen i = s.isOpen i)
    (hpath : ∀ i, t.enclosing i = s.enclosing i) (e : ScopeId) : t.reach e = s.reach e := by
  rw [reach, reach, hpath, funext hopen]

/-- Binding a name does not change which scopes are in reach. -/
@[simp] lemma reach_setValue (s : Store) (i : ScopeId) (name : String) (v : Value) (e : ScopeId) :
    (s.setValue i name v).reach e = s.reach e :=
  reach_congr (fun _ => isOpen_setValue ..) (fun _ => enclosing_setValue ..) e

/-- Holding a name constant does not change which scopes are in reach. -/
@[simp] lemma reach_holdConstant (s : Store) (i : ScopeId) (name : String) (e : ScopeId) :
    (s.holdConstant i name).reach e = s.reach e :=
  reach_congr (fun _ => isOpen_holdConstant ..) (fun _ => enclosing_holdConstant ..) e

/-! ## The same names -/

/-- What can be seen from the scope `e` in the store `s` has the same names as what can be seen from
the scope `f` in the store `t`; `ρ` takes a scope in reach of `e` to the one in the same place in
reach of `f`. -/
structure SameNames (ρ : ScopeId → ScopeId) (e f : ScopeId) (s t : Store) : Prop where
  /-- The scopes in reach correspond to each other. -/
  reach : t.reach f = (s.reach e).map ρ
  /-- Different scopes correspond to different scopes. -/
  injective : ∀ i ∈ s.reach e, ∀ j ∈ s.reach e, ρ i = ρ j → i = j
  /-- They bind the same names. -/
  binds : ∀ i ∈ s.reach e, ∀ name, t.bindsLocally (ρ i) name = s.bindsLocally i name
  /-- They hold the same names constant. -/
  constant : ∀ i ∈ s.reach e, ∀ name, t.holdsConstant (ρ i) name = s.holdsConstant i name

/-- A store has the same names as itself. -/
lemma SameNames.refl (e : ScopeId) (s : Store) : SameNames id e e s s where
  reach := (List.map_id _).symm
  injective _ _ _ _ h := h
  binds _ _ _ := rfl
  constant _ _ _ := rfl

/-- From closed scopes nothing can be seen. -/
lemma sameNames_of_closed {ρ : ScopeId → ScopeId} {e f : ScopeId} {s t : Store}
    (he : ¬ s.isOpen e) (hf : ¬ t.isOpen f) : SameNames ρ e f s t := by
  have hs : s.reach e = [] := List.takeWhile_cons_of_neg he
  have ht : t.reach f = [] := List.takeWhile_cons_of_neg hf
  refine ⟨by rw [hs, ht, List.map_nil], ?_, ?_, ?_⟩
  · simp [hs]
  · simp [hs]
  · simp [hs]

namespace SameNames

variable {ρ : ScopeId → ScopeId} {e f : ScopeId} {s t : Store}

/-- The two scopes are both closed, or both open, and then they correspond to each other. -/
lemma closed_or_open (h : SameNames ρ e f s t) :
    (¬ s.isOpen e ∧ ¬ t.isOpen f) ∨ (e ∈ s.reach e ∧ f = ρ e) := by
  have hreach := h.reach
  by_cases he : s.isOpen e
  · refine .inr ⟨mem_reach_self he, ?_⟩
    rw [Store.reach, Store.reach, List.takeWhile_cons_of_pos he, List.map_cons] at hreach
    by_cases hf : t.isOpen f
    · rw [List.takeWhile_cons_of_pos hf] at hreach
      exact (List.cons.inj hreach).1
    · rw [List.takeWhile_cons_of_neg hf] at hreach
      cases hreach
  · refine .inl ⟨he, fun hf => ?_⟩
    rw [Store.reach, Store.reach, List.takeWhile_cons_of_neg he, List.takeWhile_cons_of_pos hf]
      at hreach
    cases hreach

/-- A name is found in corresponding scopes. -/
lemma resolve?_eq (h : SameNames ρ e f s t) (name : String) :
    t.resolve? f name = (s.resolve? e name).map ρ := by
  have hfind : (s.reach e).find? (fun i => t.bindsLocally (ρ i) name) =
      (s.reach e).find? fun i => s.bindsLocally i name :=
    List.find?_congr fun i hi => h.binds i hi name
  rw [resolve?, resolve?, h.reach, List.find?_map]
  exact congrArg (Option.map ρ) hfind

/-- What corresponds to a scope in reach is open, too. -/
lemma isOpen (h : SameNames ρ e f s t) {i : ScopeId} (hi : i ∈ s.reach e) : t.isOpen (ρ i) := by
  refine isOpen_of_mem_reach (e := f) ?_
  rw [h.reach]
  exact List.mem_map_of_mem hi

/-- The same scope and the same name are meant on both sides. -/
lemma place_iff (h : SameNames ρ e f s t) {i j : ScopeId} (hi : i ∈ s.reach e)
    (hj : j ∈ s.reach e) (n name : String) :
    (ρ j = ρ i ∧ n = name ∧ t.isOpen (ρ i)) ↔ (j = i ∧ n = name ∧ s.isOpen i) := by
  have hs := isOpen_of_mem_reach hi
  have ht := h.isOpen hi
  constructor
  · rintro ⟨hij, hn, -⟩
    exact ⟨h.injective j hj i hi hij, hn, hs⟩
  · rintro ⟨rfl, hn, -⟩
    exact ⟨rfl, hn, ht⟩

/-- The same name may get any two values in corresponding scopes. -/
lemma setValue (h : SameNames ρ e f s t) {i : ScopeId} (hi : i ∈ s.reach e) (name : String)
    (v u : Value) : SameNames ρ e f (s.setValue i name v) (t.setValue (ρ i) name u) where
  reach := by rw [reach_setValue, reach_setValue, h.reach]
  injective := by
    rw [reach_setValue]
    exact h.injective
  binds j hj n := by
    rw [reach_setValue] at hj
    rw [bindsLocally_setValue, bindsLocally_setValue, h.binds j hj n,
      decide_eq_decide.2 (h.place_iff hi hj n name)]
  constant j hj n := by
    rw [reach_setValue] at hj
    rw [holdsConstant_setValue, holdsConstant_setValue, h.constant j hj n]

/-- The same name may become a constant in corresponding scopes. -/
lemma holdConstant (h : SameNames ρ e f s t) {i : ScopeId} (hi : i ∈ s.reach e) (name : String) :
    SameNames ρ e f (s.holdConstant i name) (t.holdConstant (ρ i) name) where
  reach := by rw [reach_holdConstant, reach_holdConstant, h.reach]
  injective := by
    rw [reach_holdConstant]
    exact h.injective
  binds j hj n := by
    rw [reach_holdConstant] at hj
    rw [bindsLocally_holdConstant, bindsLocally_holdConstant, h.binds j hj n]
  constant j hj n := by
    rw [reach_holdConstant] at hj
    rw [holdsConstant_holdConstant, holdsConstant_holdConstant, h.constant j hj n,
      decide_eq_decide.2 (h.place_iff hi hj n name)]

end SameNames

end Store

/-! ## The same fate -/

open Store

/-- Two runs go the same way: both give something, or both go wrong with the same error. -/
inductive SameFate {ε α : Type} : Except ε α → Except ε α → Prop where
  /-- Both go well. -/
  | ok (a b : α) : SameFate (.ok a) (.ok b)
  /-- Both go wrong. -/
  | error (err : ε) : SameFate (.error err) (.error err)

namespace Eval

variable {α β : Type} {ρ : ScopeId → ScopeId} {e f : ScopeId}

/-- Two computations have the same fate in stores with the same names, and leave such stores. -/
def Alike (ρ : ScopeId → ScopeId) (e f : ScopeId) (x y : Eval α) : Prop :=
  ∀ s t, SameNames ρ e f s t →
    SameFate (x.outcome s).1 (y.outcome t).1 ∧
      SameNames ρ e f (x.outcome s).2 (y.outcome t).2

/-- Sequences are alike if their parts are, whatever values the first parts give. -/
lemma Alike.bind {x y : Eval α} {g h : α → Eval β} (hxy : Alike ρ e f x y)
    (hgh : ∀ a b, Alike ρ e f (g a) (h b)) : Alike ρ e f (x >>= g) (y >>= h) := by
  intro s t hst
  obtain ⟨hfate, hnames⟩ := hxy s t hst
  rw [outcome_bind, outcome_bind]
  cases hx : x.outcome s with
  | mk r s' =>
    cases hy : y.outcome t with
    | mk r' t' =>
      rw [hx, hy] at hfate hnames
      cases hfate with
      | ok a b => exact hgh a b s' t' hnames
      | error err => exact ⟨.error err, hnames⟩

/-- Changes are alike if both are made, to stores with the same names, or both go wrong. -/
lemma alike_change {c d : Store → Except RuntimeError Store}
    (h : ∀ s t, SameNames ρ e f s t →
      (∃ s' t', c s = .ok s' ∧ d t = .ok t' ∧ SameNames ρ e f s' t') ∨
      ∃ err, c s = .error err ∧ d t = .error err) : Alike ρ e f (change c) (change d) := by
  intro s t hst
  rw [outcome_change, outcome_change]
  rcases h s t hst with ⟨s', t', hc, hd, hnames⟩ | ⟨err, hc, hd⟩
  · rw [hc, hd]
    exact ⟨.ok () (), hnames⟩
  · rw [hc, hd]
    exact ⟨.error err, hst⟩

/-- Looking a name up goes well in both stores or in neither. -/
lemma alike_lookup (name : String) :
    Alike ρ e f (read fun s => s.lookup e name) (read fun s => s.lookup f name) := by
  intro s t hst
  refine ⟨?_, hst⟩
  rw [outcome_read, outcome_read, lookup, lookup, hst.resolve?_eq name]
  cases hresolve : s.resolve? e name with
  | none => exact .error _
  | some owner =>
    -- Both owners bind the name, so that both values exist.
    obtain ⟨v, hv⟩ := Option.isSome_iff_exists.1 (bindsLocally_of_resolve? hresolve)
    have howner : t.resolve? f name = some (ρ owner) := by rw [hst.resolve?_eq, hresolve]; rfl
    obtain ⟨u, hu⟩ := Option.isSome_iff_exists.1 (bindsLocally_of_resolve? howner)
    rw [Option.map_some, Option.bind_some, Option.bind_some, hv, hu]
    exact .ok v u

/-- Assignments to the same name are alike, whatever the values. -/
lemma alike_assign (name : String) (v u : Value) :
    Alike ρ e f (change fun s => s.assign e name v) (change fun s => s.assign f name u) := by
  refine alike_change fun s t hst => ?_
  rw [assign, assign, hst.resolve?_eq name]
  cases hresolve : s.resolve? e name with
  | none => exact .inr ⟨_, rfl, rfl⟩
  | some owner =>
    have howner : owner ∈ s.reach e := List.mem_of_find?_eq_some hresolve
    rw [Option.map_some]
    dsimp only
    rw [hst.constant owner howner name]
    by_cases hconst : s.holdsConstant owner name
    · rw [if_pos hconst, if_pos hconst]
      exact .inr ⟨_, rfl, rfl⟩
    · rw [if_neg hconst, if_neg hconst]
      exact .inl ⟨_, _, rfl, rfl, hst.setValue howner name v u⟩

/-- Declarations of the same name are alike, whatever the values. -/
lemma alike_declare (name : String) (v u : Value) (constant : Bool) :
    Alike ρ e f (change fun s => s.declare e name v constant)
      (change fun s => s.declare f name u constant) := by
  refine alike_change fun s t hst => ?_
  rw [declare, declare]
  rcases hst.closed_or_open with ⟨he, hf⟩ | ⟨he, rfl⟩
  · -- A closed scope binds nothing, and nothing can be bound there.
    rw [if_neg fun h => he (isOpen_of_bindsLocally h),
      if_neg fun h => hf (isOpen_of_bindsLocally h)]
    refine .inl ⟨_, _, rfl, rfl, sameNames_of_closed ?_ ?_⟩
    · cases constant <;> simpa using he
    · cases constant <;> simpa using hf
  · rw [hst.binds e he name]
    by_cases hbound : s.bindsLocally e name
    · rw [if_pos hbound, if_pos hbound]
      exact .inr ⟨_, rfl, rfl⟩
    · rw [if_neg hbound, if_neg hbound]
      refine .inl ⟨_, _, rfl, rfl, ?_⟩
      cases constant with
      | false => exact hst.setValue he name v u
      | true =>
        refine (hst.holdConstant he name).setValue ?_ name v u
        rwa [reach_holdConstant]

/-- New objects are alike, whatever their properties. -/
lemma alike_newObject (properties properties' : Table Value) :
    Alike ρ e f (newObject properties) (newObject properties') := by
  intro s t hst
  exact ⟨.ok _ _, ⟨hst.reach, hst.injective, hst.binds, hst.constant⟩⟩

/-- All steps of programs are alike in two such scopes. -/
lemma congruent_alike (ρ : ScopeId → ScopeId) (e f : ScopeId) : Congruent (Alike ρ e f) e f where
  pure a b _ _ hst := ⟨.ok a b, hst⟩
  throw err _ _ hst := ⟨.error err, hst⟩
  lookup := alike_lookup
  assign := alike_assign
  declare := alike_declare
  newObject := alike_newObject
  bind := Alike.bind

end Eval

/-- A program that is run in two stores with the same names goes well in both, or goes wrong in both
with the same error, whatever the values of the names are; and the stores that are left have the
same names again. -/
theorem eval_fate_of_sameNames (p : Program) (ρ : ScopeId → ScopeId) (e f : ScopeId) (s t : Store)
    (h : SameNames ρ e f s t) :
    SameFate ((p.eval e).outcome s).1 ((p.eval f).outcome t).1 ∧
      SameNames ρ e f ((p.eval e).outcome s).2 ((p.eval f).outcome t).2 :=
  (Eval.congruent_alike ρ e f).program p s t h

/-- The program `y = x + x; z = y` goes wrong in its second statement, whether the name `x` of the
outer scope stands for a truth value or for an object. -/
theorem eval_fate_of_truth_or_object :
    let p : Program := ⟨[.expr (.assign (.name "y") (.binary .add (.name "x") (.name "x"))),
      .expr (.assign (.name "z") (.name "y"))]⟩
    let s := ((empty.openRoot.openChild 0).setValue 1 "y" .null).setValue 0 "x" (.bool true)
    let t := ((empty.openRoot.openChild 0).setValue 1 "y" (.bool false)).setValue 0 "x" (.object 3)
    SameNames id 1 1 s t ∧ ((p.eval 1).outcome s).1 = .error (.unbound "z") ∧
      SameFate ((p.eval 1).outcome s).1 ((p.eval 1).outcome t).1 ∧
      SameNames id 1 1 ((p.eval 1).outcome s).2 ((p.eval 1).outcome t).2 := by
  intro p s t
  have hinner : 1 ∈ (empty.openRoot.openChild 0).reach 1 := by decide
  have houter : 0 ∈ (empty.openRoot.openChild 0).reach 1 := by decide
  have hnames : SameNames id 1 1 s t := by
    refine ((SameNames.refl 1 _).setValue hinner "y" .null (.bool false)).setValue ?_ "x" _ _
    rwa [reach_setValue]
  exact ⟨hnames, rfl, eval_fate_of_sameNames p id 1 1 s t hnames⟩

end Scriptlet
