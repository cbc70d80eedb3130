import Mathlib.Logic.Relation
import Mathlib.Order.WellFounded
import Scriptlet.Store

/-!
# What scopes keep

The scopes of a store are numbered in the order in which they were opened, and the path around a
scope was complete when it was opened.  So all links lead to smaller numbers, and the path of a
scope is the scope right around it with the path of that scope behind it, as long as it is open.
These facts, and the fact that what a scope holds constant is bound in it, make up
`Store.WellScoped`.

`Store.Keeps` compares a store with what became of it: a scope that is still open binds all names
that it bound, holds the same of them constant, and these have the same values.

A computation does three things to a store (`Store.Effect`): it declares a name, it assigns to a
name, and it changes objects.  None of them opens or closes a scope.  All three, and opening and
closing scopes, keep a store well scoped and keep what it binds.
-/

namespace Scriptlet

namespace Store

open Relation

/-! ## Links between scopes -/

/-- What holds of the scopes of a store at any time. -/
structure WellScoped (s : Store) : Prop where
  /-- A scope binds what it holds constant. -/
  constant_bound : ∀ e name, s.holdsConstant e name → s.bindsLocally e name
  /-- The scopes around a scope were opened before it. -/
  enclosing_lt : ∀ e, ∀ p ∈ s.enclosing e, p < e
  /-- The path behind the scope right around a scope is the path of that scope. -/
  enclosing_tail : ∀ e p path, s.enclosing e = p :: path → s.isOpen p → s.enclosing p = path

/-- A store without scopes is well scoped. -/
lemma wellScoped_empty : empty.WellScoped where
  constant_bound _ _ h := by cases h
  enclosing_lt _ _ h := by cases h
  enclosing_tail _ _ _ h := by cases h

/-- A store is well scoped if its scopes have the paths that they have in a well scoped store. -/
lemma WellScoped.of_enclosing {s t : Store} (h : s.WellScoped)
    (hopen : ∀ e, t.isOpen e → s.isOpen e) (hpath : ∀ e, t.isOpen e → t.enclosing e = s.enclosing e)
    (hbound : ∀ e name, t.holdsConstant e name → t.bindsLocally e name) : t.WellScoped where
  constant_bound := hbound
  enclosing_lt e p hp := by
    by_cases he : t.isOpen e
    · rw [hpath e he] at hp
      exact h.enclosing_lt e p hp
    · rw [enclosing_of_not_isOpen he] at hp
      cases hp
  enclosing_tail e p path hp hopen' := by
    by_cases he : t.isOpen e
    · rw [hpath e he] at hp
      rw [hpath p hopen']
      exact h.enclosing_tail e p path hp (hopen p hopen')
    · rw [enclosing_of_not_isOpen he] at hp
      cases hp

/-- The scope that is found for a name binds it. -/
lemma bindsLocally_of_resolve? {s : Store} {e owner : ScopeId} {name : String}
    (h : s.resolve? e name = some owner) : s.bindsLocally owner name :=
  List.find?_some (p := fun i => s.bindsLocally i name) h

/-- Whoever follows the links from scope to scope comes to an end. -/
lemma WellScoped.wellFounded_enclosing {s : Store} (h : s.WellScoped) :
    WellFounded fun p e => (s.enclosing e).head? = some p := by
  refine Subrelation.wf (fun {p e} hp => ?_)
    (wellFounded_lt : WellFounded (· < · : Nat → Nat → Prop))
  exact h.enclosing_lt e p (List.mem_of_head? hp)

/-- What is in reach of a scope is the scope, and what is in reach of the scope right around it. -/
lemma WellScoped.reach_eq {s : Store} (h : s.WellScoped) {e : ScopeId} (he : s.isOpen e) :
    s.reach e = e :: ((s.parent? e).map s.reach).getD [] := by
  unfold reach parent?
  rw [List.takeWhile_cons_of_pos he]
  cases hpath : s.enclosing e with
  | nil => rfl
  | cons p path =>
    by_cases hp : s.isOpen p
    · rw [List.head?_cons, Option.filter_some, if_pos hp, Option.map_some, Option.getD_some,
        h.enclosing_tail e p path hpath hp]
    · rw [List.head?_cons, Option.filter_some, if_neg hp, List.takeWhile_cons_of_neg hp]
      rfl

/-- A name is looked for in the scope itself, and then from the scope right around it. -/
lemma WellScoped.resolve?_eq {s : Store} (h : s.WellScoped) {e : ScopeId} (he : s.isOpen e)
    (name : String) :
    s.resolve? e name =
      if s.bindsLocally e name then some e else (s.parent? e).bind fun p => s.resolve? p name := by
  unfold resolve?
  rw [h.reach_eq he]
  by_cases hname : s.bindsLocally e name
  · rw [if_pos hname, List.find?_cons, hname]
  · rw [if_neg hname, List.find?_cons, Bool.eq_false_of_not_eq_true hname]
    cases s.parent? e <;> rfl

/-! ## Keeping bindings -/

/-- What a store keeps of an earlier one. -/
structure Keeps (s t : Store) : Prop where
  /-- Numbers of scopes are not used again. -/
  nextScope_le : s.nextScope ≤ t.nextScope
  /-- A closed scope stays closed. -/
  isOpen : ∀ e, e < s.nextScope → t.isOpen e → s.isOpen e
  /-- A name that is bound in a scope stays bound there. -/
  binds : ∀ e name, t.isOpen e → s.bindsLocally e name → t.bindsLocally e name
  /-- A bound name stays a constant, and no other becomes one. -/
  constant : ∀ e name, t.isOpen e → s.bindsLocally e name →
    t.holdsConstant e name = s.holdsConstant e name
  /-- A constant keeps its value. -/
  value : ∀ e name, t.isOpen e → s.bindsLocally e name → s.holdsConstant e name →
    t.localValue? e name = s.localValue? e name

/-- Objects do not matter. -/
lemma keeps_objects (s : Store) (objects : Objects) : s.Keeps { s with objects := objects } where
  nextScope_le := Nat.le_refl _
  isOpen _ _ h := h
  binds _ _ _ h := h
  constant _ _ _ _ := rfl
  value _ _ _ _ _ := rfl

/-- A store keeps what it has itself. -/
lemma Keeps.refl (s : Store) : s.Keeps s := keeps_objects s s.objects

/-- What is kept twice is kept, because a scope that is open at last was open in between. -/
lemma Keeps.trans {s t u : Store} (hst : s.Keeps t) (htu : t.Keeps u) : s.Keeps u := by
  have hmid : ∀ e, e < s.nextScope → u.isOpen e → t.isOpen e := fun e he =>
    htu.isOpen e (he.trans_le hst.nextScope_le)
  have hbound : ∀ {e name}, s.bindsLocally e name → e < s.nextScope := fun h =>
    lt_nextScope_of_isOpen (isOpen_of_bindsLocally h)
  refine ⟨hst.nextScope_le.trans htu.nextScope_le, fun e he hopen => ?_, fun e name hopen h => ?_,
    fun e name hopen h => ?_, fun e name hopen h hconst => ?_⟩
  · exact hst.isOpen e he (hmid e he hopen)
  · exact htu.binds e name hopen (hst.binds e name (hmid e (hbound h) hopen) h)
  · have hopen' := hmid e (hbound h) hopen
    rw [htu.constant e name hopen (hst.binds e name hopen' h), hst.constant e name hopen' h]
  · have hopen' := hmid e (hbound h) hopen
    have hconst' : t.holdsConstant e name := by
      rw [hst.constant e name hopen' h]
      exact hconst
    rw [htu.value e name hopen (hst.binds e name hopen' h) hconst',
      hst.value e name hopen' h hconst]

/-- A value that is set keeps all bindings, unless it is that of a constant. -/
lemma keeps_setValue {s : Store} {e : ScopeId} {name : String} (v : Value)
    (h : s.bindsLocally e name → s.holdsConstant e name = false) :
    s.Keeps (s.setValue e name v) where
  nextScope_le := (nextScope_setValue ..).ge
  isOpen i _ hopen := by rwa [isOpen_setValue] at hopen
  binds i n _ hbound := by rw [bindsLocally_setValue, hbound, Bool.or_true]
  constant i n _ _ := holdsConstant_setValue ..
  value i n _ hbound hconst := by
    rw [localValue?_setValue, if_neg]
    rintro ⟨rfl, rfl, -⟩
    rw [h hbound] at hconst
    cases hconst

/-- A name that is not bound yet can become a constant. -/
lemma keeps_holdConstant {s : Store} {e : ScopeId} {name : String}
    (h : s.bindsLocally e name = false) : s.Keeps (s.holdConstant e name) where
  nextScope_le := (nextScope_holdConstant ..).ge
  isOpen i _ hopen := by rwa [isOpen_holdConstant] at hopen
  binds i n _ hbound := by rwa [bindsLocally_holdConstant]
  constant i n _ hbound := by
    rw [holdsConstant_holdConstant, decide_eq_false, Bool.false_or]
    rintro ⟨rfl, rfl, -⟩
    rw [h] at hbound
    cases hbound
  value i n _ _ _ := localValue?_holdConstant ..

/-! ## Opening and closing -/

/-- Opening a scope keeps all others. -/
lemma keeps_openScope (s : Store) (scope : Scope) : s.Keeps (s.openScope scope) := by
  have hne : ∀ {e name}, s.bindsLocally e name → e ≠ s.nextScope := fun h =>
    (lt_nextScope_of_isOpen (isOpen_of_bindsLocally h)).ne
  refine ⟨?_, fun e he hopen => ?_, fun e name _ h => ?_, fun e name _ h => ?_,
    fun e name _ h _ => ?_⟩
  · rw [nextScope_openScope]
    exact Nat.le_succ _
  · rwa [isOpen_openScope, decide_eq_false he.ne, Bool.false_or] at hopen
  · rwa [bindsLocally, localValue?_openScope, if_neg (hne h)]
  · rw [holdsConstant_openScope, if_neg (hne h)]
  · rw [localValue?_openScope, if_neg (hne h)]

/-- A new scope must bind what it holds constant, and its path must be that of an open scope, or
empty. -/
lemma WellScoped.openScope {s : Store} (h : s.WellScoped) {scope : Scope}
    (hbound : ∀ name ∈ scope.constants, (scope.bindings.get? name).isSome)
    (hpath : ∀ p path, scope.enclosing = p :: path → s.isOpen p ∧ s.enclosing p = path) :
    (s.openScope scope).WellScoped where
  constant_bound e name hconst := by
    rw [holdsConstant_openScope] at hconst
    rw [bindsLocally, localValue?_openScope]
    by_cases he : e = s.nextScope
    · rw [if_pos he] at hconst ⊢
      exact hbound name (List.contains_iff_mem.1 hconst)
    · rw [if_neg he] at hconst ⊢
      exact h.constant_bound e name hconst
  enclosing_lt e p hp := by
    rw [enclosing_openScope] at hp
    by_cases he : e = s.nextScope
    · rw [if_pos he] at hp
      obtain ⟨q, path, hq⟩ := List.exists_cons_of_ne_nil (List.ne_nil_of_mem hp)
      obtain ⟨hopen, htail⟩ := hpath q path hq
      have hlt : q < e := he ▸ lt_nextScope_of_isOpen hopen
      rw [hq] at hp
      rcases List.mem_cons.1 hp with rfl | hp
      · exact hlt
      · exact (h.enclosing_lt q p (htail ▸ hp)).trans hlt
    · rw [if_neg he] at hp
      exact h.enclosing_lt e p hp
  enclosing_tail e p path hp hopen := by
    -- The scope right around a scope is an old one, in both cases.
    have hold : s.isOpen p ∧ s.enclosing p = path := by
      rw [enclosing_openScope] at hp
      by_cases he : e = s.nextScope
      · rw [if_pos he] at hp
        exact hpath p path hp
      · rw [if_neg he] at hp
        have hlt : p < e := h.enclosing_lt e p (hp ▸ List.mem_cons_self)
        have hopen' : s.isOpen e := by
          by_contra hclosed
          rw [enclosing_of_not_isOpen hclosed] at hp
          cases hp
        have hne : p ≠ s.nextScope := (hlt.trans (lt_nextScope_of_isOpen hopen')).ne
        rw [isOpen_openScope, decide_eq_false hne, Bool.false_or] at hopen
        exact ⟨hopen, h.enclosing_tail e p path hp hopen⟩
    rw [enclosing_openScope, if_neg (lt_nextScope_of_isOpen hold.1).ne]
    exact hold.2

/-- The scope that was just opened is open. -/
lemma isOpen_openScope_nextScope (s : Store) (scope : Scope) :
    (s.openScope scope).isOpen s.nextScope := by
  rw [isOpen_openScope, decide_eq_true rfl, Bool.true_or]

/-- Opening a global scope keeps the store well scoped: the scope binds its constants. -/
lemma WellScoped.openGlobal {s : Store} (h : s.WellScoped) : s.openGlobal.WellScoped := by
  have hbound : ∀ name ∈ globals.map Prod.fst, ((Table.ofList globals).get? name).isSome := by
    decide
  exact h.openScope hbound (by simp)

/-- A global scope starts with its constants. -/
lemma openGlobal_of_mem (s : Store) {name : String} {v : Value} (h : (name, v) ∈ globals) :
    s.openGlobal.localValue? s.nextScope name = some v ∧
      s.openGlobal.holdsConstant s.nextScope name := by
  have hvalue : ∀ b ∈ globals, (Table.ofList globals).get? b.1 = some b.2 := by
    decide
  rw [Store.openGlobal, localValue?_openScope, holdsConstant_openScope, if_pos rfl, if_pos rfl]
  exact ⟨hvalue _ h, List.contains_iff_mem.2 (List.mem_map_of_mem h)⟩

/-- A name that a scope binds itself is found there. -/
lemma resolve?_of_bindsLocally {s : Store} {e : ScopeId} {name : String}
    (h : s.bindsLocally e name) : s.resolve? e name = some e := by
  rw [resolve?, reach, List.takeWhile_cons_of_pos (isOpen_of_bindsLocally h)]
  exact List.find?_cons_of_pos h

/-- A name that a scope binds itself has that value in it. -/
lemma lookup_of_localValue? {s : Store} {e : ScopeId} {name : String} {v : Value}
    (h : s.localValue? e name = some v) : s.lookup e name = .ok v := by
  have hbinds : s.bindsLocally e name = true := by
    rw [bindsLocally, h, Option.isSome_some]
  rw [lookup, resolve?_of_bindsLocally hbinds, Option.bind_some, h]

/-- Closing a scope keeps what the others bind. -/
lemma keeps_closeScope (s : Store) (e : ScopeId) : s.Keeps (s.closeScope e) where
  nextScope_le := (nextScope_closeScope ..).ge
  isOpen i _ hopen := ((isOpen_closeScope_iff ..).1 hopen).2
  binds i n hopen hbound := by
    rwa [bindsLocally, localValue?_closeScope_of_ne _ _ _ _ ((isOpen_closeScope_iff ..).1 hopen).1]
  constant i n hopen _ :=
    holdsConstant_closeScope_of_ne _ _ _ _ ((isOpen_closeScope_iff ..).1 hopen).1
  value i n hopen _ _ := localValue?_closeScope_of_ne _ _ _ _ ((isOpen_closeScope_iff ..).1 hopen).1

/-- Closing a scope keeps the store well scoped. -/
lemma WellScoped.closeScope {s : Store} (h : s.WellScoped) (e : ScopeId) :
    (s.closeScope e).WellScoped := by
  refine h.of_enclosing (fun i hi => ((isOpen_closeScope_iff ..).1 hi).2)
    (fun i hi => enclosing_closeScope_of_ne _ _ _ ((isOpen_closeScope_iff ..).1 hi).1)
    fun i name hconst => ?_
  have hi : i ≠ e := ((isOpen_closeScope_iff ..).1 (isOpen_of_holdsConstant hconst)).1
  rw [holdsConstant_closeScope_of_ne _ _ _ _ hi] at hconst
  rw [bindsLocally, localValue?_closeScope_of_ne _ _ _ _ hi]
  exact h.constant_bound i name hconst

/-! ## Effects of computations -/

/-- What a computation in the scope `e` can do to a store at once. -/
inductive Effect (e : ScopeId) : Store → Store → Prop where
  /-- It declares a name. -/
  | declare {s t : Store} {name : String} {v : Value} {constant : Bool} :
    s.declare e name v constant = .ok t → Effect e s t
  /-- It assigns to a name. -/
  | assign {s t : Store} {name : String} {v : Value} : s.assign e name v = .ok t → Effect e s t
  /-- It makes and changes objects. -/
  | objects (s : Store) (objects : Objects) : Effect e s { s with objects := objects }

/-- The value `v` is given to a name, as seen from the scope `e`. -/
inductive Writes (e : ScopeId) (v : Value) : Store → Store → Prop where
  /-- It is declared with the value. -/
  | declare {s t : Store} {name : String} {constant : Bool} :
    s.declare e name v constant = .ok t → Writes e v s t
  /-- The value is assigned to it. -/
  | assign {s t : Store} {name : String} : s.assign e name v = .ok t → Writes e v s t

/-- Giving a value to a name is one of the effects of computations. -/
lemma Writes.effect {e : ScopeId} {v : Value} {s t : Store} (h : Writes e v s t) :
    Effect e s t := by
  cases h with
  | declare h => exact .declare h
  | assign h => exact .assign h

/-- A declaration goes well when the scope itself does not bind the name yet. -/
lemma declare_eq_ok_iff {s t : Store} {e : ScopeId} {name : String} {v : Value} {constant : Bool} :
    s.declare e name v constant = .ok t ↔ s.bindsLocally e name = false ∧
      t = (if constant then s.holdConstant e name else s).setValue e name v := by
  unfold declare
  cases s.bindsLocally e name <;> simp [eq_comm]

/-- An assignment goes well when a scope binds the name and does not hold it constant. -/
lemma assign_eq_ok_iff {s t : Store} {e : ScopeId} {name : String} {v : Value} :
    s.assign e name v = .ok t ↔ ∃ owner, s.resolve? e name = some owner ∧
      s.holdsConstant owner name = false ∧ t = s.setValue owner name v := by
  unfold assign
  cases hresolve : s.resolve? e name with
  | none => simp
  | some owner =>
    by_cases hconst : s.holdsConstant owner name
    · simp [hconst]
    · simp [hconst, eq_comm (a := t)]

/-- An effect sets a value that is not that of a constant, or that of a new constant, or changes
objects only. -/
lemma Effect.cases {e : ScopeId} {s t : Store} (h : Effect e s t) :
    (∃ i name v, (s.bindsLocally i name → s.holdsConstant i name = false) ∧
      t = s.setValue i name v) ∨
    (∃ name v, s.bindsLocally e name = false ∧ t = (s.holdConstant e name).setValue e name v) ∨
    ∃ objects, t = { s with objects := objects } := by
  cases h with
  | @declare _ name v constant h =>
    obtain ⟨hfree, rfl⟩ := declare_eq_ok_iff.1 h
    cases constant with
    | true => exact .inr (.inl ⟨name, v, hfree, rfl⟩)
    | false =>
      refine .inl ⟨e, name, v, fun hbound => ?_, rfl⟩
      rw [hfree] at hbound
      cases hbound
  | @assign _ name v h =>
    obtain ⟨owner, -, hconst, rfl⟩ := assign_eq_ok_iff.1 h
    exact .inl ⟨owner, name, v, fun _ => hconst, rfl⟩
  | objects objects => exact .inr (.inr ⟨objects, rfl⟩)

/-- No effect opens or closes a scope. -/
lemma Effect.isOpen_eq {e : ScopeId} {s t : Store} (h : Effect e s t) (i : ScopeId) :
    t.isOpen i = s.isOpen i := by
  obtain ⟨j, name, v, -, rfl⟩ | ⟨name, v, -, rfl⟩ | ⟨objects, rfl⟩ := h.cases
  · exact isOpen_setValue ..
  · rw [isOpen_setValue, isOpen_holdConstant]
  · rfl

/-- No effect changes what lies around a scope. -/
lemma Effect.enclosing_eq {e : ScopeId} {s t : Store} (h : Effect e s t) (i : ScopeId) :
    t.enclosing i = s.enclosing i := by
  obtain ⟨j, name, v, -, rfl⟩ | ⟨name, v, -, rfl⟩ | ⟨objects, rfl⟩ := h.cases
  · exact enclosing_setValue ..
  · rw [enclosing_setValue, enclosing_holdConstant]
  · rfl

/-- Every effect keeps the bindings, because an assignment spares the constants. -/
lemma Effect.keeps {e : ScopeId} {s t : Store} (h : Effect e s t) : s.Keeps t := by
  obtain ⟨j, name, v, hvar, rfl⟩ | ⟨name, v, hfree, rfl⟩ | ⟨objects, rfl⟩ := h.cases
  · exact keeps_setValue v hvar
  · refine (keeps_holdConstant hfree).trans (keeps_setValue v fun hbound => ?_)
    rw [bindsLocally_holdConstant, hfree] at hbound
    cases hbound
  · exact keeps_objects s objects

/-- Every effect keeps the store well scoped. -/
lemma Effect.wellScoped {e : ScopeId} {s t : Store} (h : Effect e s t) (hs : s.WellScoped) :
    t.WellScoped := by
  refine hs.of_enclosing (fun i hi => ?_) (fun i _ => h.enclosing_eq i) fun i n hconst => ?_
  · rwa [h.isOpen_eq] at hi
  · obtain ⟨j, name, v, -, rfl⟩ | ⟨name, v, -, rfl⟩ | ⟨objects, rfl⟩ := h.cases
    · rw [holdsConstant_setValue] at hconst
      rw [bindsLocally_setValue, hs.constant_bound i n hconst, Bool.or_true]
    · rw [holdsConstant_setValue, holdsConstant_holdConstant, Bool.or_eq_true] at hconst
      rw [bindsLocally_setValue, isOpen_holdConstant, bindsLocally_holdConstant, Bool.or_eq_true]
      exact hconst.imp_right (hs.constant_bound i n)
    · exact hs.constant_bound i n hconst

/-! ## Series of effects -/

/-- A series of effects opens and closes no scope. -/
lemma isOpen_eq_of_effects {e : ScopeId} {s t : Store} (h : ReflTransGen (Effect e) s t)
    (i : ScopeId) : t.isOpen i = s.isOpen i := by
  induction h with
  | refl => rfl
  | tail _ hstep ih => exact (hstep.isOpen_eq i).trans ih

/-- Any number of effects keep the bindings. -/
lemma keeps_of_effects {e : ScopeId} {s t : Store} (h : ReflTransGen (Effect e) s t) :
    s.Keeps t := by
  induction h with
  | refl => exact Keeps.refl s
  | tail _ hstep ih => exact ih.trans hstep.keeps

/-- Any number of effects keep the store well scoped. -/
lemma WellScoped.of_effects {e : ScopeId} {s t : Store} (hs : s.WellScoped)
    (h : ReflTransGen (Effect e) s t) : t.WellScoped := by
  induction h with
  | refl => exact hs
  | tail _ hstep ih => exact hstep.wellScoped ih

/-- What a declaration sets up. -/
lemma declared_of_declare {s t : Store} {e : ScopeId} {name : String} {v : Value} {constant : Bool}
    (hs : s.WellScoped) (hopen : s.isOpen e) (h : s.declare e name v constant = .ok t) :
    t.localValue? e name = some v ∧ t.holdsConstant e name = constant := by
  obtain ⟨hfree, rfl⟩ := declare_eq_ok_iff.1 h
  -- The name was no constant before, because it was not bound.
  have hconst : s.holdsConstant e name = false := by
    by_contra hne
    rw [hs.constant_bound e name (Bool.eq_true_of_not_eq_false hne)] at hfree
    cases hfree
  rw [localValue?_setValue, holdsConstant_setValue]
  cases constant <;> simp [hopen, hconst, holdsConstant_holdConstant]

end Store

end Scriptlet
