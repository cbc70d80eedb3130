import Mathlib.Logic.Relation
import Scriptlet.Proofs.Store.Scopes

/-!
# How names are found

Whoever looks for a name starts in a scope and goes on from scope to scope, each time to the one
right around it, until a scope binds the name.  `Store.Onward` is one step of this way: the scope
does not bind the name, and the scope right around it is open.  A name means the scope at the end of
the way (`WellScoped.resolve?_eq_some_iff`).

A way leads to smaller numbers, and from each scope in one direction only.  So what a change of the
store does to a name can be read off the way: closing a scope ends all ways through it
(`WellScoped.resolve?_closeScope_of_passed`), declaring a name ends the ways that come to the scope
where it is declared (`resolve?_declare_of_onward`), and assigning to a name leaves all ways as they
are.
-/

namespace Scriptlet

namespace Store

open Relation

variable {s t : Store} {e i p owner : ScopeId} {name n : String} {v : Value} {constant : Bool}

/-! ## The way of a name -/

/-- The name is not bound in the scope `e`, and is looked for in the scope `p` right around it
next. -/
def Onward (s : Store) (name : String) (e p : ScopeId) : Prop :=
  s.bindsLocally e name = false ∧ s.parent? e = some p

/-- The search for a name has one way to go. -/
lemma rightUnique_onward (s : Store) (name : String) : Relator.RightUnique (s.Onward name) :=
  fun _ _ _ h h' => Option.some.inj (h.2.symm.trans h'.2)

/-- Only an open scope has a scope around it. -/
lemma isOpen_of_parent? (h : s.parent? e = some p) : s.isOpen e := by
  by_contra he
  rw [parent?, enclosing_of_not_isOpen he] at h
  cases h

/-- The scope right around a scope has a smaller number. -/
lemma WellScoped.parent?_lt (hs : s.WellScoped) (h : s.parent? e = some p) : p < e := by
  have hhead : (s.enclosing e).head? = some p := (Option.mem_filter_iff.1 h).1
  exact hs.enclosing_lt e p (List.mem_of_head? hhead)

/-- The search for a name comes to smaller and smaller numbers. -/
lemma WellScoped.onward_lt (hs : s.WellScoped) (h : s.Onward name e p) : p < e :=
  hs.parent?_lt h.2

/-- A way leads to smaller numbers. -/
lemma WellScoped.le_of_onward (hs : s.WellScoped) (h : ReflTransGen (s.Onward name) e i) :
    i ≤ e := by
  induction h with
  | refl => exact Nat.le_refl e
  | tail _ hstep ih => exact (hs.onward_lt hstep).le.trans ih

/-- From a closed scope no name is found. -/
lemma resolve?_of_not_isOpen (h : ¬ s.isOpen e) (name : String) : s.resolve? e name = none := by
  rw [resolve?, reach, List.takeWhile_cons_of_neg h]
  rfl

/-- A name is found from a scope where it is found from the next one on its way. -/
lemma WellScoped.resolve?_of_onward (hs : s.WellScoped) (h : s.Onward name e p) :
    s.resolve? e name = s.resolve? p name := by
  rw [hs.resolve?_eq (isOpen_of_parent? h.2), if_neg (by simp [h.1]), h.2, Option.bind_some]

/-- A way ends where no scope around is left. -/
lemma WellScoped.resolve?_of_parent?_eq_none (hs : s.WellScoped)
    (hfree : s.bindsLocally e name = false) (h : s.parent? e = none) :
    s.resolve? e name = none := by
  by_cases he : s.isOpen e
  · rw [hs.resolve?_eq he, if_neg (by simp [hfree]), h, Option.bind_none]
  · exact resolve?_of_not_isOpen he name

/-- A way is followed as long as it goes on: the name is bound where one starts, or the way goes on
to a smaller number, or it ends there. -/
lemma way_induction (hs : s.WellScoped) (name : String) {P : ScopeId → Prop}
    (bound : ∀ e, s.bindsLocally e name → P e)
    (last : ∀ e, s.bindsLocally e name = false → s.parent? e = none → P e)
    (onward : ∀ e p, s.Onward name e p → P p → P e) (e : ScopeId) : P e := by
  induction e using Nat.strongRecOn with
  | ind e ih =>
    cases hbound : s.bindsLocally e name with
    | true => exact bound e hbound
    | false =>
      cases hparent : s.parent? e with
      | none => exact last e hbound hparent
      | some p =>
        have hstep : s.Onward name e p := ⟨hbound, hparent⟩
        exact onward e p hstep (ih p (hs.onward_lt hstep))

/-- A name means the scope at the end of its way, if that scope binds it. -/
lemma WellScoped.resolve?_eq_some_iff (hs : s.WellScoped) :
    s.resolve? e name = some owner ↔
      ReflTransGen (s.Onward name) e owner ∧ s.bindsLocally owner name := by
  constructor
  · induction e using way_induction hs name with
    | bound e hbound =>
      intro h
      rw [resolve?_of_bindsLocally hbound] at h
      cases h
      exact ⟨.refl, hbound⟩
    | last e hfree hparent =>
      intro h
      rw [hs.resolve?_of_parent?_eq_none hfree hparent] at h
      cases h
    | onward e p hstep ih =>
      intro h
      rw [hs.resolve?_of_onward hstep] at h
      exact ⟨.head hstep (ih h).1, (ih h).2⟩
  · rintro ⟨hway, hbound⟩
    induction hway using ReflTransGen.head_induction_on with
    | refl => exact resolve?_of_bindsLocally hbound
    | head hstep _ ih => rw [hs.resolve?_of_onward hstep, ih]

/-- A scope on the way to the one that binds the name is behind it only if it is that one. -/
lemma WellScoped.onward_owner (hs : s.WellScoped) (h : s.resolve? e name = some owner)
    (hi : ReflTransGen (s.Onward name) e i) : ReflTransGen (s.Onward name) i owner := by
  obtain ⟨hway, hbound⟩ := hs.resolve?_eq_some_iff.1 h
  rcases ReflTransGen.total_of_right_unique (rightUnique_onward s name) hi hway with hto | hfrom
  · exact hto
  · cases hfrom using ReflTransGen.head_induction_on with
    | refl => exact .refl
    | head hstep _ =>
      rw [hstep.1] at hbound
      cases hbound

/-- A name means the same in two stores in which the scopes have the same scopes around them, and
those on its way bind it in both or in none. -/
lemma WellScoped.resolve?_congr (hs : s.WellScoped) (ht : t.WellScoped)
    (hparent : ∀ i, t.parent? i = s.parent? i)
    (hbinds : ∀ i, ReflTransGen (s.Onward name) e i →
      t.bindsLocally i name = s.bindsLocally i name) :
    t.resolve? e name = s.resolve? e name := by
  induction e using way_induction hs name with
  | bound e hbound =>
    have hbound' : t.bindsLocally e name := (hbinds e .refl).trans hbound
    rw [resolve?_of_bindsLocally hbound, resolve?_of_bindsLocally hbound']
  | last e hfree hlast =>
    rw [hs.resolve?_of_parent?_eq_none hfree hlast,
      ht.resolve?_of_parent?_eq_none ((hbinds e .refl).trans hfree) ((hparent e).trans hlast)]
  | onward e p hstep ih =>
    have hstep' : t.Onward name e p :=
      ⟨(hbinds e .refl).trans hstep.1, (hparent e).trans hstep.2⟩
    rw [hs.resolve?_of_onward hstep, ht.resolve?_of_onward hstep']
    exact ih fun i hi => hbinds i (.head hstep hi)

/-! ## Reading what was found -/

/-- The value of a name is the one in the scope where it is found. -/
lemma lookup_of_resolve? (h : s.resolve? e name = some owner)
    (hv : s.localValue? owner name = some v) : s.lookup e name = .ok v := by
  rw [lookup, h, Option.bind_some, hv]

/-- A name has no value if no scope is found for it. -/
lemma lookup_eq_error_iff : (∃ err, s.lookup e name = .error err) ↔ s.resolve? e name = none := by
  rw [lookup]
  cases h : s.resolve? e name with
  | none => simp
  | some owner =>
    obtain ⟨v, hv⟩ := Option.isSome_iff_exists.1 (bindsLocally_of_resolve? h)
    simp [hv]

/-- A name is resolved to the scope that the search finds. -/
lemma resolve_eq_ok_iff : s.resolve e name = .ok owner ↔ s.resolve? e name = some owner := by
  rw [resolve]
  cases s.resolve? e name <;> simp

/-- A name is unbound when the search finds no scope. -/
lemma resolve_eq_error_iff : s.resolve e name = .error (.unbound name) ↔
    s.resolve? e name = none := by
  rw [resolve]
  cases s.resolve? e name <;> simp

/-- Two scopes resolve a name alike when the search finds the same from both. -/
lemma resolve_eq_resolve_iff : s.resolve e name = s.resolve i name ↔
    s.resolve? e name = s.resolve? i name := by
  rw [resolve, resolve]
  cases s.resolve? e name <;> cases s.resolve? i name <;> simp

/-- The value of a name depends on the scope found for it and its value there only. -/
lemma lookup_congr (h : t.resolve? e name = s.resolve? e name)
    (hv : ∀ owner, s.resolve? e name = some owner →
      t.localValue? owner name = s.localValue? owner name) :
    t.lookup e name = s.lookup e name := by
  rw [lookup, lookup, h]
  cases hresolve : s.resolve? e name with
  | none => rfl
  | some owner => rw [Option.bind_some, Option.bind_some, hv owner hresolve]

/-- Whether a name is constant depends on the scope found for it only. -/
lemma isConstant_congr (h : t.resolve? e name = s.resolve? e name)
    (hc : ∀ owner, s.resolve? e name = some owner →
      t.holdsConstant owner name = s.holdsConstant owner name) :
    t.isConstant e name = s.isConstant e name := by
  rw [isConstant, isConstant, h]
  cases hresolve : s.resolve? e name with
  | none => rfl
  | some owner => rw [Option.any_some, Option.any_some, hc owner hresolve]

/-! ## Closing a scope -/

/-- The scope that is closed is the scope right around no other. -/
lemma parent?_closeScope_of_ne (h : e ≠ i) :
    (s.closeScope i).parent? e = (s.parent? e).filter (· ≠ i) := by
  have hopen : (s.closeScope i).isOpen = fun p => s.isOpen p && decide (p ≠ i) := by
    funext p
    rw [Bool.eq_iff_iff, isOpen_closeScope_iff, Bool.and_eq_true, decide_eq_true_iff, and_comm]
  rw [parent?, parent?, enclosing_closeScope_of_ne _ _ _ h, hopen, Option.filter_filter]

/-- The other scopes bind the same names when one is closed. -/
lemma bindsLocally_closeScope_of_ne (h : e ≠ i) :
    (s.closeScope i).bindsLocally e name = s.bindsLocally e name := by
  rw [bindsLocally, localValue?_closeScope_of_ne _ _ _ _ h, bindsLocally]

/-- A step of the search stays when another scope is closed. -/
lemma Onward.closeScope (h : s.Onward name e p) (he : e ≠ i) (hp : p ≠ i) :
    (s.closeScope i).Onward name e p := by
  constructor
  · rw [bindsLocally_closeScope_of_ne he, h.1]
  · rw [parent?_closeScope_of_ne he, h.2, Option.filter_some, if_pos (by simpa using hp)]

/-- A name that was looked for behind the closed scope is not found any more. -/
lemma WellScoped.resolve?_closeScope_of_passed (hs : s.WellScoped)
    (h : TransGen (s.Onward name) e i) : (s.closeScope i).resolve? e name = none := by
  have hs' := hs.closeScope i
  induction h using TransGen.head_induction_on with
  | @single e hstep =>
    have he : e ≠ i := (hs.onward_lt hstep).ne'
    refine hs'.resolve?_of_parent?_eq_none ?_ ?_
    · rw [bindsLocally_closeScope_of_ne he, hstep.1]
    · rw [parent?_closeScope_of_ne he, hstep.2, Option.filter_some, if_neg (by simp)]
  | @head e p hstep hrest ih =>
    obtain ⟨q, hq, hqi⟩ := TransGen.head'_iff.1 hrest
    have hp : i < p := (hs.le_of_onward hqi).trans_lt (hs.onward_lt hq)
    have he : i < e := hp.trans (hs.onward_lt hstep)
    rw [hs'.resolve?_of_onward (hstep.closeScope he.ne' hp.ne'), ih]

/-- Every other name that is looked for from another scope is found where it was found. -/
lemma WellScoped.resolve?_closeScope_of_not_passed (hs : s.WellScoped) (he : e ≠ i)
    (h : ¬ TransGen (s.Onward name) e i) :
    (s.closeScope i).resolve? e name = s.resolve? e name := by
  have hs' := hs.closeScope i
  induction e using way_induction hs name with
  | bound e hbound =>
    rw [resolve?_of_bindsLocally hbound, resolve?_of_bindsLocally]
    rwa [bindsLocally_closeScope_of_ne he]
  | last e hfree hlast =>
    rw [hs.resolve?_of_parent?_eq_none hfree hlast, hs'.resolve?_of_parent?_eq_none]
    · rw [bindsLocally_closeScope_of_ne he, hfree]
    · rw [parent?_closeScope_of_ne he, hlast]
      rfl
  | onward e p hstep ih =>
    have hp : p ≠ i := by
      rintro rfl
      exact h (.single hstep)
    rw [hs.resolve?_of_onward hstep, hs'.resolve?_of_onward (hstep.closeScope he hp)]
    exact ih hp fun hrest => h (.head hstep hrest)

/-- After a scope was closed, a name is not found from another scope if it was not found before, or
if the closed scope lies behind that scope on the way to the one where it was found. -/
lemma WellScoped.resolve_closeScope_eq_error_iff (hs : s.WellScoped) (he : e ≠ i) :
    (s.closeScope i).resolve e name = .error (.unbound name) ↔
      s.resolve e name = .error (.unbound name) ∨
      ∃ owner, s.resolve e name = .ok owner ∧ TransGen (s.Onward name) e i ∧
        ReflTransGen (s.Onward name) i owner := by
  simp only [resolve_eq_error_iff, resolve_eq_ok_iff]
  by_cases hpassed : TransGen (s.Onward name) e i
  · rw [hs.resolve?_closeScope_of_passed hpassed]
    refine iff_of_true rfl ?_
    cases hresolve : s.resolve? e name with
    | none => exact .inl rfl
    | some owner =>
      have hto := hs.onward_owner hresolve hpassed.to_reflTransGen
      exact .inr ⟨owner, rfl, hpassed, hto⟩
  · rw [hs.resolve?_closeScope_of_not_passed he hpassed]
    refine ⟨.inl, ?_⟩
    rintro (hnone | ⟨owner, -, hpassed', -⟩)
    · exact hnone
    · exact absurd hpassed' hpassed

/-- What is still found after a scope was closed is found where it was found before. -/
lemma WellScoped.resolve_closeScope_eq_ok (hs : s.WellScoped) (he : e ≠ i)
    (h : (s.closeScope i).resolve e name ≠ .error (.unbound name)) :
    ∃ owner, s.resolve e name = .ok owner ∧ (s.closeScope i).resolve e name = .ok owner := by
  simp only [ne_eq, resolve_eq_error_iff] at h
  simp only [resolve_eq_ok_iff]
  have hpassed : ¬ TransGen (s.Onward name) e i := fun hpassed =>
    h (hs.resolve?_closeScope_of_passed hpassed)
  rw [hs.resolve?_closeScope_of_not_passed he hpassed] at h ⊢
  obtain ⟨owner, howner⟩ := Option.ne_none_iff_exists'.1 h
  exact ⟨owner, howner, howner⟩

/-! ## Declaring and assigning -/

/-- No effect changes which scope is right around another. -/
lemma parent?_of_effect (h : Effect i s t) (e : ScopeId) : t.parent? e = s.parent? e := by
  rw [parent?, parent?, h.enclosing_eq e, funext h.isOpen_eq]

section Declare

variable (hs : s.WellScoped) (he : s.isOpen e) (h : s.declare e name v constant = .ok t)

include h

/-- A declaration changes the value of no other name and in no other scope. -/
lemma localValue?_declare_of_ne (hne : ¬ (i = e ∧ n = name)) :
    t.localValue? i n = s.localValue? i n := by
  obtain ⟨-, rfl⟩ := declare_eq_ok_iff.1 h
  have hne' : ¬ (i = e ∧ n = name ∧ s.isOpen e) := fun h => hne ⟨h.1, h.2.1⟩
  cases constant <;> simp [localValue?_setValue, hne']

/-- A declaration makes no other name constant, and none in another scope. -/
lemma holdsConstant_declare_of_ne (hne : ¬ (i = e ∧ n = name)) :
    t.holdsConstant i n = s.holdsConstant i n := by
  obtain ⟨-, rfl⟩ := declare_eq_ok_iff.1 h
  have hne' : ¬ (i = e ∧ n = name ∧ s.isOpen e) := fun h => hne ⟨h.1, h.2.1⟩
  cases constant <;> simp [holdsConstant_holdConstant, hne']

include he

/-- A declaration binds one more name, and in one scope only. -/
lemma bindsLocally_declare (i : ScopeId) (n : String) :
    t.bindsLocally i n = (decide (i = e ∧ n = name) || s.bindsLocally i n) := by
  obtain ⟨-, rfl⟩ := declare_eq_ok_iff.1 h
  cases constant <;> simp [bindsLocally_setValue, he]

include hs

/-- Ways that come to the scope where the name is declared end there. -/
lemma resolve?_declare_of_onward (hway : ReflTransGen (s.Onward name) i e) :
    t.resolve? i name = some e := by
  have ht : t.WellScoped := (Effect.declare h).wellScoped hs
  have hbinds := bindsLocally_declare he h
  induction hway using ReflTransGen.head_induction_on with
  | refl => exact resolve?_of_bindsLocally (by simp [hbinds])
  | @head i p hstep hrest ih =>
    -- The way goes down to the scope, so that none of the scopes before it is the same.
    have hne : i ≠ e := ((hs.le_of_onward hrest).trans_lt (hs.onward_lt hstep)).ne'
    have hstep' : t.Onward name i p := by
      refine ⟨by simp [hbinds, hne, hstep.1], ?_⟩
      rw [parent?_of_effect (.declare h), hstep.2]
    rw [ht.resolve?_of_onward hstep', ih]

/-- All other names, and the name itself on other ways, are found where they were found. -/
lemma resolve?_declare_of_not_onward (hway : ¬ (n = name ∧ ReflTransGen (s.Onward name) i e)) :
    t.resolve? i n = s.resolve? i n := by
  refine hs.resolve?_congr ((Effect.declare h).wellScoped hs) (parent?_of_effect (.declare h))
    fun j hj => ?_
  rw [bindsLocally_declare he h, decide_eq_false, Bool.false_or]
  rintro ⟨rfl, rfl⟩
  exact hway ⟨rfl, hj⟩

/-- What is declared is read on the ways that come to its scope. -/
lemma read_declare_of_onward (hway : ReflTransGen (s.Onward name) i e) :
    t.lookup i name = .ok v ∧ t.isConstant i name = constant := by
  have hresolve := resolve?_declare_of_onward hs he h hway
  obtain ⟨hvalue, hconst⟩ := declared_of_declare hs he h
  refine ⟨lookup_of_resolve? hresolve hvalue, ?_⟩
  rw [isConstant, hresolve, Option.any_some, hconst]

/-- All else is read as before. -/
lemma read_declare_of_not_onward (hway : ¬ (n = name ∧ ReflTransGen (s.Onward name) i e)) :
    t.lookup i n = s.lookup i n ∧ t.isConstant i n = s.isConstant i n := by
  have hresolve := resolve?_declare_of_not_onward hs he h hway
  have hfree := (declare_eq_ok_iff.1 h).1
  -- The scope where the name is declared did not bind it, so that it was found elsewhere.
  have hne : ∀ owner, s.resolve? i n = some owner → ¬ (owner = e ∧ n = name) := by
    rintro owner howner ⟨rfl, rfl⟩
    rw [bindsLocally_of_resolve? howner] at hfree
    cases hfree
  exact ⟨lookup_congr hresolve fun owner howner => localValue?_declare_of_ne h (hne owner howner),
    isConstant_congr hresolve fun owner howner => holdsConstant_declare_of_ne h (hne owner howner)⟩

end Declare

section Assign

variable (h : s.assign e name v = .ok t)

include h

/-- An assignment binds no name anew. -/
lemma bindsLocally_assign (i : ScopeId) (n : String) :
    t.bindsLocally i n = s.bindsLocally i n := by
  obtain ⟨owner, howner, -, rfl⟩ := assign_eq_ok_iff.1 h
  rw [bindsLocally_setValue]
  by_cases hplace : i = owner ∧ n = name ∧ s.isOpen owner
  · obtain ⟨rfl, rfl, -⟩ := hplace
    rw [bindsLocally_of_resolve? howner, Bool.or_true]
  · rw [decide_eq_false hplace, Bool.false_or]

/-- An assignment changes nothing about constants. -/
lemma holdsConstant_assign (i : ScopeId) (n : String) :
    t.holdsConstant i n = s.holdsConstant i n := by
  obtain ⟨owner, -, -, rfl⟩ := assign_eq_ok_iff.1 h
  exact holdsConstant_setValue ..

/-- An assignment binds no name, so that every name is found where it was. -/
lemma WellScoped.resolve?_assign (hs : s.WellScoped) (i : ScopeId) (n : String) :
    t.resolve? i n = s.resolve? i n :=
  hs.resolve?_congr ((Effect.assign h).wellScoped hs) (parent?_of_effect (.assign h))
    fun j _ => bindsLocally_assign h j n

/-- The same names are constant after an assignment as before. -/
lemma WellScoped.isConstant_assign (hs : s.WellScoped) (i : ScopeId) (n : String) :
    t.isConstant i n = s.isConstant i n :=
  isConstant_congr (hs.resolve?_assign h i n) fun owner _ => holdsConstant_assign h owner n

/-- What is assigned is read wherever the name means the same scope. -/
lemma WellScoped.lookup_assign_of_eq (hs : s.WellScoped)
    (hi : s.resolve? i name = s.resolve? e name) : t.lookup i name = .ok v := by
  have hresolve := hs.resolve?_assign h i name
  obtain ⟨owner, howner, -, rfl⟩ := assign_eq_ok_iff.1 h
  have hopen := isOpen_of_bindsLocally (bindsLocally_of_resolve? howner)
  refine lookup_of_resolve? (hresolve.trans (hi.trans howner)) ?_
  rw [localValue?_setValue, if_pos ⟨rfl, rfl, hopen⟩]

/-- All else is read as before. -/
lemma WellScoped.lookup_assign_of_ne (hs : s.WellScoped)
    (hi : ¬ (n = name ∧ s.resolve? i n = s.resolve? e n)) : t.lookup i n = s.lookup i n := by
  refine lookup_congr (hs.resolve?_assign h i n) fun found hfound => ?_
  obtain ⟨owner, howner, -, rfl⟩ := assign_eq_ok_iff.1 h
  rw [localValue?_setValue, if_neg]
  rintro ⟨rfl, rfl, -⟩
  exact hi ⟨rfl, hfound.trans howner.symm⟩

end Assign

/-! ## Failing -/

/-- A declaration goes wrong only for a name that the scope itself binds. -/
lemma declare_eq_error_iff {err : RuntimeError} :
    s.declare e name v constant = .error err ↔
      s.bindsLocally e name ∧ err = .alreadyBound name := by
  unfold declare
  cases s.bindsLocally e name <;> simp [eq_comm]

/-- An assignment goes wrong for an unbound name and for a constant, and not otherwise. -/
lemma assign_eq_error_iff {err : RuntimeError} :
    s.assign e name v = .error err ↔
      (s.resolve? e name = none ∧ err = .unbound name) ∨
      (s.isConstant e name ∧ err = .constantAssigned name) := by
  unfold assign isConstant
  cases s.resolve? e name with
  | none => simp [eq_comm (b := err)]
  | some owner => by_cases hconst : s.holdsConstant owner name <;> simp [hconst, eq_comm (b := err)]

end Store

end Scriptlet
