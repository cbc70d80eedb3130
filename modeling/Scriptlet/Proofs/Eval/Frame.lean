import Scriptlet.Proofs.Eval.Indifference
import Scriptlet.Proofs.Value.Content

/-!
# The names that a program touches

What a program can do to a store, and what it can learn from it, is limited by the names that are
written in it.  It binds no names but those that it declares, and these in its own scope only, and
gives new values to no names but those that it assigns to.  And it does the same in two stores that
differ in other names only.

`Expr.parts` lists all expressions in an expression, also those that are never evaluated, and
`Program.Declares`, `Program.Assigns` and `Program.Mentions` say in which ways a name occurs in a
program.  `Eval.StepsOf p` holds of the computations that are made of steps with names from `p`; the
evaluation of `p` is one of them (`Program.stepsOf`).  Both halves of the main result are
inductions over such computations.
-/

namespace Scriptlet

/-! ## What occurs in a program -/

mutual

/-- An expression, and all expressions in it. -/
def Expr.parts : Expr → List Expr
  | .number x => [.number x]
  | .null => [.null]
  | .name n => [.name n]
  | .binary op left right => .binary op left right :: (left.parts ++ right.parts)
  | .assign target value => .assign target value :: (target.parts ++ value.parts)
  | .object ps => .object ps :: propertyParts ps
  | .dot object property => .dot object property :: (object.parts ++ property.parts)
  | .index object property => .index object property :: (object.parts ++ property.parts)
  | .call callee args => .call callee args :: (callee.parts ++ argumentParts args)

/-- The expressions in properties. -/
def propertyParts : List Property → List Expr
  | [] => []
  | .shorthand _ :: ps => propertyParts ps
  | .pair _ value :: ps => value.parts ++ propertyParts ps

/-- The expressions in arguments. -/
def argumentParts : List Expr → List Expr
  | [] => []
  | x :: xs => x.parts ++ argumentParts xs

end

/-- The expressions in a statement. -/
def Statement.parts : Statement → List Expr
  | .expr x => x.parts
  | .declaration _ _ (some x) => x.parts
  | .declaration _ _ none => []

namespace Program

/-- The expressions in a program. -/
def parts (p : Program) : List Expr := p.body.flatMap Statement.parts

/-- The program declares the name, as a constant or as a variable. -/
def Declares (p : Program) (name : String) (constant : Bool) : Prop :=
  ∃ value, .declaration name constant value ∈ p.body

/-- The name stands on the left of some assignment. -/
def Assigns (p : Program) (name : String) : Prop :=
  ∃ value, .assign (.name name) value ∈ p.parts

/-- The name occurs in the program: as a variable, on the left of an assignment, in a declaration or
as a property that stands for the variable of the same name. -/
def Mentions (p : Program) (name : String) : Prop :=
  .name name ∈ p.parts ∨ p.Assigns name ∨ (∃ constant, p.Declares name constant) ∨
    ∃ ps, .object ps ∈ p.parts ∧ .shorthand name ∈ ps

end Program

/-! ## Steps with names of a program -/

/-- The computation is made of steps in the scope `e` with names that occur in the program `p`. -/
inductive Eval.StepsOf (p : Program) (e : ScopeId) : ∀ {α : Type}, Eval α → Prop where
  /-- Giving a value. -/
  | pure {α : Type} (a : α) : StepsOf p e (pure a : Eval α)
  /-- Going wrong. -/
  | throw {α : Type} (err : RuntimeError) : StepsOf p e (throw err : Eval α)
  /-- Looking up a name. -/
  | lookup {name : String} : p.Mentions name → StepsOf p e (read fun s => s.lookup e name)
  /-- Assigning to a name. -/
  | assign {name : String} (v : Value) : p.Assigns name →
    StepsOf p e (change fun s => s.assign e name v)
  /-- Declaring a name. -/
  | declare {name : String} {constant : Bool} (v : Value) : p.Declares name constant →
    StepsOf p e (change fun s => s.declare e name v constant)
  /-- Making an object. -/
  | newObject (properties : Table Value) : StepsOf p e (newObject properties)
  /-- A sequence. -/
  | bind {α β : Type} {x : Eval α} {f : α → Eval β} : StepsOf p e x → (∀ a, StepsOf p e (f a)) →
    StepsOf p e (x >>= f)

section StepsOf

open Eval

variable {p : Program} {e : ScopeId}

/-- An expression that is taken for a name is that name. -/
lemma Expr.eq_name_of_name? {x : Expr} {n : String} (h : x.name? = some n) : x = .name n := by
  cases x with
  | name m =>
    cases h
    rfl
  | _ => cases h

mutual

/-- Evaluating an expression of the program is made of steps with its names. -/
lemma Expr.stepsOf (x : Expr) (h : x.parts ⊆ p.parts) : StepsOf p e (x.eval e) := by
  cases x with
  | number v =>
    rw [Expr.eval]
    exact .pure _
  | null =>
    rw [Expr.eval]
    exact .pure _
  | name n =>
    rw [Expr.parts] at h
    rw [Expr.eval]
    exact .lookup (.inl (h List.mem_cons_self))
  | binary op left right =>
    rw [Expr.parts, List.cons_subset, List.append_subset] at h
    rw [Expr.eval]
    exact .bind (left.stepsOf h.2.1) fun _ => .bind (right.stepsOf h.2.2) fun _ => .pure _
  | assign target value =>
    rw [Expr.parts, List.cons_subset, List.append_subset] at h
    rw [Expr.eval]
    cases hname : target.name? with
    | none => exact .throw _
    | some n =>
      obtain rfl := Expr.eq_name_of_name? hname
      exact .bind (value.stepsOf h.2.2) fun v => .bind (.assign v ⟨value, h.1⟩) fun _ => .pure _
  | object ps =>
    rw [Expr.parts, List.cons_subset] at h
    rw [Expr.eval]
    refine .bind (properties_stepsOf .empty ps h.2 fun key hkey => ?_) .newObject
    exact .inr (.inr (.inr ⟨ps, h.1, hkey⟩))
  | dot object property =>
    rw [Expr.eval]
    exact .throw _
  | index object property =>
    rw [Expr.eval]
    exact .throw _
  | call callee args =>
    rw [Expr.eval]
    exact .throw _

/-- Evaluating properties of the program is made of steps with its names. -/
lemma properties_stepsOf (table : Table Value) (ps : List Property)
    (hparts : propertyParts ps ⊆ p.parts) (hkeys : ∀ key, .shorthand key ∈ ps → p.Mentions key) :
    StepsOf p e (evalProperties e table ps) := by
  match ps with
  | [] =>
    rw [evalProperties]
    exact .pure _
  | .shorthand key :: ps =>
    rw [propertyParts] at hparts
    rw [evalProperties]
    refine .bind (.lookup (hkeys key List.mem_cons_self)) fun v => ?_
    exact properties_stepsOf _ ps hparts fun k hk => hkeys k (List.mem_cons_of_mem _ hk)
  | .pair key value :: ps =>
    rw [propertyParts, List.append_subset] at hparts
    rw [evalProperties]
    refine .bind (value.stepsOf hparts.1) fun v => ?_
    exact properties_stepsOf _ ps hparts.2 fun k hk => hkeys k (List.mem_cons_of_mem _ hk)

end

/-- Running a statement of the program is made of steps with its names. -/
lemma Statement.stepsOf {stmt : Statement} (h : stmt ∈ p.body) : StepsOf p e (stmt.eval e) := by
  have hparts : stmt.parts ⊆ p.parts := fun x hx => List.mem_flatMap.2 ⟨stmt, h, hx⟩
  cases stmt with
  | expr x => exact x.stepsOf hparts
  | declaration name constant value =>
    have hdeclare : ∀ v : Value,
        StepsOf p e (do change fun s => s.declare e name v constant; pure v) :=
      fun v => .bind (.declare v ⟨value, h⟩) fun _ => .pure v
    cases value with
    | none => exact .bind (.pure Value.null) hdeclare
    | some x => exact .bind (x.stepsOf hparts) hdeclare

/-- Running statements of the program is made of steps with its names. -/
lemma statements_stepsOf (last : Value) (stmts : List Statement) (h : stmts ⊆ p.body) :
    StepsOf p e (evalStatements e last stmts) := by
  induction stmts generalizing last with
  | nil => exact .pure last
  | cons stmt stmts ih =>
    rw [List.cons_subset] at h
    exact .bind (Statement.stepsOf h.1) fun v => ih v h.2

/-- A program takes steps with its own names only. -/
lemma Program.stepsOf (p : Program) (e : ScopeId) : StepsOf p e (p.eval e) :=
  statements_stepsOf .null p.body (List.Subset.refl _)

end StepsOf

/-! ## What is written -/

namespace Store

/-- What a program in the scope `e` can make of a store. -/
structure Confined (p : Program) (e : ScopeId) (s t : Store) : Prop where
  /-- The other scopes bind the same names as before. -/
  binds_of_ne : ∀ i name, i ≠ e → t.bindsLocally i name = s.bindsLocally i name
  /-- The other scopes hold the same names constant as before. -/
  constant_of_ne : ∀ i name, i ≠ e → t.holdsConstant i name = s.holdsConstant i name
  /-- A name that is bound now in the scope of the program was bound before or is declared. -/
  binds : ∀ name, t.bindsLocally e name →
    s.bindsLocally e name ∨ ∃ constant, p.Declares name constant
  /-- A name that is a constant now in the scope of the program was one before or is declared as
  one. -/
  constant : ∀ name, t.holdsConstant e name → s.holdsConstant e name ∨ p.Declares name true
  /-- A name that was bound has the value that it had, unless it is assigned to. -/
  value : ∀ i name, s.bindsLocally i name → ¬ p.Assigns name →
    t.localValue? i name = s.localValue? i name
  /-- The objects that there were have the properties that they had. -/
  objects : s.objects.Grows t.objects

variable {p : Program} {e i : ScopeId} {s t u : Store} {name : String} {v : Value}

/-- Doing nothing is confined to any program. -/
lemma Confined.refl (p : Program) (e : ScopeId) (s : Store) : Confined p e s s where
  binds_of_ne _ _ _ := rfl
  constant_of_ne _ _ _ := rfl
  binds _ h := .inl h
  constant _ h := .inl h
  value _ _ _ _ := rfl
  objects := .refl _

/-- What is confined to a program twice is confined to it. -/
lemma Confined.trans (hst : Confined p e s t) (htu : Confined p e t u) : Confined p e s u where
  binds_of_ne i name hi := (htu.binds_of_ne i name hi).trans (hst.binds_of_ne i name hi)
  constant_of_ne i name hi := (htu.constant_of_ne i name hi).trans (hst.constant_of_ne i name hi)
  binds name h := (htu.binds name h).elim (hst.binds name) .inr
  constant name h := (htu.constant name h).elim (hst.constant name) .inr
  value i name hbound hname := by
    have hvalue := hst.value i name hbound hname
    have hbound' : t.bindsLocally i name := by rwa [bindsLocally, hvalue]
    rw [htu.value i name hbound' hname, hvalue]
  objects := hst.objects.trans htu.objects

/-- A value may be set if it is that of a declared name in the scope of the program, or a bound one
that is assigned to. -/
lemma confined_setValue
    (hnew : ¬ s.bindsLocally i name → i = e ∧ ∃ constant, p.Declares name constant)
    (hold : s.bindsLocally i name → p.Assigns name) : Confined p e s (s.setValue i name v) where
  binds_of_ne j n hj := by
    rw [bindsLocally_setValue]
    by_cases hplace : j = i ∧ n = name ∧ s.isOpen i
    · obtain ⟨rfl, rfl, -⟩ := hplace
      have hbound : s.bindsLocally j n := by
        by_contra hfree
        exact hj (hnew hfree).1
      rw [hbound, Bool.or_true]
    · rw [decide_eq_false hplace, Bool.false_or]
  constant_of_ne j n _ := holdsConstant_setValue ..
  binds n h := by
    by_cases hbound : s.bindsLocally e n
    · exact .inl hbound
    · rw [bindsLocally_setValue, Bool.eq_false_of_not_eq_true hbound, Bool.or_false] at h
      obtain ⟨rfl, rfl, -⟩ := of_decide_eq_true h
      exact .inr (hnew hbound).2
  constant n h := by
    rw [holdsConstant_setValue] at h
    exact .inl h
  value j n hbound hn := by
    rw [localValue?_setValue, if_neg]
    rintro ⟨rfl, rfl, -⟩
    exact hn (hold hbound)
  objects := .refl _

/-- Holding a name constant is confined to programs that declare it so. -/
lemma confined_holdConstant (h : p.Declares name true) :
    Confined p e s (s.holdConstant e name) where
  binds_of_ne _ _ _ := bindsLocally_holdConstant ..
  constant_of_ne j n hj := by
    rw [holdsConstant_holdConstant, decide_eq_false fun hplace => hj hplace.1, Bool.false_or]
  binds n hn := by
    rw [bindsLocally_holdConstant] at hn
    exact .inl hn
  constant n hn := by
    rw [holdsConstant_holdConstant, Bool.or_eq_true] at hn
    rcases hn with hplace | hn
    · obtain ⟨-, rfl, -⟩ := of_decide_eq_true hplace
      exact .inr h
    · exact .inl hn
  value _ _ _ _ := localValue?_holdConstant ..
  objects := .refl _

/-- A declaration is confined to programs that make it. -/
lemma confined_declare {constant : Bool} (h : p.Declares name constant)
    (hst : s.declare e name v constant = .ok t) : Confined p e s t := by
  obtain ⟨hfree, rfl⟩ := declare_eq_ok_iff.1 hst
  cases constant with
  | false =>
    refine confined_setValue (fun _ => ⟨rfl, false, h⟩) fun hbound => ?_
    rw [hfree] at hbound
    cases hbound
  | true =>
    refine (confined_holdConstant h).trans (confined_setValue (fun _ => ⟨rfl, true, h⟩) ?_)
    intro hbound
    rw [bindsLocally_holdConstant, hfree] at hbound
    cases hbound

/-- An assignment is confined to programs that make it. -/
lemma confined_assign (h : p.Assigns name) (hst : s.assign e name v = .ok t) :
    Confined p e s t := by
  obtain ⟨owner, howner, -, rfl⟩ := assign_eq_ok_iff.1 hst
  exact confined_setValue (fun hfree => absurd (bindsLocally_of_resolve? howner) hfree) fun _ => h

/-- Making an object touches no scope. -/
lemma confined_addObject (properties : Table Value) : Confined p e s (s.addObject properties) where
  binds_of_ne _ _ _ := rfl
  constant_of_ne _ _ _ := rfl
  binds _ h := .inl h
  constant _ h := .inl h
  value _ _ _ _ := rfl
  objects := Objects.grows_push _ _

end Store

namespace Eval

open Store

variable {α β : Type} {p : Program} {e : ScopeId}

/-- A change that goes wrong leaves the store as it is. -/
lemma confined_change {f : Store → Except RuntimeError Store}
    (h : ∀ s t, f s = .ok t → Confined p e s t) (s : Store) :
    Confined p e s ((change f).outcome s).2 := by
  rw [outcome_change]
  cases hf : f s with
  | ok t => exact h s t hf
  | error err => exact .refl p e s

/-- Steps of a program do to a store what that program can do. -/
lemma StepsOf.confined {x : Eval α} (h : StepsOf p e x) (s : Store) :
    Confined p e s (x.outcome s).2 := by
  induction h generalizing s with
  | pure a => exact .refl p e s
  | throw err => exact .refl p e s
  | lookup _ => exact .refl p e s
  | assign v hname => exact confined_change (fun _ _ => confined_assign hname) s
  | declare v hname => exact confined_change (fun _ _ => confined_declare hname) s
  | newObject properties => exact confined_addObject properties
  | @bind α β x f _ _ ihx ihf =>
    have hfirst := ihx s
    rw [outcome_bind]
    cases hx : x.outcome s with
    | mk r t =>
      rw [hx] at hfirst
      cases r with
      | ok a => exact hfirst.trans (ihf a t)
      | error err => exact hfirst

end Eval

/-! ## What is read -/

namespace Store

/-- The two stores have the same objects, and the same scopes are in reach of `e`, which agree about
some names: whether they are bound, their values, and whether they are constants. -/
structure AgreeOn (names : String → Prop) (e : ScopeId) (s t : Store) : Prop where
  /-- The objects are the same. -/
  objects : t.objects = s.objects
  /-- The same scopes are in reach. -/
  reach : t.reach e = s.reach e
  /-- They bind the same of the names, to the same values. -/
  value : ∀ i ∈ s.reach e, ∀ name, names name → t.localValue? i name = s.localValue? i name
  /-- They hold the same of the names constant. -/
  constant : ∀ i ∈ s.reach e, ∀ name, names name → t.holdsConstant i name = s.holdsConstant i name

namespace AgreeOn

variable {names : String → Prop} {e i : ScopeId} {s t : Store} {name : String}

/-- Scopes in reach are open in both stores. -/
lemma isOpen (h : AgreeOn names e s t) (hi : i ∈ s.reach e) : t.isOpen i = s.isOpen i := by
  have hi' : i ∈ t.reach e := by rwa [h.reach]
  rw [isOpen_of_mem_reach hi, isOpen_of_mem_reach hi']

/-- A name is found in the same scope. -/
lemma resolve?_eq (h : AgreeOn names e s t) (hname : names name) :
    t.resolve? e name = s.resolve? e name := by
  rw [resolve?, resolve?, h.reach]
  refine List.find?_congr fun i hi => ?_
  rw [bindsLocally, h.value i hi name hname, bindsLocally]

/-- The stores give the same value of a name they agree on. -/
lemma lookup_eq (h : AgreeOn names e s t) (hname : names name) :
    t.lookup e name = s.lookup e name := by
  rw [lookup, lookup, h.resolve?_eq hname]
  cases howner : s.resolve? e name with
  | none => rfl
  | some owner =>
    have hmem : owner ∈ s.reach e := List.mem_of_find?_eq_some howner
    rw [Option.bind_some, Option.bind_some, h.value owner hmem name hname]

/-- The scope itself binds the same of the names, also if it is closed. -/
lemma bindsLocally_eq (h : AgreeOn names e s t) (hname : names name) :
    t.bindsLocally e name = s.bindsLocally e name := by
  by_cases he : s.isOpen e
  · rw [bindsLocally, h.value e (mem_reach_self he) name hname, bindsLocally]
  · have hreach : t.reach e = [] := by rw [h.reach, Store.reach, List.takeWhile_cons_of_neg he]
    have he' : ¬ t.isOpen e := fun hopen => by
      have hmem := mem_reach_self hopen
      rw [hreach] at hmem
      cases hmem
    rw [Bool.eq_false_iff.2 fun hbound => he (isOpen_of_bindsLocally hbound),
      Bool.eq_false_iff.2 fun hbound => he' (isOpen_of_bindsLocally hbound)]

/-- The same value may be set on both sides. -/
lemma setValue (h : AgreeOn names e s t) (i : ScopeId) (name : String) (v : Value) :
    AgreeOn names e (s.setValue i name v) (t.setValue i name v) where
  objects := h.objects
  reach := by rw [reach_setValue, reach_setValue, h.reach]
  value j hj n hn := by
    rw [reach_setValue] at hj
    rw [localValue?_setValue, localValue?_setValue, h.value j hj n hn]
    by_cases hi : j = i
    · rw [← hi, h.isOpen hj]
    · rw [if_neg fun hplace => hi hplace.1, if_neg fun hplace => hi hplace.1]
  constant j hj n hn := by
    rw [reach_setValue] at hj
    rw [holdsConstant_setValue, holdsConstant_setValue, h.constant j hj n hn]

/-- The same name may become a constant on both sides. -/
lemma holdConstant (h : AgreeOn names e s t) (i : ScopeId) (name : String) :
    AgreeOn names e (s.holdConstant i name) (t.holdConstant i name) where
  objects := h.objects
  reach := by rw [reach_holdConstant, reach_holdConstant, h.reach]
  value j hj n hn := by
    rw [reach_holdConstant] at hj
    rw [localValue?_holdConstant, localValue?_holdConstant, h.value j hj n hn]
  constant j hj n hn := by
    rw [reach_holdConstant] at hj
    rw [holdsConstant_holdConstant, holdsConstant_holdConstant, h.constant j hj n hn]
    by_cases hi : j = i
    · rw [← hi, h.isOpen hj]
    · rw [decide_eq_false fun hplace => hi hplace.1, decide_eq_false fun hplace => hi hplace.1]

/-- The same new object in both stores keeps them in agreement. -/
lemma addObject (h : AgreeOn names e s t) (properties : Table Value) :
    AgreeOn names e (s.addObject properties) (t.addObject properties) where
  objects := congrArg (Heap.push · properties) h.objects
  reach := h.reach
  value := h.value
  constant := h.constant

/-- The name is declared on both sides, or on none. -/
lemma declare (h : AgreeOn names e s t) (hname : names name) (v : Value) (constant : Bool) :
    (∃ s' t', s.declare e name v constant = .ok s' ∧ t.declare e name v constant = .ok t' ∧
      AgreeOn names e s' t') ∨
    ∃ err, s.declare e name v constant = .error err ∧ t.declare e name v constant = .error err := by
  rw [Store.declare, Store.declare, h.bindsLocally_eq hname]
  by_cases hbound : s.bindsLocally e name
  · rw [if_pos hbound, if_pos hbound]
    exact .inr ⟨_, rfl, rfl⟩
  · rw [if_neg hbound, if_neg hbound]
    refine .inl ⟨_, _, rfl, rfl, ?_⟩
    cases constant with
    | false => exact h.setValue e name v
    | true => exact (h.holdConstant e name).setValue e name v

/-- The name gets its new value on both sides, or on none. -/
lemma assign (h : AgreeOn names e s t) (hname : names name) (v : Value) :
    (∃ s' t', s.assign e name v = .ok s' ∧ t.assign e name v = .ok t' ∧ AgreeOn names e s' t') ∨
    ∃ err, s.assign e name v = .error err ∧ t.assign e name v = .error err := by
  rw [Store.assign, Store.assign, h.resolve?_eq hname]
  cases howner : s.resolve? e name with
  | none => exact .inr ⟨_, rfl, rfl⟩
  | some owner =>
    dsimp only
    rw [h.constant owner (List.mem_of_find?_eq_some howner) name hname]
    by_cases hconst : s.holdsConstant owner name
    · rw [if_pos hconst, if_pos hconst]
      exact .inr ⟨_, rfl, rfl⟩
    · rw [if_neg hconst, if_neg hconst]
      exact .inl ⟨_, _, rfl, rfl, h.setValue owner name v⟩

end AgreeOn

end Store

namespace Eval

open Store

variable {α : Type} {p : Program} {e : ScopeId}

/-- The computation gives the same in stores that agree on some names, and leaves such stores. -/
def DependsOn (names : String → Prop) (e : ScopeId) (x : Eval α) : Prop :=
  ∀ s t, AgreeOn names e s t →
    (x.outcome t).1 = (x.outcome s).1 ∧ AgreeOn names e (x.outcome s).2 (x.outcome t).2

/-- A change depends on some names if it goes the same way in stores that agree on them. -/
lemma dependsOn_change {names : String → Prop} {f : Store → Except RuntimeError Store}
    (h : ∀ s t, AgreeOn names e s t →
      (∃ s' t', f s = .ok s' ∧ f t = .ok t' ∧ AgreeOn names e s' t') ∨
      ∃ err, f s = .error err ∧ f t = .error err) : DependsOn names e (change f) := by
  intro s t hst
  rw [outcome_change, outcome_change]
  rcases h s t hst with ⟨s', t', hs, ht, hagree⟩ | ⟨err, hs, ht⟩
  · rw [hs, ht]
    exact ⟨rfl, hagree⟩
  · rw [hs, ht]
    exact ⟨rfl, hst⟩

/-- Steps of a program depend on the names that occur in it. -/
lemma StepsOf.dependsOn {x : Eval α} (h : StepsOf p e x) : DependsOn p.Mentions e x := by
  induction h with
  | pure a => exact fun _ _ hst => ⟨rfl, hst⟩
  | throw err => exact fun _ _ hst => ⟨rfl, hst⟩
  | lookup hname => exact fun _ _ hst => ⟨hst.lookup_eq hname, hst⟩
  | assign v hname => exact dependsOn_change fun _ _ hst => hst.assign (.inr (.inl hname)) v
  | @declare name constant v hname =>
    have hmentions : p.Mentions name := .inr (.inr (.inl ⟨constant, hname⟩))
    exact dependsOn_change fun _ _ hst => hst.declare hmentions v constant
  | newObject properties =>
    refine fun s t hst => ⟨?_, hst.addObject properties⟩
    rw [outcome_newObject, outcome_newObject, hst.objects]
  | @bind α β x f _ _ ihx ihf =>
    intro s t hst
    obtain ⟨hresult, hagree⟩ := ihx s t hst
    rw [outcome_bind, outcome_bind]
    cases hs : x.outcome s with
    | mk r s' =>
      cases ht : x.outcome t with
      | mk r' t' =>
        rw [hs, ht] at hresult hagree
        obtain rfl : r' = r := hresult
        cases r' with
        | ok a => exact ihf a s' t' hagree
        | error err => exact ⟨rfl, hagree⟩

end Eval

open Store

/-- A program binds no names but those that it declares, and these in its own scope only, and gives
new values to no bound names but those that it assigns to, whether it goes well or not.  And in two
stores that agree about the names that occur in it, in the scopes that it can see, it gives the same
value or the same error and leaves stores that agree again. -/
theorem eval_confined_to_names (p : Program) (e : ScopeId) :
    (∀ s, Confined p e s ((p.eval e).outcome s).2) ∧
    ∀ s t, AgreeOn p.Mentions e s t →
      ((p.eval e).outcome t).1 = ((p.eval e).outcome s).1 ∧
        AgreeOn p.Mentions e ((p.eval e).outcome s).2 ((p.eval e).outcome t).2 :=
  ⟨(p.stepsOf e).confined, (p.stepsOf e).dependsOn⟩

/-- The program `const y = { x }; x = y; z` goes wrong at its end.  By then it has given the
name `x` of the outer scope another value, whether there is a name `w` beside it or not. -/
theorem eval_confined_to_names_of_other_name :
    let p : Program := ⟨[.declaration "y" true (some (.object [.shorthand "x"])),
      .expr (.assign (.name "x") (.name "y")), .expr (.name "z")]⟩
    let s := (empty.openRoot.openChild 0).setValue 0 "x" (.bool true)
    let t := s.setValue 0 "w" .null
    AgreeOn p.Mentions 1 s t ∧ s.localValue? 0 "w" ≠ t.localValue? 0 "w" ∧
      ((p.eval 1).outcome s).1 = .error (.unbound "z") ∧
      ((p.eval 1).outcome t).1 = ((p.eval 1).outcome s).1 ∧
      ((p.eval 1).outcome t).2.localValue? 0 "x" = some (.object 0) ∧
      Confined p 1 t ((p.eval 1).outcome t).2 := by
  intro p s t
  have hw : ¬ p.Mentions "w" := by
    simp [Program.Mentions, Program.Assigns, Program.Declares, Program.parts, Statement.parts,
      Expr.parts, propertyParts, p]
  have hagree : AgreeOn p.Mentions 1 s t := by
    refine ⟨rfl, reach_setValue .., fun i _ name hname => ?_, fun _ _ _ _ => ?_⟩
    · rw [localValue?_setValue, if_neg]
      rintro ⟨-, rfl, -⟩
      exact hw hname
    · exact holdsConstant_setValue ..
  obtain ⟨hconfined, hsame⟩ := eval_confined_to_names p 1
  have hdiffer : s.localValue? 0 "w" ≠ t.localValue? 0 "w" := by decide +kernel
  have hwrong : ((p.eval 1).outcome s).1 = .error (.unbound "z") := by decide +kernel
  have hvalue : ((p.eval 1).outcome t).2.localValue? 0 "x" = some (.object 0) := by decide +kernel
  exact ⟨hagree, hdiffer, hwrong, (hsame s t hagree).1, hvalue, hconfined t⟩

end Scriptlet
