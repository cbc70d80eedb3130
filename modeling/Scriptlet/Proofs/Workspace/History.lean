import Mathlib.Tactic.ByContra
import Scriptlet.Proofs.Eval.Congruence
import Scriptlet.Proofs.Store.Scopes
import Scriptlet.Workspace

/-!
# The history of a workspace

A workspace starts out empty, and then requests are answered one after the other.  Whatever they
are, and also if programs go wrong half way, the store stays well scoped, handles refer to open
scopes, and a scope keeps what it has bound as long as it is open: no name is unbound, no constant
gets another value, and no variable becomes a constant.

`Workspace.Leads w w'` is the invariant of one step: if `w` is in order, so is `w'`, and the store
of `w'` keeps what that of `w` binds.  There is one lemma for each of the operations of which
requests are made, then one for requests, and then those for whole sessions.  A session may also
bind values that exist already, which no request does: this is what programs do while they run, so
that what is said of declarations holds from the moment at which a program makes them.
-/

namespace Scriptlet

open Relation

/-! ## Runs as series of effects -/

namespace Eval

variable {α β : Type} {e : ScopeId}

/-- A computation changes the store by effects in the scope `e` only, whether it goes well or
not. -/
def Effective (e : ScopeId) (x : Eval α) : Prop :=
  ∀ s, ReflTransGen (Store.Effect e) s (x.outcome s).2

/-- A change that can only be an effect is effective, also where it fails. -/
lemma effective_change {f : Store → Except RuntimeError Store}
    (h : ∀ s t, f s = .ok t → Store.Effect e s t) : Effective e (change f) := by
  intro s
  rw [outcome_change]
  cases hf : f s with
  | ok t => exact .single (h s t hf)
  | error err => exact .refl

/-- A sequence of effective computations is effective. -/
lemma Effective.bind {x : Eval α} {f : α → Eval β} (hx : Effective e x)
    (hf : ∀ a, Effective e (f a)) : Effective e (x >>= f) := by
  intro s
  have hfirst := hx s
  rw [outcome_bind]
  cases hout : x.outcome s with
  | mk r t =>
    rw [hout] at hfirst
    cases r with
    | ok a => exact hfirst.trans (hf a t)
    | error err => exact hfirst

/-- All steps of a program that runs in a scope are effective there. -/
lemma congruent_effective (e : ScopeId) : Congruent (fun x _ => Effective e x) e e where
  pure _ _ _ := .refl
  throw _ _ := .refl
  lookup _ _ := .refl
  assign _ _ _ := effective_change fun _ _ => .assign
  declare _ _ _ _ := effective_change fun _ _ => .declare
  newObject properties _ s := .single (.objects s (s.objects.push properties))
  bind hx hf := hx.bind fun a => hf a a

/-- Performing an effective computation is a series of effects. -/
lemma Effective.perform {x : Eval α} (hx : Effective e x) (s : Store) :
    ReflTransGen (Store.Effect e) s (Script.perform x s).2 := by
  have hout := hx s
  rw [Script.perform_eq]
  cases h : x.outcome s with
  | mk r t =>
    rw [h] at hout
    cases r <;> exact hout

end Eval

/-- Running a source text is a series of effects. -/
lemma Script.effects_run (source : String) (e : ScopeId) (s : Store) :
    ReflTransGen (Store.Effect e) s (Script.run source e s).2 := by
  unfold Script.run
  cases parse source with
  | error err => exact .refl
  | ok p => exact ((Eval.congruent_effective e).program p).perform s

namespace Workspace

/-! ## Invariants of handles and scopes -/

/-- The scopes and the handles of a workspace are in order. -/
structure Sound (w : Workspace) : Prop where
  /-- The store is well scoped. -/
  wellScoped : w.store.WellScoped
  /-- Handles refer to open scopes. -/
  isOpen : ∀ name e, w.handles.get? name = some e → w.store.isOpen e

/-- The empty workspace is in order. -/
lemma sound_empty : empty.Sound := ⟨Store.wellScoped_empty, nofun⟩

/-- From a workspace that is in order one comes to `w'`, which is in order, too, and keeps what is
bound. -/
def Leads (w w' : Workspace) : Prop := w.Sound → w'.Sound ∧ w.store.Keeps w'.store

/-- Doing nothing keeps a workspace in order. -/
lemma Leads.refl (w : Workspace) : w.Leads w := fun hw => ⟨hw, .refl _⟩

/-- Two steps that keep a workspace in order do so together. -/
lemma Leads.trans {w₁ w₂ w₃ : Workspace} (h₁₂ : w₁.Leads w₂) (h₂₃ : w₂.Leads w₃) :
    w₁.Leads w₃ := by
  intro hw₁
  obtain ⟨hw₂, hkeeps⟩ := h₁₂ hw₁
  obtain ⟨hw₃, hkeeps'⟩ := h₂₃ hw₂
  exact ⟨hw₃, hkeeps.trans hkeeps'⟩

/-- Effects in the store keep the workspace in order, for they close no scope. -/
lemma leads_of_effects {w : Workspace} {e : ScopeId} {s : Store}
    (h : ReflTransGen (Store.Effect e) w.store s) : w.Leads { w with store := s } := by
  refine fun hw => ⟨⟨hw.wellScoped.of_effects h, fun name i hi => ?_⟩, Store.keeps_of_effects h⟩
  change s.isOpen i
  rw [Store.isOpen_eq_of_effects h]
  exact hw.isOpen name i hi

/-! ## Handles -/

/-- A scope that a handle refers to is held. -/
lemma holds_of_get? {w : Workspace} {name : String} {e : ScopeId}
    (h : w.handles.get? name = some e) : w.holds e := by
  obtain ⟨before, after, hentries, -⟩ := List.lookup_eq_some_iff.1 h
  rw [holds, hentries, List.any_append, List.any_cons, beq_self_eq_true, Bool.true_or, Bool.or_true]

/-- Releasing a scope keeps the workspace in order: it is closed only if no handle refers to it. -/
lemma leads_release (w : Workspace) (e : ScopeId) : w.Leads (w.release e) := by
  unfold release
  by_cases hheld : w.holds e
  · rw [if_pos hheld]
    exact Leads.refl w
  · rw [if_neg hheld]
    refine fun hw => ⟨⟨hw.wellScoped.closeScope e, fun name i hi => ?_⟩, Store.keeps_closeScope ..⟩
    refine (Store.isOpen_closeScope_iff ..).2 ⟨?_, hw.isOpen name i hi⟩
    rintro rfl
    exact hheld (holds_of_get? hi)

/-- Making a handle refer to an open scope keeps the workspace in order. -/
lemma leads_point {w : Workspace} {e : ScopeId} (he : w.store.isOpen e) (name : String) :
    w.Leads (w.point name e) := by
  have hpointed : w.Leads { w with handles := w.handles.insert name e } := by
    refine fun hw => ⟨⟨hw.wellScoped, fun n i hi => ?_⟩, .refl _⟩
    rw [Table.get?_insert] at hi
    by_cases hn : n = name
    · rw [if_pos hn, Option.some.injEq] at hi
      exact hi ▸ he
    · rw [if_neg hn] at hi
      exact hw.isOpen n i hi
  unfold point
  cases w.handles.get? name with
  | none => exact hpointed
  | some old => exact hpointed.trans (leads_release _ old)

/-- Giving an open scope a handle, or none, keeps the workspace in order. -/
lemma leads_point? {w : Workspace} {e : ScopeId} (he : w.store.isOpen e) (name : Option String) :
    w.Leads (w.point? name e) := by
  cases name with
  | none => exact Leads.refl w
  | some name => exact leads_point he name

/-- Forgetting a handle keeps the workspace in order. -/
lemma leads_drop (w : Workspace) (name : String) : w.Leads (w.drop name) := by
  have herased : w.Leads { w with handles := w.handles.erase name } := by
    refine fun hw => ⟨⟨hw.wellScoped, fun n i hi => ?_⟩, .refl _⟩
    rw [Table.get?_erase] at hi
    by_cases hn : n = name
    · rw [if_pos hn] at hi
      cases hi
    · rw [if_neg hn] at hi
      exact hw.isOpen n i hi
  unfold drop
  cases w.handles.get? name with
  | none => exact Leads.refl w
  | some old => exact herased.trans (leads_release _ old)

/-! ## Answers -/

/-- Opening a scope keeps a workspace in order if it keeps its store well scoped. -/
lemma leads_openScope {w : Workspace} {scope : Scope}
    (h : w.Sound → (w.store.openScope scope).WellScoped) :
    w.Leads { w with store := w.store.openScope scope } := by
  refine fun hw => ⟨⟨h hw, fun name i hi => ?_⟩, Store.keeps_openScope ..⟩
  change (w.store.openScope scope).isOpen i
  rw [Store.isOpen_openScope, hw.isOpen name i hi, Bool.or_true]

/-- A scope that was just opened gets a handle. -/
lemma leads_opened_of_openScope (w : Workspace) (scope : Scope) (target : String) :
    Leads { w with store := w.store.openScope scope }
      (w.opened (w.store.openScope scope) target).2 :=
  leads_point (w := { w with store := w.store.openScope scope })
    (Store.isOpen_openScope_nextScope ..) target

/-- Opening a scope and giving it a handle keeps the workspace in order. -/
lemma leads_opened {w : Workspace} {scope : Scope}
    (h : w.Sound → (w.store.openScope scope).WellScoped) (target : String) :
    w.Leads (w.opened (w.store.openScope scope) target).2 :=
  (leads_openScope h).trans (leads_opened_of_openScope w scope target)

/-- A request on a scope has to be followed up for open scopes only. -/
lemma leads_withScope {w : Workspace} {name : String} {f : ScopeId → Answer × Workspace}
    (h : ∀ e, w.store.isOpen e → w.Leads (f e).2) : w.Leads (w.withScope name f).2 := by
  intro hw
  unfold withScope
  cases he : w.handles.get? name with
  | none => exact ⟨hw, .refl _⟩
  | some e => exact h e (hw.isOpen name e he) hw

/-- A request on the value of a name may be followed up value by value. -/
lemma leads_withValue {w : Workspace} {e : ScopeId} {name : String}
    {f : Value → Answer × Workspace} (h : ∀ v, w.Leads (f v).2) :
    w.Leads (w.withValue e name f).2 := by
  unfold withValue
  cases w.store.lookup e name with
  | ok v => exact h v
  | error err => exact Leads.refl w

/-- A run whose effects are in one scope keeps the workspace in order, whatever it answers. -/
lemma leads_valueAnswer {w : Workspace} {e : ScopeId} {r : Script.Result Value}
    (h : ReflTransGen (Store.Effect e) w.store r.2) : w.Leads (w.valueAnswer r).2 := by
  obtain ⟨v | err, s⟩ := r
  · exact leads_of_effects h
  · exact leads_of_effects h

/-- Giving content to a name keeps the workspace in order: it is built, and then there is one
effect. -/
lemma leads_write {w : Workspace} {e : ScopeId} {f : Store → Value → Except RuntimeError Store}
    (h : ∀ s v t, f s v = .ok t → Store.Effect e s t) (c : Content) :
    w.Leads (w.write c f).2 := by
  unfold write
  cases c.build w.store.objects with
  | mk v objects =>
    dsimp only
    cases hf : f { w.store with objects := objects } v with
    | error err => exact Leads.refl w
    | ok s => exact leads_of_effects (.head (.objects _ objects) (.single (h _ v s hf)))

/-- Setting a property of an object keeps the workspace in order: it touches no scope. -/
lemma leads_setProperty (w : Workspace) (v : Value) (key : String) (c : Content) :
    w.Leads (w.setProperty v key c).2 := by
  cases v with
  | object id => exact leads_of_effects (.single (.objects (e := 0) w.store _))
  | null => exact Leads.refl w
  | bool b => exact Leads.refl w
  | number x => exact Leads.refl w

/-! ## Requests -/

/-- A request, whatever the answer is. -/
lemma leads_exec (w : Workspace) (c : Command) : w.Leads (w.exec c).2 := by
  cases c with
  | openRoot target =>
    exact leads_opened (fun hw => hw.wellScoped.openScope (by simp) (by simp)) target
  | openGlobal target => exact leads_opened (fun hw => hw.wellScoped.openGlobal) target
  | openChild env target =>
    refine leads_withScope fun e he => leads_opened (fun hw => ?_) target
    refine hw.wellScoped.openScope (by simp) fun p path hpath => ?_
    cases hpath
    exact ⟨he, rfl⟩
  | share env target => exact leads_withScope fun e he => leads_point he target
  | drop env => exact leads_drop w env
  | parent env target =>
    refine leads_withScope fun e _ => ?_
    cases hp : w.store.parent? e with
    | none => exact Leads.refl w
    | some p => exact leads_point? (Option.mem_filter_iff.1 hp).2 target
  | resolve env name target =>
    refine leads_withScope fun e _ => ?_
    unfold Store.resolve
    cases howner : w.store.resolve? e name with
    | none => exact Leads.refl w
    | some owner =>
      have hopen := Store.isOpen_of_bindsLocally (Store.bindsLocally_of_resolve? howner)
      exact leads_point? hopen target
  | same env other => exact leads_withScope fun _ _ => leads_withScope fun _ _ => Leads.refl w
  | bindsLocally env name => exact leads_withScope fun _ _ => Leads.refl w
  | isConstant env name => exact leads_withScope fun _ _ => Leads.refl w
  | declare env name value constant =>
    exact leads_withScope fun e _ => leads_write (e := e) (fun _ _ _ => .declare) value
  | assign env name value =>
    exact leads_withScope fun e _ => leads_write (e := e) (fun _ _ _ => .assign) value
  | lookup env name =>
    exact leads_withScope fun _ _ => leads_withValue fun _ => Leads.refl w
  | run env source =>
    exact leads_withScope fun e _ => leads_valueAnswer (Script.effects_run source e w.store)
  | evaluate env phrase =>
    exact leads_withScope fun e _ =>
      leads_valueAnswer (((Eval.congruent_effective e).phrase phrase).perform w.store)
  | setProperty env name key value =>
    exact leads_withScope fun _ _ => leads_withValue fun v => leads_setProperty w v key value
  | equal leftEnv leftName rightEnv rightName =>
    exact leads_withScope fun _ _ => leads_withScope fun _ _ => leads_withValue fun _ =>
      leads_withValue fun _ => Leads.refl w

/-! ## Sessions -/

/-- What can happen to a workspace: a request is answered, or something is done to the scope of a
handle directly, for instance a value that exists already is bound there. -/
inductive Step : Workspace → Workspace → Prop where
  /-- A request is answered. -/
  | exec (w : Workspace) (c : Command) : Step w (w.exec c).2
  /-- A name is declared or assigned to, or objects are changed. -/
  | effect {w : Workspace} {env : String} {e : ScopeId} {s : Store} :
    w.handles.get? env = some e → Store.Effect e w.store s → Step w { w with store := s }

/-- Any number of things happen to a workspace, one after the other. -/
def Session : Workspace → Workspace → Prop := ReflTransGen Step

/-- One step of a session keeps the workspace in order, whatever the request. -/
lemma Step.leads {w w' : Workspace} (h : Step w w') : w.Leads w' := by
  cases h with
  | exec c => exact leads_exec w c
  | effect _ heffect => exact leads_of_effects (.single heffect)

/-- A whole session keeps the workspace in order. -/
lemma Session.leads {w w' : Workspace} (h : Session w w') : w.Leads w' := by
  induction h with
  | refl => exact Leads.refl w
  | tail _ hstep ih => exact ih.trans hstep.leads

/-- Requests in a row are a session. -/
lemma session_execAll (w : Workspace) (cs : List Command) : Session w (w.execAll cs).2 := by
  induction cs generalizing w with
  | nil => exact .refl
  | cons c cs ih => exact .head (.exec w c) (ih (w.exec c).2)

/-- A declaration gives a name in the scope `e` its value. -/
inductive Declares (e : ScopeId) (name : String) (v : Value) (constant : Bool) :
    Store → Store → Prop where
  /-- It is made directly. -/
  | direct {s t : Store} : s.declare e name v constant = .ok t → Declares e name v constant s t
  /-- It is a statement of a program. -/
  | statement {s t : Store} (value : Option Expr) :
    ((Statement.declaration name constant value).eval e).outcome s = (.ok v, t) →
    Declares e name v constant s t

/-- A declaration as a statement first computes the value, and then declares the name. -/
lemma Declares.exists_declare {e : ScopeId} {name : String} {v : Value} {constant : Bool}
    {s t : Store} (h : Declares e name v constant s t) :
    ∃ mid, ReflTransGen (Store.Effect e) s mid ∧ mid.declare e name v constant = .ok t := by
  cases h with
  | direct h => exact ⟨s, .refl, h⟩
  | statement value h =>
    have hbind : ∀ x : Eval Value, Eval.Effective e x →
        (x >>= fun v => do Eval.change fun s => s.declare e name v constant; pure v).outcome s =
          (.ok v, t) →
        ∃ mid, ReflTransGen (Store.Effect e) s mid ∧ mid.declare e name v constant = .ok t := by
      intro x hx hout
      obtain ⟨mid, hvalue, hdeclare⟩ := Eval.outcome_bind_change_eq_ok hout
      have hmid := hx s
      rw [hvalue] at hmid
      exact ⟨mid, hmid, hdeclare⟩
    cases value with
    | none => exact hbind _ (fun _ => .refl) h
    | some x => exact hbind _ ((Eval.congruent_effective e).expr x) h

/-- What was declared once is bound for ever, as a constant or as a variable, and as a constant with
its first value. -/
lemma Session.keeps_declared {w w' : Workspace} (hw : w.Sound) {env : String} {e : ScopeId}
    {name : String} {v : Value} {constant : Bool} {s : Store} (henv : w.handles.get? env = some e)
    (h : Declares e name v constant w.store s) (hsession : Session { w with store := s } w')
    (hopen : w'.store.isOpen e) :
    w'.store.bindsLocally e name ∧ w'.store.holdsConstant e name = constant ∧
      (constant → w'.store.localValue? e name = some v) := by
  obtain ⟨mid, heffects, hdeclare⟩ := h.exists_declare
  have hmid : mid.isOpen e := by
    rw [Store.isOpen_eq_of_effects heffects]
    exact hw.isOpen env e henv
  obtain ⟨hvalue, hconst⟩ :=
    Store.declared_of_declare (hw.wellScoped.of_effects heffects) hmid hdeclare
  obtain ⟨hw', -⟩ := leads_of_effects (heffects.tail (.declare hdeclare)) hw
  obtain ⟨-, hkeeps⟩ := hsession.leads hw'
  have hbound : s.bindsLocally e name := by
    rw [Store.bindsLocally, hvalue]
    rfl
  refine ⟨hkeeps.binds e name hopen hbound, ?_, fun hconstant => ?_⟩
  · rw [hkeeps.constant e name hopen hbound]
    exact hconst
  · rw [hkeeps.value e name hopen hbound (hconst.trans hconstant)]
    exact hvalue

/-- A global scope has its constants for ever. -/
lemma Session.keeps_globals {w w' : Workspace} (hw : w.Sound) {target : String}
    (hsession : Session (w.exec (.openGlobal target)).2 w')
    (hopen : w'.store.isOpen w.store.nextScope) {name : String} {v : Value}
    (hglobal : (name, v) ∈ Store.globals) :
    w'.store.lookup w.store.nextScope name = .ok v ∧
      w'.store.isConstant w.store.nextScope name := by
  have hopened : Sound { w with store := w.store.openGlobal } :=
    (leads_openScope (fun hw => hw.wellScoped.openGlobal) hw).1
  have hleads : Leads { w with store := w.store.openGlobal } w' :=
    (leads_opened_of_openScope w _ target).trans hsession.leads
  obtain ⟨hw', hkeeps⟩ := hleads hopened
  obtain ⟨hvalue, hconst⟩ := Store.openGlobal_of_mem w.store hglobal
  have hbound : w.store.openGlobal.bindsLocally w.store.nextScope name := by
    rw [Store.bindsLocally, hvalue]
    rfl
  have hresolve : w'.store.resolve? w.store.nextScope name = some w.store.nextScope := by
    rw [hw'.wellScoped.resolve?_eq hopen, if_pos (hkeeps.binds _ _ hopen hbound)]
  constructor
  · have hvalue' := (hkeeps.value _ _ hopen hbound hconst).trans hvalue
    rw [Store.lookup, hresolve, Option.bind_some, hvalue']
  · rw [Store.isConstant, hresolve, Option.any_some, hkeeps.constant _ _ hopen hbound]
    exact hconst

/-- Whatever has happened to a workspace, its scopes bind what they hold constant, no chain of links
between them runs in a circle, and names are looked for along these links.  And whatever happens
then, what is bound in a scope stays bound as long as the scope is open; what was declared as a
constant stays a constant, with the value it was declared with, and what was declared as a variable
never becomes one.  In global scopes the constants that they start with keep their values. -/
theorem session_keeps_scopes (w : Workspace) (hw : Session .empty w) :
    (∀ e name, w.store.holdsConstant e name → w.store.bindsLocally e name) ∧
    (WellFounded fun p e => (w.store.enclosing e).head? = some p) ∧
    (∀ e name, w.store.isOpen e → w.store.resolve? e name =
      if w.store.bindsLocally e name then some e
      else (w.store.parent? e).bind fun p => w.store.resolve? p name) ∧
    (∀ w', Session w w' → w.store.Keeps w'.store) ∧
    (∀ env e name v constant s, w.handles.get? env = some e →
      Declares e name v constant w.store s → ∀ w', Session { w with store := s } w' →
      w'.store.isOpen e → w'.store.bindsLocally e name ∧ w'.store.holdsConstant e name = constant ∧
        (constant → w'.store.localValue? e name = some v)) ∧
    ∀ target w', Session (w.exec (.openGlobal target)).2 w' →
      w'.store.isOpen w.store.nextScope → ∀ name v, (name, v) ∈ Store.globals →
      w'.store.lookup w.store.nextScope name = .ok v ∧
        w'.store.isConstant w.store.nextScope name := by
  obtain ⟨hsound, -⟩ := hw.leads sound_empty
  refine ⟨hsound.wellScoped.constant_bound, hsound.wellScoped.wellFounded_enclosing,
    fun e name he => hsound.wellScoped.resolve?_eq he name, fun w' h => (h.leads hsound).2, ?_, ?_⟩
  · intro env e name v constant s henv hdeclares w' hsession hopen
    exact hsession.keeps_declared hsound henv hdeclares hopen
  · intro target w' hsession hopen name v hglobal
    exact hsession.keeps_globals hsound hopen hglobal

/-- A constant keeps its object also after a program that declared it, assigned to it and went wrong
there. -/
theorem session_keeps_scopes_after_failure :
    let w := (empty.execAll [.openGlobal "outer", .openChild "outer" "inner",
      .evaluate "inner" (.program ⟨[.declaration "x" true (some (.object [])),
        .expr (.assign (.name "x") .null), .declaration "y" false none]⟩), .drop "outer"]).2
    Session .empty w ∧ w.store.localValue? 1 "x" = some (.object 0) ∧
      ∀ w', Session w w' → w'.store.isOpen 1 → w'.store.localValue? 1 "x" = some (.object 0) := by
  intro w
  have hsession : Session .empty w := session_execAll _ _
  have hvalue : w.store.localValue? 1 "x" = some (.object 0) := by decide
  obtain ⟨-, -, -, hkeeps, -⟩ := session_keeps_scopes w hsession
  refine ⟨hsession, hvalue, fun w' hsession' hopen => ?_⟩
  rw [(hkeeps w' hsession').value 1 "x" hopen (by decide) (by decide), hvalue]

end Workspace

end Scriptlet
