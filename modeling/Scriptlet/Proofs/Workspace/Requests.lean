import Scriptlet.Proofs.Workspace.History

/-!
# What a request can do

A request opens a scope, makes a handle refer to a scope, forgets a handle, runs a phrase, gives
fresh content to a name or to a property, or does nothing but answer.  `Workspace.Change` lists
these, and `Workspace.change_exec` says that there is nothing else.  What is to be shown of every
request is shown for each of them.
-/

namespace Scriptlet

namespace Workspace

/-- What a request can do to a workspace. -/
inductive Change (w : Workspace) : Workspace → Prop where
  /-- Nothing. -/
  | nothing : Change w w
  /-- It opens a scope with no names, or with those of a global scope, and gives it a handle. -/
  | opens {scope : Scope} (target : String) :
    scope.bindings = .empty ∨ scope.bindings = .ofList Store.globals →
    Change w (w.opened (w.store.openScope scope) target).2
  /-- It makes a handle refer to a scope. -/
  | points (name : String) (e : ScopeId) : Change w (w.point name e)
  /-- It forgets a handle. -/
  | drops (name : String) : Change w (w.drop name)
  /-- It runs a phrase. -/
  | runs (e : ScopeId) (phrase : Phrase) :
    Change w { w with store := ((phrase.eval e).outcome w.store).2 }
  /-- It gives fresh content to a name. -/
  | writes (c : Content) {e : ScopeId} {v : Value} {objects : Objects} {s : Store} :
    c.build w.store.objects = (v, objects) →
    Store.Writes e v { w.store with objects := objects } s → Change w { w with store := s }
  /-- It gives fresh content to a property of an object that a name stands for. -/
  | inserts (c : Content) {e : ScopeId} {name : String} {id : ObjectId} (key : String) {v : Value}
      {objects : Objects} :
    w.store.lookup e name = .ok (.object id) → c.build w.store.objects = (v, objects) →
    Change w { w with store := { w.store with objects := objects.setProperty id key v } }

section Parts

variable {w : Workspace}

/-- A request on an unknown handle does nothing. -/
lemma change_withScope {name : String} {f : ScopeId → Answer × Workspace}
    (h : ∀ e, w.Change (f e).2) : w.Change (w.withScope name f).2 := by
  unfold withScope
  cases w.handles.get? name with
  | none => exact .nothing
  | some e => exact h e

/-- A request on the value of an unbound name does nothing. -/
lemma change_withValue {e : ScopeId} {name : String} {f : Value → Answer × Workspace}
    (h : ∀ v, w.store.lookup e name = .ok v → w.Change (f v).2) :
    w.Change (w.withValue e name f).2 := by
  unfold withValue
  cases hlookup : w.store.lookup e name with
  | ok v => exact h v hlookup
  | error err => exact .nothing

/-- Giving a handle is optional. -/
lemma change_point? (name : Option String) (e : ScopeId) : w.Change (w.point? name e) := by
  cases name with
  | none => exact .nothing
  | some name => exact .points name e

/-- A request that runs a phrase leaves the store of the run, also where it fails. -/
lemma change_valueAnswer_perform (e : ScopeId) (phrase : Phrase) :
    w.Change (w.valueAnswer (Script.perform (phrase.eval e) w.store)).2 := by
  have hruns := Change.runs (w := w) e phrase
  rw [Script.perform_eq]
  cases h : (phrase.eval e).outcome w.store with
  | mk r s =>
    rw [h] at hruns
    cases r <;> exact hruns

/-- A request that runs a text does nothing if the text cannot be parsed. -/
lemma change_valueAnswer_run (source : String) (e : ScopeId) :
    w.Change (w.valueAnswer (Script.run source e w.store)).2 := by
  unfold Script.run
  cases parse source with
  | error err => exact .nothing
  | ok p => exact change_valueAnswer_perform e (.program p)

/-- A write gives fresh content to a name, or is refused and does nothing. -/
lemma change_write {e : ScopeId} {f : Store → Value → Except RuntimeError Store}
    (h : ∀ s v t, f s v = .ok t → Store.Writes e v s t) (c : Content) :
    w.Change (w.write c f).2 := by
  unfold write
  cases hbuild : c.build w.store.objects with
  | mk v objects =>
    dsimp only
    cases hf : f { w.store with objects := objects } v with
    | error err => exact .nothing
    | ok s => exact .writes c hbuild (h _ v s hf)

/-- Setting a property changes an object that a name stands for, or does nothing. -/
lemma change_setProperty {e : ScopeId} {name : String} {v : Value}
    (h : w.store.lookup e name = .ok v) (key : String) (c : Content) :
    w.Change (w.setProperty v key c).2 := by
  cases v with
  | object id => exact .inserts c key h rfl
  | null => exact .nothing
  | bool b => exact .nothing
  | number x => exact .nothing

end Parts

/-- There is nothing else that a request can do. -/
lemma change_exec (w : Workspace) (c : Command) : w.Change (w.exec c).2 := by
  cases c with
  | openRoot target => exact .opens target (.inl rfl)
  | openGlobal target => exact .opens target (.inr rfl)
  | openChild env target => exact change_withScope fun e => .opens target (.inl rfl)
  | share env target => exact change_withScope fun e => .points target e
  | drop env => exact .drops env
  | parent env target =>
    refine change_withScope fun e => ?_
    cases w.store.parent? e with
    | none => exact .nothing
    | some p => exact change_point? target p
  | resolve env name target =>
    refine change_withScope fun e => ?_
    cases w.store.resolve e name with
    | error err => exact .nothing
    | ok owner => exact change_point? target owner
  | same env other => exact change_withScope fun _ => change_withScope fun _ => .nothing
  | bindsLocally env name => exact change_withScope fun _ => .nothing
  | isConstant env name => exact change_withScope fun _ => .nothing
  | declare env name value constant =>
    exact change_withScope fun e => change_write (e := e) (fun _ _ _ => .declare) value
  | assign env name value =>
    exact change_withScope fun e => change_write (e := e) (fun _ _ _ => .assign) value
  | lookup env name => exact change_withScope fun _ => change_withValue fun _ _ => .nothing
  | run env source => exact change_withScope fun e => change_valueAnswer_run source e
  | evaluate env phrase => exact change_withScope fun e => change_valueAnswer_perform e phrase
  | setProperty env name key value =>
    exact change_withScope fun _ => change_withValue fun _ hv => change_setProperty hv key value
  | equal leftEnv leftName rightEnv rightName =>
    exact change_withScope fun _ => change_withScope fun _ => change_withValue fun _ _ =>
      change_withValue fun _ _ => .nothing

end Workspace

end Scriptlet
