import Scriptlet.Script

/-!
# Workspaces

A `Workspace` is a store whose scopes are held by named handles.  A scope stays open as long as a
handle refers to it; the last handle that is dropped, or made to refer to another scope, closes it.
A scope does not hold the scopes around it.

A `Command` is one request to a workspace, and `Workspace.exec` answers it.
-/

namespace Scriptlet

/-- A store, and handles on its scopes. -/
structure Workspace where
  /-- The scopes by the names of their handles. -/
  handles : Table ScopeId
  /-- The store. -/
  store : Store

/-- A request to a workspace.  `env` is the name of the handle it is about, and `target` the name of
the handle that is to refer to the scope it finds or opens. -/
inductive Command where
  /-- Opens an empty scope. -/
  | openRoot (target : String)
  /-- Opens a global scope. -/
  | openGlobal (target : String)
  /-- Opens a scope inside that of `env`. -/
  | openChild (env target : String)
  /-- Makes another handle on the scope of `env`. -/
  | share (env target : String)
  /-- Forgets a handle. -/
  | drop (env : String)
  /-- Finds the scope right around that of `env`. -/
  | parent (env : String) (target : Option String)
  /-- Finds the scope that binds a name. -/
  | resolve (env name : String) (target : Option String)
  /-- Asks whether two handles refer to one scope. -/
  | same (env other : String)
  /-- Asks whether the scope itself binds a name. -/
  | bindsLocally (env name : String)
  /-- Asks whether a name is a constant. -/
  | isConstant (env name : String)
  /-- Declares a name with fresh content. -/
  | declare (env name : String) (value : Content) (constant : Bool)
  /-- Assigns fresh content to a name. -/
  | assign (env name : String) (value : Content)
  /-- Asks for the value of a name. -/
  | lookup (env name : String)
  /-- Runs a source text. -/
  | run (env source : String)
  /-- Runs a phrase. -/
  | evaluate (env : String) (phrase : Phrase)
  /-- Sets a property of the object that a name stands for, to fresh content. -/
  | setProperty (env name key : String) (value : Content)
  /-- Asks whether the values of two names are equal. -/
  | equal (leftEnv leftName rightEnv rightName : String)

/-- What a workspace answers. -/
inductive Answer where
  /-- A scope, by the sorted names of the handles that refer to it. -/
  | scope (handles : List String)
  /-- There is no such scope. -/
  | noScope
  /-- Yes or no. -/
  | truth (value : Bool)
  /-- A value. -/
  | value (content : Content)
  /-- What stands under the name is no object, but has this text. -/
  | notObject (text : String)
  /-- The request went wrong. -/
  | failure (error : Error)
  /-- There is no handle of this name. -/
  | unknownHandle (name : String)

namespace Workspace

/-- The workspace without scopes. -/
def empty : Workspace := ⟨.empty, .empty⟩

/-! ## Handles -/

/-- Whether some handle refers to a scope. -/
def holds (w : Workspace) (e : ScopeId) : Bool :=
  w.handles.entries.any fun h => h.2 == e

/-- The sorted names of the handles that refer to a scope. -/
def handlesOf (w : Workspace) (e : ScopeId) : List String :=
  ((w.handles.entries.filter fun h => h.2 == e).map Prod.fst).mergeSort

/-- Closes a scope unless some handle refers to it. -/
def release (w : Workspace) (e : ScopeId) : Workspace :=
  if w.holds e then w else { w with store := w.store.closeScope e }

/-- Makes a handle refer to a scope; the scope that it referred to before is released. -/
def point (w : Workspace) (name : String) (e : ScopeId) : Workspace :=
  let pointed : Workspace := { w with handles := w.handles.insert name e }
  match w.handles.get? name with
  | none => pointed
  | some old => pointed.release old

/-- Makes a handle refer to a scope, if a name for it is given. -/
def point? (w : Workspace) (name : Option String) (e : ScopeId) : Workspace :=
  match name with
  | none => w
  | some name => w.point name e

/-- Forgets a handle and releases its scope. -/
def drop (w : Workspace) (name : String) : Workspace :=
  match w.handles.get? name with
  | none => w
  | some old => ({ w with handles := w.handles.erase name } : Workspace).release old

/-! ## Answers -/

/-- The answer that a scope was found. -/
def scopeAnswer (w : Workspace) (e : ScopeId) : Answer × Workspace :=
  (.scope (w.handlesOf e), w)

/-- Opens a scope and lets a handle refer to it. -/
def opened (w : Workspace) (store : Store) (target : String) : Answer × Workspace :=
  (({ w with store := store } : Workspace).point target w.store.nextScope).scopeAnswer
    w.store.nextScope

/-- The answer to a request for a value, with the store that is left. -/
def valueAnswer (w : Workspace) (r : Script.Result Value) : Answer × Workspace :=
  match r with
  | (.ok v, store) => (.value (store.objects.content v), { w with store := store })
  | (.error err, store) => (.failure err, { w with store := store })

/-- Builds fresh content and hands it to a writing operation, whose value it is.  If that fails,
nothing was built. -/
def write (w : Workspace) (c : Content)
    (f : Store → Value → Except RuntimeError Store) : Answer × Workspace :=
  let (v, objects) := c.build w.store.objects
  match f { w.store with objects := objects } v with
  | .ok store => (.value (store.objects.content v), { w with store := store })
  | .error err => (.failure (.runtime err), w)

/-- Does something with the scope of a handle. -/
def withScope (w : Workspace) (name : String) (f : ScopeId → Answer × Workspace) :
    Answer × Workspace :=
  match w.handles.get? name with
  | some e => f e
  | none => (.unknownHandle name, w)

/-- Does something with the value of a name, seen from a scope. -/
def withValue (w : Workspace) (e : ScopeId) (name : String) (f : Value → Answer × Workspace) :
    Answer × Workspace :=
  match w.store.lookup e name with
  | .ok v => f v
  | .error err => (.failure (.runtime err), w)

/-- Sets a property of an object to fresh content; a value that is no object stays as it is. -/
def setProperty (w : Workspace) (v : Value) (key : String) (c : Content) : Answer × Workspace :=
  match v with
  | .object id =>
    let (property, objects) := c.build w.store.objects
    let objects := objects.setProperty id key property
    (.value (objects.content v), { w with store := { w.store with objects := objects } })
  | _ => (.notObject (w.store.objects.text v), w)

/-- Answers a request. -/
def exec (w : Workspace) : Command → Answer × Workspace
  | .openRoot target => w.opened w.store.openRoot target
  | .openGlobal target => w.opened w.store.openGlobal target
  | .openChild env target => w.withScope env fun e => w.opened (w.store.openChild e) target
  | .share env target => w.withScope env fun e => (w.point target e).scopeAnswer e
  | .drop env => (.truth (w.handles.contains env), w.drop env)
  | .parent env target => w.withScope env fun e =>
    match w.store.parent? e with
    | none => (.noScope, w)
    | some p => (w.point? target p).scopeAnswer p
  | .resolve env name target => w.withScope env fun e =>
    match w.store.resolve e name with
    | .error err => (.failure (.runtime err), w)
    | .ok owner => (w.point? target owner).scopeAnswer owner
  | .same env other => w.withScope env fun e => w.withScope other fun o => (.truth (e == o), w)
  | .bindsLocally env name => w.withScope env fun e => (.truth (w.store.bindsLocally e name), w)
  | .isConstant env name => w.withScope env fun e => (.truth (w.store.isConstant e name), w)
  | .declare env name value constant => w.withScope env fun e =>
    w.write value fun s v => s.declare e name v constant
  | .assign env name value => w.withScope env fun e => w.write value fun s v => s.assign e name v
  | .lookup env name => w.withScope env fun e => w.withValue e name fun v =>
    (.value (w.store.objects.content v), w)
  | .run env source => w.withScope env fun e => w.valueAnswer (Script.run source e w.store)
  | .evaluate env phrase => w.withScope env fun e =>
    w.valueAnswer (Script.perform (phrase.eval e) w.store)
  | .setProperty env name key value => w.withScope env fun e => w.withValue e name fun v =>
    w.setProperty v key value
  | .equal leftEnv leftName rightEnv rightName =>
    w.withScope leftEnv fun l => w.withScope rightEnv fun r =>
      w.withValue l leftName fun v => w.withValue r rightName fun u =>
        (.truth (w.store.objects.equal v u), w)

/-- Answers requests one after the other. -/
def execAll (w : Workspace) : List Command → List Answer × Workspace
  | [] => ([], w)
  | c :: cs =>
    let (a, w) := w.exec c
    let (as, w) := w.execAll cs
    (a :: as, w)

end Workspace

end Scriptlet
