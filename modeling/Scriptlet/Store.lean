import Scriptlet.Error
import Scriptlet.Value

/-!
# Scopes and the store

A `Store` holds all scopes and all objects there are.  A scope binds names to values, keeps a list
of the names that it holds constant, and was opened inside other scopes, its `enclosing` path,
nearest first.  The path is fixed when the scope is opened; but a scope on it may be closed later,
and then it and everything beyond it are out of reach.  `Store.reach` is the part of the path that
is left, and a name means what the nearest scope in reach that binds it says.

Reading operations give a value or an error; writing operations give a new store or an error, so
that an operation that fails leaves nothing behind.
-/

namespace Scriptlet

/-- The number of a scope in a store. -/
abbrev ScopeId := Nat

/-- A scope. -/
structure Scope where
  /-- The values of the names that are bound in it. -/
  bindings : Table Value
  /-- The names that keep their values for ever. -/
  constants : List String
  /-- The scopes around it when it was opened, nearest first. -/
  enclosing : List ScopeId

/-- All scopes and all objects. -/
structure Store where
  /-- The scopes. -/
  scopes : Heap Scope
  /-- The objects. -/
  objects : Objects

namespace Store

/-- The store in which nothing has happened. -/
def empty : Store := ⟨.empty, .empty⟩

/-! ## Reading -/

/-- Whether a scope is open. -/
def isOpen (s : Store) (e : ScopeId) : Bool := s.scopes.contains e

/-- The scopes around a scope when it was opened, nearest first. -/
def enclosing (s : Store) (e : ScopeId) : List ScopeId :=
  ((s.scopes.get? e).map Scope.enclosing).getD []

/-- The scopes in reach of a scope, itself first: a closed scope hides all beyond it. -/
def reach (s : Store) (e : ScopeId) : List ScopeId :=
  (e :: s.enclosing e).takeWhile s.isOpen

/-- The scope right around a scope, if it is still open. -/
def parent? (s : Store) (e : ScopeId) : Option ScopeId :=
  (s.enclosing e).head?.filter s.isOpen

/-- The value of a name in one scope. -/
def localValue? (s : Store) (e : ScopeId) (name : String) : Option Value :=
  (s.scopes.get? e).bind fun scope => scope.bindings.get? name

/-- Whether one scope binds a name. -/
def bindsLocally (s : Store) (e : ScopeId) (name : String) : Bool :=
  (s.localValue? e name).isSome

/-- Whether one scope holds a name constant. -/
def holdsConstant (s : Store) (e : ScopeId) (name : String) : Bool :=
  (s.scopes.get? e).any fun scope => scope.constants.contains name

/-- The nearest scope in reach that binds a name. -/
def resolve? (s : Store) (e : ScopeId) (name : String) : Option ScopeId :=
  (s.reach e).find? fun i => s.bindsLocally i name

/-- Whether a name is held constant by the scope that binds it. -/
def isConstant (s : Store) (e : ScopeId) (name : String) : Bool :=
  (s.resolve? e name).any fun owner => s.holdsConstant owner name

/-- The nearest scope in reach that binds a name, or the error that there is none. -/
def resolve (s : Store) (e : ScopeId) (name : String) : Except RuntimeError ScopeId :=
  match s.resolve? e name with
  | some owner => .ok owner
  | none => .error (.unbound name)

/-- The value of a name. -/
def lookup (s : Store) (e : ScopeId) (name : String) : Except RuntimeError Value :=
  match (s.resolve? e name).bind fun owner => s.localValue? owner name with
  | some v => .ok v
  | none => .error (.unbound name)

/-! ## Writing -/

/-- Changes a scope that is open. -/
def modifyScope (s : Store) (e : ScopeId) (f : Scope → Scope) : Store :=
  { s with scopes := s.scopes.modify e f }

/-- Binds a name in one scope, whatever it was bound to before. -/
def setValue (s : Store) (e : ScopeId) (name : String) (v : Value) : Store :=
  s.modifyScope e fun scope => { scope with bindings := scope.bindings.insert name v }

/-- Makes one scope hold a name constant. -/
def holdConstant (s : Store) (e : ScopeId) (name : String) : Store :=
  s.modifyScope e fun scope => { scope with constants := name :: scope.constants }

/-- Binds a new name in one scope.  The scopes around it do not matter. -/
def declare (s : Store) (e : ScopeId) (name : String) (value : Value) (constant : Bool) :
    Except RuntimeError Store :=
  if s.bindsLocally e name then .error (.alreadyBound name)
  else .ok ((if constant then s.holdConstant e name else s).setValue e name value)

/-- Gives a name a new value in the scope that binds it, unless it is a constant there. -/
def assign (s : Store) (e : ScopeId) (name : String) (value : Value) : Except RuntimeError Store :=
  match s.resolve? e name with
  | none => .error (.unbound name)
  | some owner =>
    if s.holdsConstant owner name then .error (.constantAssigned name)
    else .ok (s.setValue owner name value)

/-- Stores a new object.  Its number is the next one of the heap. -/
def addObject (s : Store) (properties : Table Value) : Store :=
  { s with objects := s.objects.push properties }

/-! ## Opening and closing scopes -/

/-- The number of the scope that is opened next. -/
def nextScope (s : Store) : ScopeId := s.scopes.next

/-- Opens a scope. -/
def openScope (s : Store) (scope : Scope) : Store :=
  { s with scopes := s.scopes.push scope }

/-- Opens an empty scope inside no other. -/
def openRoot (s : Store) : Store := s.openScope ⟨.empty, [], []⟩

/-- The constants that every global scope starts with. -/
def globals : List (String × Value) :=
  [("true", .bool true), ("false", .bool false), ("null", .null)]

/-- Opens a scope that holds the global constants. -/
def openGlobal (s : Store) : Store :=
  s.openScope ⟨.ofList globals, globals.map Prod.fst, []⟩

/-- Opens an empty scope inside the scope `e`. -/
def openChild (s : Store) (e : ScopeId) : Store :=
  s.openScope ⟨.empty, [], e :: s.enclosing e⟩

/-- Closes a scope. -/
def closeScope (s : Store) (e : ScopeId) : Store :=
  { s with scopes := s.scopes.free e }

/-! ## What the operations do to the scopes

All that is read of a scope is whether it is open, the path around it, the values in it and the
names that it holds constant. -/

/-- Only an open scope binds a name. -/
theorem isOpen_of_bindsLocally {s : Store} {e : ScopeId} {name : String}
    (h : s.bindsLocally e name) : s.isOpen e := by
  unfold bindsLocally localValue? at h
  unfold isOpen Heap.contains
  cases hget : s.scopes.get? e with
  | none =>
    rw [hget] at h
    cases h
  | some scope => rfl

/-- Only an open scope holds a name constant. -/
theorem isOpen_of_holdsConstant {s : Store} {e : ScopeId} {name : String}
    (h : s.holdsConstant e name) : s.isOpen e := by
  unfold holdsConstant at h
  unfold isOpen Heap.contains
  cases hget : s.scopes.get? e with
  | none =>
    rw [hget] at h
    cases h
  | some scope => rfl

/-- A closed scope has no path. -/
theorem enclosing_of_not_isOpen {s : Store} {e : ScopeId} (h : ¬ s.isOpen e) :
    s.enclosing e = [] := by
  unfold isOpen Heap.contains at h
  rw [enclosing, Option.not_isSome_iff_eq_none.1 h]
  rfl

/-- Only a scope that was handed out is open. -/
theorem lt_nextScope_of_isOpen {s : Store} {e : ScopeId} (h : s.isOpen e) : e < s.nextScope := by
  refine Nat.lt_of_not_le fun hle => ?_
  rw [isOpen, Heap.contains, s.scopes.get?_of_next_le hle] at h
  cases h

section ModifyScope

variable (s : Store) (e i : ScopeId) (f : Scope → Scope)

/-- Changing a scope opens none. -/
@[simp] theorem nextScope_modifyScope : (s.modifyScope e f).nextScope = s.nextScope :=
  Heap.next_modify ..

/-- Changing a scope leaves all other scopes as they are. -/
theorem get?_modifyScope :
    (s.modifyScope e f).scopes.get? i =
      if e = i then (s.scopes.get? i).map f else s.scopes.get? i :=
  Heap.get?_modify ..

/-- Changing a scope neither opens nor closes it. -/
@[simp] theorem isOpen_modifyScope : (s.modifyScope e f).isOpen i = s.isOpen i := by
  simp only [isOpen, Heap.contains, get?_modifyScope]
  split <;> simp

/-- A change that keeps the scopes around a scope keeps them in the store. -/
theorem enclosing_modifyScope (h : ∀ scope, (f scope).enclosing = scope.enclosing) :
    (s.modifyScope e f).enclosing i = s.enclosing i := by
  simp only [enclosing, get?_modifyScope]
  split
  · rw [Option.map_map, show Scope.enclosing ∘ f = Scope.enclosing from funext h]
  · rfl

end ModifyScope

section SetValue

variable (s : Store) (e i : ScopeId) (name n : String) (v : Value)

/-- Binding a name opens no scope. -/
@[simp] theorem nextScope_setValue : (s.setValue e name v).nextScope = s.nextScope :=
  nextScope_modifyScope ..

/-- Binding a name neither opens nor closes a scope. -/
@[simp] theorem isOpen_setValue : (s.setValue e name v).isOpen i = s.isOpen i :=
  isOpen_modifyScope ..

/-- Binding a name keeps the nesting of the scopes. -/
@[simp] theorem enclosing_setValue : (s.setValue e name v).enclosing i = s.enclosing i :=
  enclosing_modifyScope _ _ _ _ fun _ => rfl

/-- Binding a name makes no name a constant. -/
@[simp] theorem holdsConstant_setValue :
    (s.setValue e name v).holdsConstant i n = s.holdsConstant i n := by
  simp only [holdsConstant, setValue, get?_modifyScope]
  split
  · rw [Option.any_map]
  · rfl

/-- In an open scope the bound name has the new value; every other name keeps its own. -/
theorem localValue?_setValue :
    (s.setValue e name v).localValue? i n =
      if i = e ∧ n = name ∧ s.isOpen e then some v else s.localValue? i n := by
  have hopen : s.isOpen e = (s.scopes.get? e).isSome := rfl
  simp only [localValue?, setValue, get?_modifyScope]
  by_cases hi : e = i
  · subst hi
    cases hget : s.scopes.get? e with
    | none => simp [hopen, hget]
    | some scope => simp [hopen, hget, Table.get?_insert]
  · rw [if_neg hi, if_neg fun h => hi h.1.symm]

/-- An open scope binds the name it was given and the names it bound before. -/
theorem bindsLocally_setValue :
    (s.setValue e name v).bindsLocally i n =
      (decide (i = e ∧ n = name ∧ s.isOpen e) || s.bindsLocally i n) := by
  rw [bindsLocally, localValue?_setValue, bindsLocally]
  by_cases h : i = e ∧ n = name ∧ s.isOpen e
  · rw [if_pos h, decide_eq_true h, Option.isSome_some, Bool.true_or]
  · rw [if_neg h, decide_eq_false h, Bool.false_or]

end SetValue

section HoldConstant

variable (s : Store) (e i : ScopeId) (name n : String)

/-- Holding a name constant opens no scope. -/
@[simp] theorem nextScope_holdConstant : (s.holdConstant e name).nextScope = s.nextScope :=
  nextScope_modifyScope ..

/-- Holding a name constant neither opens nor closes a scope. -/
@[simp] theorem isOpen_holdConstant : (s.holdConstant e name).isOpen i = s.isOpen i :=
  isOpen_modifyScope ..

/-- Holding a name constant keeps the nesting of the scopes. -/
@[simp] theorem enclosing_holdConstant : (s.holdConstant e name).enclosing i = s.enclosing i :=
  enclosing_modifyScope _ _ _ _ fun _ => rfl

/-- Holding a name constant changes no value. -/
@[simp] theorem localValue?_holdConstant :
    (s.holdConstant e name).localValue? i n = s.localValue? i n := by
  simp only [localValue?, holdConstant, get?_modifyScope]
  split
  · rw [Option.bind_map]
    rfl
  · rfl

/-- Holding a name constant binds nothing. -/
@[simp] theorem bindsLocally_holdConstant :
    (s.holdConstant e name).bindsLocally i n = s.bindsLocally i n := by
  rw [bindsLocally, localValue?_holdConstant, bindsLocally]

/-- An open scope holds the named constant and those it held before. -/
theorem holdsConstant_holdConstant :
    (s.holdConstant e name).holdsConstant i n =
      (decide (i = e ∧ n = name ∧ s.isOpen e) || s.holdsConstant i n) := by
  have hopen : s.isOpen e = (s.scopes.get? e).isSome := rfl
  simp only [holdsConstant, holdConstant, get?_modifyScope]
  by_cases hi : e = i
  · subst hi
    cases hget : s.scopes.get? e with
    | none => simp [hopen, hget]
    | some scope => simp [hopen, hget]
  · rw [if_neg hi, decide_eq_false fun h => hi h.1.symm, Bool.false_or]

end HoldConstant

section OpenScope

variable (s : Store) (scope : Scope) (i : ScopeId) (n : String)

/-- Opening a scope hands out one number. -/
@[simp] theorem nextScope_openScope : (s.openScope scope).nextScope = s.nextScope + 1 :=
  Heap.next_push ..

/-- The scope that is opened gets the next number, and all others stay. -/
theorem get?_openScope :
    (s.openScope scope).scopes.get? i =
      if i = s.nextScope then some scope else s.scopes.get? i :=
  Heap.get?_push ..

/-- The scope that was opened is open, beside those that were. -/
theorem isOpen_openScope :
    (s.openScope scope).isOpen i = (decide (i = s.nextScope) || s.isOpen i) := by
  simp only [isOpen, Heap.contains, get?_openScope]
  by_cases hi : i = s.nextScope
  · simp [hi]
  · simp [hi]

/-- A new scope lies where it was put, and all others where they were. -/
theorem enclosing_openScope :
    (s.openScope scope).enclosing i =
      if i = s.nextScope then scope.enclosing else s.enclosing i := by
  simp only [enclosing, get?_openScope]
  by_cases hi : i = s.nextScope
  · simp [hi]
  · simp [hi]

/-- A new scope binds the names it came with, and all others what they did. -/
theorem localValue?_openScope :
    (s.openScope scope).localValue? i n =
      if i = s.nextScope then scope.bindings.get? n else s.localValue? i n := by
  simp only [localValue?, get?_openScope]
  by_cases hi : i = s.nextScope
  · simp [hi]
  · simp [hi]

/-- A new scope holds the constants it came with, and all others what they did. -/
theorem holdsConstant_openScope :
    (s.openScope scope).holdsConstant i n =
      if i = s.nextScope then scope.constants.contains n else s.holdsConstant i n := by
  simp only [holdsConstant, get?_openScope]
  by_cases hi : i = s.nextScope
  · simp [hi]
  · simp [hi]

end OpenScope

section CloseScope

variable (s : Store) (e i : ScopeId) (n : String)

/-- The number of a closed scope still counts as handed out. -/
@[simp] theorem nextScope_closeScope : (s.closeScope e).nextScope = s.nextScope :=
  Heap.next_free ..

/-- Closing a scope closes that scope and no other. -/
theorem isOpen_closeScope_iff : (s.closeScope e).isOpen i ↔ i ≠ e ∧ s.isOpen i := by
  simp only [isOpen, Heap.contains, closeScope, Heap.get?_free]
  by_cases hi : e = i
  · simp [hi]
  · simp [hi, Ne.symm hi]

/-- The other scopes stay where they are when one is closed. -/
theorem enclosing_closeScope_of_ne (h : i ≠ e) : (s.closeScope e).enclosing i = s.enclosing i := by
  simp only [enclosing, closeScope, Heap.get?_free, if_neg h.symm]

/-- The other scopes keep their values when one is closed. -/
theorem localValue?_closeScope_of_ne (h : i ≠ e) :
    (s.closeScope e).localValue? i n = s.localValue? i n := by
  simp only [localValue?, closeScope, Heap.get?_free, if_neg h.symm]

/-- The other scopes keep their constants when one is closed. -/
theorem holdsConstant_closeScope_of_ne (h : i ≠ e) :
    (s.closeScope e).holdsConstant i n = s.holdsConstant i n := by
  simp only [holdsConstant, closeScope, Heap.get?_free, if_neg h.symm]

end CloseScope

end Store

end Scriptlet
