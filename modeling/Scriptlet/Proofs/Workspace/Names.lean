import Scriptlet.Proofs.Store.Resolution
import Scriptlet.Proofs.Workspace.History

/-!
# Reading what was written

What a declaration or an assignment does is said by what can be read afterwards, from any scope and
for any name.  A declaration is seen from the scopes whose way for the name comes to the scope where
it is made; an assignment is seen from the scopes where the name means the same scope.  From all
other scopes, and for all other names, everything is read as before.  A declaration or an assignment
that fails changes nothing.
-/

namespace Scriptlet

open Relation

namespace Workspace

variable {w : Workspace} {env : String} {e : ScopeId}

/-- A request to write that fails, whatever the value is, leaves nothing behind. -/
lemma withScope_write_of_error {f : ScopeId → Store → Value → Except RuntimeError Store}
    {err : RuntimeError} (henv : w.handles.get? env = some e)
    (h : ∀ objects v, f e { w.store with objects := objects } v = .error err) (c : Content) :
    (w.withScope env fun e => w.write c (f e)) = (.failure (.runtime err), w) := by
  rw [withScope, henv]
  cases hbuild : c.build w.store.objects with
  | mk v objects =>
    have hfails := h objects v
    dsimp only at hfails ⊢
    rw [write, hbuild]
    dsimp only
    rw [hfails]

/-- Whatever has happened to a workspace, this is what is read after a name `n` was declared or
assigned to from the scope `e` of a handle, from a scope `e'` and for a name `m`.

A declaration is read, with its value and as the constant or variable it is, if `m` is `n` and the
way of `n` from `e'` comes to `e`; otherwise everything is read as before.  An assignment is read if
`m` is `n` and `n` means the same scope from `e'` as from `e`; otherwise all is read as before, and
nowhere is a name bound or made a constant.

A declaration fails exactly if `e` itself binds `n`, and an assignment exactly if `n` is not found
or is a constant.  Requests that fail so leave the workspace as it is. -/
theorem read_after_write (w : Workspace) (hw : Session .empty w) (env : String) (e : ScopeId)
    (henv : w.handles.get? env = some e) (e' : ScopeId) (n m : String) (v : Value)
    (constant : Bool) :
    (∀ t, w.store.declare e n v constant = .ok t →
      (m = n ∧ ReflTransGen (w.store.Onward n) e' e →
        t.lookup e' m = .ok v ∧ t.isConstant e' m = constant ∧ t.resolve e' m = .ok e) ∧
      (¬ (m = n ∧ ReflTransGen (w.store.Onward n) e' e) →
        t.lookup e' m = w.store.lookup e' m ∧ t.isConstant e' m = w.store.isConstant e' m ∧
          t.resolve e' m = w.store.resolve e' m)) ∧
    (∀ t, w.store.assign e n v = .ok t →
      (m = n ∧ w.store.resolve e' n = w.store.resolve e n → t.lookup e' m = .ok v) ∧
      (¬ (m = n ∧ w.store.resolve e' n = w.store.resolve e n) →
        t.lookup e' m = w.store.lookup e' m) ∧
      ∀ i k, t.bindsLocally i k = w.store.bindsLocally i k ∧
        t.isConstant i k = w.store.isConstant i k) ∧
    (∀ err, w.store.declare e n v constant = .error err ↔
      w.store.bindsLocally e n ∧ err = .alreadyBound n) ∧
    (w.store.assign e n v = .error (.unbound n) ↔ ∃ err, w.store.lookup e n = .error err) ∧
    (w.store.assign e n v = .error (.constantAssigned n) ↔ w.store.isConstant e n) ∧
    (∀ err, w.store.assign e n v = .error err → err = .unbound n ∨ err = .constantAssigned n) ∧
    (∀ err, w.store.declare e n v constant = .error err → ∀ content,
      w.exec (.declare env n content constant) = (.failure (.runtime err), w)) ∧
    ∀ err, w.store.assign e n v = .error err → ∀ content,
      w.exec (.assign env n content) = (.failure (.runtime err), w) := by
  obtain ⟨hsound, -⟩ := hw.leads sound_empty
  have hs := hsound.wellScoped
  have he := hsound.isOpen env e henv
  refine ⟨fun t ht => ⟨?_, fun hway => ?_⟩, fun t ht => ⟨?_, fun hsame => ?_, fun i k => ?_⟩,
    fun err => Store.declare_eq_error_iff, ?_, ?_, fun err herr => ?_, fun err herr content => ?_,
    fun err herr content => ?_⟩
  · rintro ⟨rfl, hway⟩
    obtain ⟨hvalue, hconst⟩ := Store.read_declare_of_onward hs he ht hway
    have hresolve := Store.resolve?_declare_of_onward hs he ht hway
    exact ⟨hvalue, hconst, Store.resolve_eq_ok_iff.2 hresolve⟩
  · obtain ⟨hvalue, hconst⟩ := Store.read_declare_of_not_onward hs he ht hway
    have hresolve := Store.resolve?_declare_of_not_onward hs he ht hway
    exact ⟨hvalue, hconst, by rw [Store.resolve, Store.resolve, hresolve]⟩
  · rintro ⟨rfl, hsame⟩
    exact hs.lookup_assign_of_eq ht (Store.resolve_eq_resolve_iff.1 hsame)
  · refine hs.lookup_assign_of_ne ht ?_
    rintro ⟨rfl, hresolve⟩
    exact hsame ⟨rfl, Store.resolve_eq_resolve_iff.2 hresolve⟩
  · exact ⟨Store.bindsLocally_assign ht i k, hs.isConstant_assign ht i k⟩
  · rw [Store.lookup_eq_error_iff, Store.assign_eq_error_iff]
    simp
  · rw [Store.assign_eq_error_iff]
    simp
  · rcases Store.assign_eq_error_iff.1 herr with ⟨-, h⟩ | ⟨-, h⟩
    · exact .inl h
    · exact .inr h
  · have hbound := Store.declare_eq_error_iff.1 herr
    exact withScope_write_of_error (f := fun e s v => s.declare e n v constant) henv
      (fun _ _ => Store.declare_eq_error_iff.2 hbound) content
  · have hnone := Store.assign_eq_error_iff.1 herr
    exact withScope_write_of_error (f := fun e s v => s.assign e n v) henv
      (fun _ _ => Store.assign_eq_error_iff.2 hnone) content

/-- A name is declared in the global scope.  It is seen from a scope inside, but not from one that
binds the name itself. -/
theorem read_after_write_shadowed :
    let w := (empty.execAll [.openGlobal "outer", .openChild "outer" "plain",
      .openChild "plain" "shadow", .declare "shadow" "x" .null false]).2
    let t := w.store.setValue 0 "x" (.bool true)
    (Session .empty w ∧ w.handles.get? "outer" = some 0) ∧
      w.store.declare 0 "x" (.bool true) false = .ok t ∧
      t.lookup 1 "x" = .ok (.bool true) ∧ t.lookup 2 "x" = .ok .null := by
  intro w t
  have hsession : Session .empty w := session_execAll _ _
  have henv : w.handles.get? "outer" = some 0 := by decide
  have hdeclare : w.store.declare 0 "x" (.bool true) false = .ok t :=
    Store.declare_eq_ok_iff.2 ⟨by decide, rfl⟩
  have hread := fun e' =>
    read_after_write w hsession "outer" 0 henv e' "x" "x" (.bool true) false
  refine ⟨⟨hsession, henv⟩, hdeclare, ?_, ?_⟩
  · have hstep : w.store.Onward "x" 1 0 := by
      unfold Store.Onward
      decide
    exact (((hread 1).1 t hdeclare).1 ⟨rfl, .single hstep⟩).1
  · -- The way of the name ends at once where it is bound.
    obtain ⟨hsound, -⟩ := hsession.leads sound_empty
    have hbound : w.store.resolve? 2 "x" = some 2 := by decide
    have hway : ¬ ReflTransGen (w.store.Onward "x") 2 0 := fun hway =>
      absurd (hsound.wellScoped.le_of_onward (hsound.wellScoped.onward_owner hbound hway))
        (by decide)
    rw [(((hread 2).1 t hdeclare).2 fun h => hway h.2).1]
    decide

end Workspace

end Scriptlet
