import Mathlib.Tactic.Lemma
import Scriptlet.Script

/-!
# Outcomes of computations

A computation starts in a store and gives a value or an error, and in both cases the store that it
leaves.  `Eval.outcome` is this pair.  The lemmas say what each of the basic computations gives,
and how a sequence goes on with what its first part gave; what is said about running programs
starts from them.
-/

namespace Scriptlet

namespace Eval

variable {α β : Type}

/-- What a computation gives when it starts in the store `s`, and the store that it leaves. -/
def outcome (x : Eval α) (s : Store) : Except RuntimeError α × Store := x.run.run s

/-- Giving a value leaves the store as it is. -/
@[simp] lemma outcome_pure (a : α) (s : Store) : (pure a : Eval α).outcome s = (.ok a, s) := rfl

/-- Failing leaves the store as it is. -/
@[simp] lemma outcome_throw (err : RuntimeError) (s : Store) :
    (throw err : Eval α).outcome s = (.error err, s) := rfl

/-- Reading gives what is read and leaves the store as it is. -/
@[simp] lemma outcome_read (f : Store → Except RuntimeError α) (s : Store) :
    (read f).outcome s = (f s, s) := rfl

/-- A new object is the next one of the heap, and always made. -/
@[simp] lemma outcome_newObject (properties : Table Value) (s : Store) :
    (newObject properties).outcome s = (.ok (.object s.objects.next), s.addObject properties) := rfl

/-- A sequence goes on with what its first part gave, or stops where that part went wrong. -/
lemma outcome_bind (x : Eval α) (f : α → Eval β) (s : Store) :
    (x >>= f).outcome s =
      match x.outcome s with
      | (.ok a, s') => (f a).outcome s'
      | (.error err, s') => (.error err, s') := by
  unfold outcome
  rw [ExceptT.run_bind, StateT.run_bind]
  generalize x.run.run s = r
  obtain ⟨a | err, s'⟩ := r
  · rfl
  · rfl

/-- Behind a part that succeeds, the evaluation goes on in the store it left. -/
lemma outcome_bind_of_ok {x : Eval α} {f : α → Eval β} {s s' : Store} {a : α}
    (h : x.outcome s = (.ok a, s')) : (x >>= f).outcome s = (f a).outcome s' := by
  rw [outcome_bind, h]

/-- A part that fails ends the evaluation, with the store it left. -/
lemma outcome_bind_of_error {x : Eval α} {f : α → Eval β} {s s' : Store} {err : RuntimeError}
    (h : x.outcome s = (.error err, s')) : (x >>= f).outcome s = (.error err, s') := by
  rw [outcome_bind, h]

/-- A sequence goes well if both of its parts do. -/
lemma outcome_bind_eq_ok_iff {x : Eval α} {f : α → Eval β} {s t : Store} {b : β} :
    (x >>= f).outcome s = (.ok b, t) ↔
      ∃ a mid, x.outcome s = (.ok a, mid) ∧ (f a).outcome mid = (.ok b, t) := by
  constructor
  · intro h
    rw [outcome_bind] at h
    cases hx : x.outcome s with
    | mk r mid =>
      rw [hx] at h
      cases r with
      | ok a => exact ⟨a, mid, rfl, h⟩
      | error err => cases h
  · rintro ⟨a, mid, hx, hf⟩
    rw [outcome_bind_of_ok hx, hf]

/-- A change that goes wrong leaves the store as it is. -/
lemma outcome_change (f : Store → Except RuntimeError Store) (s : Store) :
    (change f).outcome s =
      match f s with
      | .ok s' => (.ok (), s')
      | .error err => (.error err, s) := by
  unfold change
  cases hf : f s with
  | error err => exact outcome_bind_of_error (by rw [outcome_read, hf])
  | ok s' =>
    rw [outcome_bind_of_ok (by rw [outcome_read, hf])]
    rfl

/-- A change succeeds with the store that it makes. -/
lemma outcome_change_eq_ok_iff {f : Store → Except RuntimeError Store} {s t : Store} :
    (change f).outcome s = (.ok (), t) ↔ f s = .ok t := by
  rw [outcome_change]
  cases f s <;> simp

/-- A value is computed, and then it is written. -/
lemma outcome_bind_change_eq_ok {x : Eval Value} {f : Value → Store → Except RuntimeError Store}
    {s t : Store} {v : Value}
    (h : (x >>= fun v => do change (f v); pure v).outcome s = (.ok v, t)) :
    ∃ mid, x.outcome s = (.ok v, mid) ∧ f v mid = .ok t := by
  obtain ⟨u, mid, hx, hrest⟩ := outcome_bind_eq_ok_iff.1 h
  obtain ⟨_, t', hchange, hpure⟩ := outcome_bind_eq_ok_iff.1 hrest
  cases hpure
  exact ⟨mid, hx, outcome_change_eq_ok_iff.1 hchange⟩

end Eval

/-- A performed computation has its outcome, with an error put among those of scripts. -/
lemma Script.perform_eq {α : Type} (x : Eval α) (s : Store) :
    perform x s =
      match x.outcome s with
      | (.ok v, s') => (.ok v, s')
      | (.error err, s') => (.error (.runtime err), s') :=
  rfl

end Scriptlet
