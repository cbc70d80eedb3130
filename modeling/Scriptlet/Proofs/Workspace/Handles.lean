import Scriptlet.Proofs.Store.Resolution
import Scriptlet.Proofs.Workspace.Requests

/-!
# What becomes of names when handles are dropped

A scope is open as long as a handle refers to it, and for no other reason: the scopes inside it do
not keep it open.  `Workspace.Held` says that every open scope has a handle; every request keeps it
so (`Change.held`), and with it a whole session.

When the last handle of a scope is dropped, the scope is closed and all ways through it end there.
A name whose way went through it is not found any more, although scopes beyond may still be open and
bind it; every other name is found where it was found before.
-/

namespace Scriptlet

open Relation

namespace Store

variable {s : Store} {e i p : ScopeId}

/-- Whoever follows the links between open scopes comes to the scopes in reach only. -/
lemma WellScoped.mem_reach_of_parents (hs : s.WellScoped) (he : s.isOpen e)
    (h : ReflTransGen (fun a b => s.parent? a = some b) e i) : i ∈ s.reach e := by
  induction h using ReflTransGen.head_induction_on with
  | refl =>
    rw [hs.reach_eq he]
    exact List.mem_cons_self
  | @head e p hstep _ ih =>
    rw [hs.reach_eq he, hstep, Option.map_some, Option.getD_some]
    exact List.mem_cons_of_mem e (ih (Option.mem_filter_iff.1 hstep).2)

/-- What lies beyond a closed scope is out of reach. -/
lemma WellScoped.not_mem_reach (hs : s.WellScoped) {before beyond : List ScopeId}
    (hpath : s.enclosing e = before ++ p :: beyond) (hp : ¬ s.isOpen p) (hi : i ∈ beyond) :
    i ∉ s.reach e := by
  induction before generalizing e with
  | nil =>
    have hlt : i < e := hs.enclosing_lt e i (hpath ▸ List.mem_cons_of_mem p hi)
    rw [reach, hpath, List.nil_append, List.takeWhile_cons]
    split
    · rw [List.takeWhile_cons_of_neg hp, List.mem_singleton]
      exact hlt.ne
    · exact List.not_mem_nil
  | cons q before ih =>
    have hlt : i < e := hs.enclosing_lt e i (by simp [hpath, hi])
    rw [reach, hpath, List.cons_append, List.takeWhile_cons]
    split
    · refine List.not_mem_cons_of_ne_of_not_mem hlt.ne ?_
      by_cases hq : s.isOpen q
      · -- The way goes on from a scope whose path is the rest of this one.
        have hrest := hs.enclosing_tail e q _ hpath hq
        have hreach := ih hrest
        rwa [reach, hrest] at hreach
      · rw [List.takeWhile_cons_of_neg hq]
        exact List.not_mem_nil
    · exact List.not_mem_nil

end Store

namespace Workspace

variable {w w' : Workspace} {e i : ScopeId} {name : String}

/-! ## Scopes are held by handles -/

/-- A scope is held when some handle refers to it. -/
lemma holds_iff : w.holds e ↔ ∃ name, w.handles.get? name = some e := by
  refine ⟨fun h => ?_, fun ⟨_, h⟩ => holds_of_get? h⟩
  obtain ⟨⟨name, e'⟩, hmem, heq⟩ := List.any_eq_true.1 h
  rw [beq_iff_eq] at heq
  exact ⟨name, (Table.get?_eq_some_iff ..).2 (heq ▸ hmem)⟩

/-- Every open scope has a handle. -/
def Held (w : Workspace) : Prop := ∀ e, w.store.isOpen e → w.holds e

/-- In the empty workspace there is no scope to hold. -/
lemma held_empty : empty.Held := nofun

/-- A scope that is released may have lost its last handle. -/
lemma held_release (h : ∀ i, i ≠ e → w.store.isOpen i → w.holds i) : (w.release e).Held := by
  unfold release
  by_cases hheld : w.holds e
  · rw [if_pos hheld]
    intro i hi
    by_cases hie : i = e
    · exact hie ▸ hheld
    · exact h i hie hi
  · rw [if_neg hheld]
    intro i hi
    obtain ⟨hie, hopen⟩ := (Store.isOpen_closeScope_iff ..).1 hi
    exact h i hie hopen

/-- A handle is made to refer to a scope, which may have been the only one without a handle. -/
lemma held_point (h : ∀ i, i ≠ e → w.store.isOpen i → w.holds i) (name : String) :
    (w.point name e).Held := by
  -- The only handle that is lost is the one that referred to the old scope.
  have hheld : ∀ i, w.handles.get? name ≠ some i → w.store.isOpen i →
      holds { w with handles := w.handles.insert name e } i := by
    intro i hname hopen
    by_cases hie : i = e
    · exact holds_iff.2 ⟨name, by rw [Table.get?_insert_self, hie]⟩
    · obtain ⟨n, hn⟩ := holds_iff.1 (h i hie hopen)
      have hne : n ≠ name := by
        rintro rfl
        exact hname hn
      exact holds_iff.2 ⟨n, by rw [Table.get?_insert, if_neg hne, hn]⟩
  unfold point
  cases hname : w.handles.get? name with
  | none => exact fun i => hheld i (by simp [hname])
  | some old =>
    refine held_release fun i hi => hheld i ?_
    rw [hname]
    exact fun h => hi (Option.some.inj h).symm

/-- Forgetting a handle leaves no open scope without one: the last handle closes its scope. -/
lemma held_drop (h : w.Held) (name : String) : (w.drop name).Held := by
  unfold drop
  cases hname : w.handles.get? name with
  | none => exact h
  | some old =>
    refine held_release fun i hi hopen => ?_
    obtain ⟨n, hn⟩ := holds_iff.1 (h i hopen)
    have hne : n ≠ name := by
      rintro rfl
      exact hi (Option.some.inj (hn.symm.trans hname))
    exact holds_iff.2 ⟨n, by rw [Table.get?_erase, if_neg hne, hn]⟩

/-- Effects open and close no scope. -/
lemma held_of_effects {s : Store} (hw : w.Held)
    (h : ReflTransGen (Store.Effect e) w.store s) : Held { w with store := s } := by
  intro i hi
  change s.isOpen i at hi
  rw [Store.isOpen_eq_of_effects h] at hi
  exact hw i hi

/-- Every request gives a handle to the scope it opens, and closes the scope whose last handle it
takes. -/
lemma Change.held (h : w.Change w') (hw : w.Held) : w'.Held := by
  cases h with
  | nothing => exact hw
  | @opens scope target _ =>
    refine held_point (fun i hi hopen => ?_) target
    change (w.store.openScope scope).isOpen i at hopen
    rw [Store.isOpen_openScope, decide_eq_false hi, Bool.false_or] at hopen
    exact hw i hopen
  | points name e => exact held_point (fun i _ => hw i) name
  | drops name => exact held_drop hw name
  | runs e phrase => exact held_of_effects hw ((Eval.congruent_effective e).phrase phrase w.store)
  | writes c _ hwrites =>
    exact held_of_effects hw (.head (.objects w.store _) (.single hwrites.effect))
  | inserts c key _ _ => exact held_of_effects hw (.single (.objects (e := 0) w.store _))

/-- One step of a session leaves no open scope without a handle. -/
lemma Step.held (h : Step w w') (hw : w.Held) : w'.Held := by
  cases h with
  | exec c => exact (change_exec w c).held hw
  | effect _ heffect => exact held_of_effects hw (.single heffect)

/-- A whole session leaves no open scope without a handle. -/
lemma Session.held (h : Session w w') (hw : w.Held) : w'.Held := by
  induction h with
  | refl => exact hw
  | tail _ hstep ih => exact hstep.held ih

/-! ## Dropping a handle -/

/-- The other handles stay as they are. -/
lemma get?_handles_drop (w : Workspace) (name other : String) :
    (w.drop name).handles.get? other = if other = name then none else w.handles.get? other := by
  unfold drop
  cases hname : w.handles.get? name with
  | none =>
    by_cases hother : other = name
    · rw [if_pos hother, hother]
      exact hname
    · rw [if_neg hother]
  | some old =>
    have hhandles : ∀ v : Workspace, (v.release old).handles = v.handles := by
      intro v
      unfold release
      split <;> rfl
    dsimp only
    rw [hhandles, Table.get?_erase]

/-- Without a handle, a scope is held by its other ones. -/
lemma holds_erase_iff :
    holds { w with handles := w.handles.erase name } e ↔
      ∃ other, other ≠ name ∧ w.handles.get? other = some e := by
  simp only [holds_iff, Table.get?_erase]
  refine exists_congr fun other => ?_
  by_cases hother : other = name <;> simp [hother]

/-- A handle that is not the last one can be dropped without any change to the scopes. -/
lemma store_drop_of_shared (hname : w.handles.get? name = some e)
    (h : ∃ other, other ≠ name ∧ w.handles.get? other = some e) :
    (w.drop name).store = w.store := by
  unfold drop
  rw [hname]
  dsimp only
  rw [release, if_pos (holds_erase_iff.2 h)]

/-- Dropping the last handle closes the scope. -/
lemma store_drop_of_last (hname : w.handles.get? name = some e)
    (h : ¬ ∃ other, other ≠ name ∧ w.handles.get? other = some e) :
    (w.drop name).store = w.store.closeScope e := by
  unfold drop
  rw [hname]
  dsimp only
  rw [release, if_neg (mt holds_erase_iff.1 h)]

/-- To the scopes it is the same whether a handle is dropped or made to refer to another scope. -/
lemma store_point_of_ne (hname : w.handles.get? name = some e) (hi : i ≠ e) :
    (w.point name i).store = (w.drop name).store := by
  have hholds : holds { w with handles := w.handles.insert name i } e =
      holds { w with handles := w.handles.erase name } e := by
    rw [Bool.eq_iff_iff, holds_erase_iff, holds_iff]
    refine exists_congr fun other => ?_
    rw [Table.get?_insert]
    by_cases hother : other = name <;> simp [hother, hi]
  rw [point, drop, hname]
  dsimp only
  rw [release, release, hholds]
  split <;> rfl

/-- Whatever has happened to a workspace, dropping a handle on the scope `S` makes no name mean
another scope.  The other handles stay.  If one of them refers to `S`, too, nothing changes.
Otherwise `S` is closed and no other scope is; seen from the scope of a handle that is left, a name
is not found any more exactly if it was not found before, or if `S` comes behind that scope on the
way to the scope where it was found, which may be `S` itself; and all that is found is found where
it was found before.  In any case a scope is open afterwards exactly if a handle refers to it,
whatever scopes are inside it, and no way leads to a scope beyond one that is closed.  All this is
also what becomes of the scopes when the handle is made to refer to another one. -/
theorem drop_never_rebinds (w : Workspace) (hw : Session .empty w) (name : String) (S : ScopeId)
    (hname : w.handles.get? name = some S) :
    let w' := (w.exec (.drop name)).2
    (∀ other, w'.handles.get? other = if other = name then none else w.handles.get? other) ∧
    ((∃ other, other ≠ name ∧ w.handles.get? other = some S) → w'.store = w.store) ∧
    ((¬ ∃ other, other ≠ name ∧ w.handles.get? other = some S) →
      (∀ i, w'.store.isOpen i ↔ i ≠ S ∧ w.store.isOpen i) ∧
      ∀ other e, w'.handles.get? other = some e → ∀ n,
        (w'.store.resolve e n = .error (.unbound n) ↔
          w.store.resolve e n = .error (.unbound n) ∨
          ∃ owner, w.store.resolve e n = .ok owner ∧ TransGen (w.store.Onward n) e S ∧
            ReflTransGen (w.store.Onward n) S owner) ∧
        (w'.store.resolve e n ≠ .error (.unbound n) →
          ∃ owner, w.store.resolve e n = .ok owner ∧ w'.store.resolve e n = .ok owner)) ∧
    (∀ i, w'.store.isOpen i ↔ ∃ other, w'.handles.get? other = some i) ∧
    (∀ e before p beyond, w'.store.isOpen e → w'.store.enclosing e = before ++ p :: beyond →
      ¬ w'.store.isOpen p → ∀ i ∈ beyond,
        ¬ ReflTransGen (fun a b => w'.store.parent? a = some b) e i ∧
        ∀ n, w'.store.resolve e n ≠ .ok i) ∧
    ∀ i, i ≠ S → (w.point name i).store = w'.store := by
  obtain ⟨hsound, -⟩ := hw.leads sound_empty
  have hsound' : (w.drop name).Sound := (leads_drop w name hsound).1
  have hheld' : (w.drop name).Held := held_drop (hw.held held_empty) name
  dsimp only [exec]
  refine ⟨get?_handles_drop w name, store_drop_of_shared hname, fun hlast => ?_, fun i => ?_,
    fun e before p beyond he hpath hp i hi => ?_, fun i hi => store_point_of_ne hname hi⟩
  · have hstore := store_drop_of_last hname hlast
    rw [hstore]
    refine ⟨fun i => Store.isOpen_closeScope_iff .., fun other e hother n => ?_⟩
    have hne : e ≠ S := by
      have hopen := hsound'.isOpen other e hother
      rw [hstore] at hopen
      exact ((Store.isOpen_closeScope_iff ..).1 hopen).1
    exact ⟨hsound.wellScoped.resolve_closeScope_eq_error_iff hne,
      hsound.wellScoped.resolve_closeScope_eq_ok hne⟩
  · exact ⟨fun hopen => holds_iff.1 (hheld' i hopen), fun ⟨other, h⟩ => hsound'.isOpen other i h⟩
  · have hreach := hsound'.wellScoped.not_mem_reach hpath hp hi
    refine ⟨fun hway => hreach (hsound'.wellScoped.mem_reach_of_parents he hway), fun n hn => ?_⟩
    exact hreach (List.mem_of_find?_eq_some (Store.resolve_eq_ok_iff.1 hn))

/-- A scope lies inside another, and that one inside a global scope.  When the handle on the middle
one is dropped, the names of the global scope are not found from the innermost one any more,
although the global scope is still open. -/
theorem drop_never_rebinds_middle :
    let w := (empty.execAll [.openGlobal "outer", .openChild "outer" "middle",
      .openChild "middle" "inner", .declare "outer" "x" .null false,
      .declare "inner" "y" .null false]).2
    let w' := (w.exec (.drop "middle")).2
    (Session .empty w ∧ w.handles.get? "middle" = some 1) ∧
      (w.store.resolve 2 "x" = .ok 0 ∧ w'.store.resolve 2 "x" = .error (.unbound "x")) ∧
      w'.store.resolve 2 "y" = .ok 2 ∧ w'.store.isOpen 0 := by
  intro w w'
  have hsession : Session .empty w := session_execAll _ _
  have hname : w.handles.get? "middle" = some 1 := by decide
  obtain ⟨hhandles, -, hlast, hlive, -⟩ := drop_never_rebinds w hsession "middle" 1 hname
  have hinner : w'.handles.get? "inner" = some 2 := by
    rw [hhandles]
    decide
  have hsole : ¬ ∃ other, other ≠ "middle" ∧ w.handles.get? other = some 1 := by
    rw [← holds_erase_iff]
    decide
  obtain ⟨hx, -⟩ := (hlast hsole).2 "inner" 2 hinner "x"
  obtain ⟨-, hsame⟩ := (hlast hsole).2 "inner" 2 hinner "y"
  have hway : w.store.Onward "x" 2 1 ∧ w.store.Onward "x" 1 0 := by
    unfold Store.Onward
    decide
  have hlost := hx.2 (.inr ⟨0, by decide, .single hway.1, .single hway.2⟩)
  refine ⟨⟨hsession, hname⟩, ⟨by decide, hlost⟩, ?_, ?_⟩
  · obtain ⟨owner, hbefore, hafter⟩ := hsame (by decide)
    rw [hafter, ← hbefore]
    decide
  · exact (hlive 0).2 ⟨"outer", by rw [hhandles]; decide⟩

end Workspace

end Scriptlet
