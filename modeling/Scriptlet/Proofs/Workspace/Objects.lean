import Scriptlet.Proofs.Eval.Sharing
import Scriptlet.Proofs.Store.Resolution
import Scriptlet.Proofs.Workspace.Requests

/-!
# What becomes of objects

Objects are shared and never copied.  In the course of a workspace requests are answered, and values
that were built afresh are given to names and to properties of objects that exist
(`Workspace.Course`).  All the time names and properties stand for objects that exist, and no object
contains itself (`Turn.wellBuilt`).

A program changes no object.  What it leaves in names, puts into new objects and gives is an object
that a name stood for before, or one that an object literal made, and each of those was made once.
-/

namespace Scriptlet

open Relation

namespace Store

variable {s t : Store} {e : ScopeId} {v : Value} {objects : Objects}

/-! ## Operations of stores -/

/-- The store of the empty workspace is well built. -/
lemma wellBuilt_empty : empty.WellBuilt := ⟨Objects.wellBuilt_empty, fun _ ⟨_, _, h⟩ => by cases h⟩

/-- Closing a scope binds nothing new. -/
lemma bound_closeScope_subset (s : Store) (e : ScopeId) : (s.closeScope e).bound ⊆ s.bound := by
  rintro id ⟨i, name, hvalue⟩
  by_cases hi : i = e
  · rw [hi, localValue?, closeScope, Heap.get?_free, if_pos rfl] at hvalue
    cases hvalue
  · rw [localValue?_closeScope_of_ne _ _ _ _ hi] at hvalue
    exact ⟨i, name, hvalue⟩

/-- No object is bound in a new scope. -/
lemma bound_openScope_subset (s : Store) {scope : Scope}
    (h : scope.bindings = .empty ∨ scope.bindings = .ofList globals) :
    (s.openScope scope).bound ⊆ s.bound := by
  have hglobals : (Table.ofList globals).entries = globals := by decide
  rintro id ⟨i, name, hvalue⟩
  rw [localValue?_openScope] at hvalue
  split at hvalue
  · rcases h with h | h
    · rw [h] at hvalue
      cases hvalue
    · rw [h, Table.get?_eq_some_iff, hglobals] at hvalue
      simp [globals] at hvalue
  · exact ⟨i, name, hvalue⟩

/-- A store that binds no new object, with the objects as they were, stays well built. -/
lemma WellBuilt.of_bound_subset (hs : s.WellBuilt) (hobjects : t.objects = s.objects)
    (hbound : t.bound ⊆ s.bound) : t.WellBuilt :=
  ⟨hobjects ▸ hs.objects, hobjects ▸ hbound.trans hs.bound⟩

/-- Objects are built afresh. -/
lemma WellBuilt.builds (hs : s.WellBuilt) (h : s.objects.Builds objects) :
    WellBuilt { s with objects := objects } :=
  ⟨h.wellBuilt hs.objects, hs.bound.trans (Objects.ids_subset_of_grows h.grows)⟩

/-- A value that is there is given to a name. -/
lemma WellBuilt.writes (hs : s.WellBuilt) (hv : v.Within s.objects.ids) (h : Writes e v s t) :
    t.WellBuilt := by
  have hobjects := h.objects_eq
  refine ⟨hobjects ▸ hs.objects, ?_⟩
  rw [hobjects]
  exact (h.bound_subset hv).trans (Set.union_subset hs.bound subset_rfl)

/-- A value that was built afresh is given to an object that was there before. -/
lemma WellBuilt.inserts (hs : s.WellBuilt) (h : s.objects.Builds objects)
    (hv : v.Within (s.objects.fresh objects)) {id : ObjectId} (hid : id ∈ s.objects.ids)
    (key : String) : WellBuilt { s with objects := objects.setProperty id key v } := by
  refine ⟨h.wellBuilt_setProperty hs.objects hid hv key, ?_⟩
  change s.bound ⊆ (objects.setProperty id key v).ids
  rw [Objects.ids_setProperty]
  exact hs.bound.trans (Objects.ids_subset_of_grows h.grows)

end Store

/-! ## Passing on -/

/-- Properties are evaluated one after the other. -/
lemma evalProperties_append (e : ScopeId) (table : Table Value) (ps qs : List Property) :
    evalProperties e table (ps ++ qs) =
      evalProperties e table ps >>= fun table => evalProperties e table qs := by
  induction ps generalizing table with
  | nil => simp [evalProperties]
  | cons p ps ih => cases p <;> simp [evalProperties, ih]

/-- Properties leave the other keys of a table as they are. -/
lemma get?_of_evalProperties {e : ScopeId} {s t : Store} {table table' : Table Value}
    {ps : List Property} {key : String}
    (h : (evalProperties e table ps).outcome s = (.ok table', t))
    (hkey : key ∉ ps.map Property.key) : table'.get? key = table.get? key := by
  induction ps generalizing table s with
  | nil =>
    cases h
    rfl
  | cons p ps ih =>
    rw [List.map_cons, List.mem_cons, not_or] at hkey
    have hstep : ∃ v mid,
        (evalProperties e (table.insert p.key v) ps).outcome mid = (.ok table', t) := by
      cases p with
      | shorthand k =>
        obtain ⟨v, mid, -, hrest⟩ := Eval.outcome_bind_eq_ok_iff.1 h
        exact ⟨v, mid, hrest⟩
      | pair k x =>
        obtain ⟨v, mid, -, hrest⟩ := Eval.outcome_bind_eq_ok_iff.1 h
        exact ⟨v, mid, hrest⟩
    obtain ⟨v, mid, hrest⟩ := hstep
    rw [ih hrest hkey.2, Table.get?_insert, if_neg hkey.1]

/-- In the scope `e` and the store `s` values are passed on as they are, objects with them. -/
structure Eval.PassesOn (e : ScopeId) (s : Store) : Prop where
  /-- A name gives the value that it stands for. -/
  name : ∀ n, ((Expr.name n).eval e).outcome s = (s.lookup e n, s)
  /-- An assignment gives the value on its right, and the name stands for it then. -/
  assign : ∀ n x v t, ((Expr.assign (.name n) x).eval e).outcome s = (.ok v, t) →
    (∃ mid, (x.eval e).outcome s = (.ok v, mid) ∧ t.objects = mid.objects) ∧ t.lookup e n = .ok v
  /-- A declaration gives the value on its right, and the name stands for it then. -/
  declaration : ∀ n constant x v t,
    ((Statement.declaration n constant (some x)).eval e).outcome s = (.ok v, t) →
    (∃ mid, (x.eval e).outcome s = (.ok v, mid) ∧ t.objects = mid.objects) ∧ t.lookup e n = .ok v
  /-- A shorthand property has the value that its name stands for when its turn comes, unless a
  later property has the same key. -/
  shorthand : ∀ ps n qs v t, n ∉ qs.map Property.key →
    ((Expr.object (ps ++ .shorthand n :: qs)).eval e).outcome s = (.ok v, t) →
    ∃ id table u, v = .object id ∧ t.objects.get? id = some table ∧ table.get? n = some u ∧
      ((evalProperties e .empty ps).outcome s).2.lookup e n = .ok u

/-- Names, assignments, declarations and properties pass values on as they are. -/
lemma Eval.passesOn {e : ScopeId} {s : Store} (hs : s.WellScoped) (he : s.isOpen e) :
    Eval.PassesOn e s := by
  -- The value is computed by effects, which open and close no scope.
  have hmid : ∀ {x : Expr} {v : Value} {mid : Store}, (x.eval e).outcome s = (.ok v, mid) →
      mid.WellScoped ∧ mid.isOpen e := by
    intro x v mid hx
    have heffects := (congruent_effective e).expr x s
    rw [hx] at heffects
    exact ⟨hs.of_effects heffects, (Store.isOpen_eq_of_effects heffects e).trans he⟩
  refine ⟨fun _ => rfl, fun n x v t h => ?_, fun n constant x v t h => ?_,
    fun ps n qs v t hn h => ?_⟩
  · obtain ⟨mid, hx, hassign⟩ := outcome_bind_change_eq_ok h
    exact ⟨⟨mid, hx, (Store.Writes.assign hassign).objects_eq⟩,
      (hmid hx).1.lookup_assign_of_eq hassign rfl⟩
  · obtain ⟨mid, hx, hdeclare⟩ := outcome_bind_change_eq_ok h
    have hvalue := (Store.declared_of_declare (hmid hx).1 (hmid hx).2 hdeclare).1
    exact ⟨⟨mid, hx, (Store.Writes.declare hdeclare).objects_eq⟩,
      Store.lookup_of_localValue? hvalue⟩
  · obtain ⟨table, mid, hprops, hnew⟩ := outcome_bind_eq_ok_iff.1 h
    cases hnew
    rw [evalProperties_append] at hprops
    obtain ⟨before, turn, hps, hrest⟩ := outcome_bind_eq_ok_iff.1 hprops
    obtain ⟨u, turn', hlookup, hqs⟩ := outcome_bind_eq_ok_iff.1 hrest
    refine ⟨_, table, u, rfl, ?_, ?_, ?_⟩
    · exact (Heap.get?_push ..).trans (if_pos rfl)
    · rw [get?_of_evalProperties hqs hn, Table.get?_insert_self]
    · rw [hps]
      exact congrArg Prod.fst hlookup

namespace Workspace

variable {w w' : Workspace} {e : ScopeId} {name : String}

/-! ## Requests -/

/-- Releasing a scope keeps the store well built. -/
lemma wellBuilt_release (hw : w.store.WellBuilt) (e : ScopeId) : (w.release e).store.WellBuilt := by
  unfold release
  split
  · exact hw
  · exact hw.of_bound_subset rfl (Store.bound_closeScope_subset ..)

/-- Making a handle refer to a scope keeps the store well built. -/
lemma wellBuilt_point (hw : w.store.WellBuilt) (name : String) (e : ScopeId) :
    (w.point name e).store.WellBuilt := by
  unfold point
  cases w.handles.get? name with
  | none => exact hw
  | some old => exact wellBuilt_release (w := { w with handles := w.handles.insert name e }) hw old

/-- Forgetting a handle keeps the store well built. -/
lemma wellBuilt_drop (hw : w.store.WellBuilt) (name : String) : (w.drop name).store.WellBuilt := by
  unfold drop
  cases w.handles.get? name with
  | none => exact hw
  | some old => exact wellBuilt_release (w := { w with handles := w.handles.erase name }) hw old

/-- Whatever a request does keeps the store well built. -/
lemma Change.wellBuilt (h : w.Change w') (hw : w.store.WellBuilt) : w'.store.WellBuilt := by
  cases h with
  | nothing => exact hw
  | @opens scope target hbindings =>
    have hopened := hw.of_bound_subset (t := w.store.openScope scope) rfl
      (Store.bound_openScope_subset _ hbindings)
    exact wellBuilt_point (w := { w with store := w.store.openScope scope }) hopened target _
  | points name e => exact wellBuilt_point hw name e
  | drops name => exact wellBuilt_drop hw name
  | runs e phrase =>
    obtain ⟨hand, hacts, -⟩ := phrase.does e ∅ w.store
    exact (hacts.wellBuilt hw (Set.empty_subset _)).1
  | writes _ hbuild hwrites =>
    obtain ⟨hbuilds, hv⟩ := Objects.builds_of_build hbuild
    exact (hw.builds hbuilds).writes (hv.mono Objects.fresh_subset_ids) hwrites
  | inserts _ key hlookup hbuild =>
    obtain ⟨hbuilds, hv⟩ := Objects.builds_of_build hbuild
    exact hw.inserts hbuilds hv (hw.bound (Store.within_bound_of_lookup hlookup _ rfl)) key

/-! ## The course of a workspace -/

/-- What can happen to a workspace: a request is answered, or a value that was built afresh is given
to a name or to a property of an object. -/
inductive Turn : Workspace → Workspace → Prop where
  /-- A request is answered. -/
  | exec (w : Workspace) (c : Command) : Turn w (w.exec c).2
  /-- A name is declared or assigned to. -/
  | write {w : Workspace} {objects : Objects} {v : Value} {e : ScopeId} {s : Store} :
    w.store.objects.Builds objects → v.Within (w.store.objects.fresh objects) →
    Store.Writes e v { w.store with objects := objects } s → Turn w { w with store := s }
  /-- A property of an object is set. -/
  | insert {w : Workspace} {objects : Objects} {v : Value} {id : ObjectId} (key : String) :
    w.store.objects.Builds objects → v.Within (w.store.objects.fresh objects) →
    w.store.objects.contains id →
    Turn w { w with store := { w.store with objects := objects.setProperty id key v } }

/-- Any number of things happen to a workspace, one after the other. -/
def Course : Workspace → Workspace → Prop := ReflTransGen Turn

/-- Whatever happens to a workspace keeps its store well built. -/
lemma Turn.wellBuilt (h : Turn w w') (hw : w.store.WellBuilt) : w'.store.WellBuilt := by
  cases h with
  | exec c => exact (change_exec w c).wellBuilt hw
  | write hbuilds hv hwrites =>
    exact (hw.builds hbuilds).writes (hv.mono Objects.fresh_subset_ids) hwrites
  | insert key hbuilds hv hid => exact hw.inserts hbuilds hv hid key

/-- Whatever happens to a workspace keeps it in order. -/
lemma Turn.leads (h : Turn w w') : w.Leads w' := by
  cases h with
  | exec c => exact leads_exec w c
  | write _ _ hwrites =>
    exact leads_of_effects (.head (.objects w.store _) (.single hwrites.effect))
  | insert key _ _ _ => exact leads_of_effects (.single (.objects (e := 0) w.store _))

/-- A workspace keeps a well built store through its whole course. -/
lemma Course.wellBuilt (h : Course w w') (hw : w.store.WellBuilt) : w'.store.WellBuilt := by
  induction h with
  | refl => exact hw
  | tail _ hturn ih => exact hturn.wellBuilt ih

/-- A workspace stays in order through its whole course. -/
lemma Course.leads (h : Course w w') : w.Leads w' := by
  induction h with
  | refl => exact Leads.refl w
  | tail _ hturn ih => exact ih.trans hturn.leads

/-- Requests in a row are a course. -/
lemma course_execAll (w : Workspace) (cs : List Command) : Course w (w.execAll cs).2 := by
  induction cs generalizing w with
  | nil => exact .refl
  | cons c cs ih => exact .head (.exec w c) (ih (w.exec c).2)

/-- Whatever happens in the course of a workspace, names and properties stand for objects that
exist, no object contains itself, and no object has a key twice.  So every value can be written out,
and looking deeper than there are objects neither shows more of a value nor changes the answer
whether it equals another.

A phrase that is run then, in the scope of a handle, passes values on as they are.  Whether it goes
well or not, all objects that there were have the same properties as before.  An object that it
gives, leaves in a name or puts into a new object stood under a name before, or it is new and is the
object of exactly one of the object literals that were evaluated to their end. -/
theorem objects_shared (w : Workspace) (hw : Course .empty w) :
    (∀ e name id, w.store.localValue? e name = some (.object id) →
      w.store.objects.contains id) ∧
    (∀ i j, w.store.objects.Holds i j → w.store.objects.contains j) ∧
    (∀ i, ¬ TransGen w.store.objects.Holds i i) ∧
    (∀ v, (∀ id, v = .object id → w.store.objects.contains id) →
      w.store.objects.Shows v (w.store.objects.content v) ∧
      ∀ depth, w.store.objects.size ≤ depth →
        w.store.objects.contentWithin depth v = w.store.objects.content v ∧
        ∀ u, w.store.objects.equalWithin depth v u = w.store.objects.equal v u) ∧
    (∀ id, ((w.store.objects.properties id).map Prod.fst).Nodup) ∧
    ∀ env e, w.handles.get? env = some e → Eval.PassesOn e w.store ∧ ∀ p : Phrase,
      let r := (p.eval e).outcome w.store
      (∀ id table, w.store.objects.get? id = some table → r.2.objects.get? id = some table) ∧
      ∀ id, (r.1 = .ok (.object id) ∨
          (∃ e' name, r.2.localValue? e' name = some (.object id)) ∨
          ∃ i, ¬ w.store.objects.contains i ∧ r.2.objects.Holds i id) →
        (∃ e' name, w.store.localValue? e' name = some (.object id)) ∨
        ¬ w.store.objects.contains id ∧ (p.made e w.store).count (.object id) = 1 := by
  obtain ⟨hsound, -⟩ := hw.leads sound_empty
  have hbuilt := hw.wellBuilt Store.wellBuilt_empty
  refine ⟨fun e name id h => hbuilt.bound ⟨e, name, h⟩, hbuilt.objects.held,
    hbuilt.objects.acyclic, fun v hv => ?_, fun id => ?_, fun env e henv => ⟨?_, fun p => ⟨?_, ?_⟩⟩⟩
  · obtain ⟨c, hc⟩ := hbuilt.objects.exists_shows hv
    refine ⟨hc.content_eq ▸ hc, fun depth hdepth => ?_⟩
    exact ⟨hc.contentWithin_of_size_le hdepth, hc.equalWithin_of_size_le hdepth⟩
  · exact Objects.nodup_keys _ id
  · exact Eval.passesOn hsound.wellScoped (hsound.isOpen env e henv)
  · exact p.keeps_objects e w.store
  · exact fun id hid => p.origin hbuilt e hid

/-- An object was given another as a property.  A program puts it into a new object, lets its name
stand for the new one, and goes wrong then: the old object is as it was, and the new one was made
once. -/
theorem objects_shared_after_failure :
    let w := (empty.execAll [.openGlobal "top", .declare "top" "a" (.object []) false,
      .setProperty "top" "a" "inner" (.object [])]).2
    let p : Phrase := .program ⟨[
      .declaration "b" true (some (.object [.shorthand "a", .pair "c" (.object [])])),
      .expr (.assign (.name "a") (.name "b")), .expr (.name "missing")]⟩
    let r := (p.eval 0).outcome w.store
    (Course .empty w ∧ w.handles.get? "top" = some 0) ∧ r.1 = .error (.unbound "missing") ∧
      r.2.localValue? 0 "a" = some (.object 3) ∧ (p.made 0 w.store).count (.object 3) = 1 ∧
      r.2.objects.get? 0 = w.store.objects.get? 0 := by
  intro w p r
  have hcourse : Course .empty w := course_execAll _ _
  have henv : w.handles.get? "top" = some 0 := by decide
  have hvalue : r.2.localValue? 0 "a" = some (.object 3) := by decide
  obtain ⟨hbound, -, -, -, -, hrun⟩ := objects_shared w hcourse
  obtain ⟨hkeeps, horigin⟩ := (hrun "top" 0 henv).2 p
  refine ⟨⟨hcourse, henv⟩, by decide, hvalue, ?_, ?_⟩
  · rcases horigin 3 (.inr (.inl ⟨0, "a", hvalue⟩)) with ⟨e', name, hold⟩ | ⟨-, hcount⟩
    · exact absurd (hbound e' name 3 hold) (by decide)
    · exact hcount
  · have hsome : (w.store.objects.get? 0).isSome := by decide
    obtain ⟨table, hget⟩ := Option.isSome_iff_exists.1 hsome
    rw [hkeeps 0 table hget, hget]

end Workspace

end Scriptlet
