import Mathlib.Data.Set.Basic
import Mathlib.Logic.Relation
import Mathlib.Order.WellFounded
import Scriptlet.Proofs.Value.Content

/-!
# The graph of objects

An object holds the objects that stand in its properties (`Objects.Holds`).  In a heap that is
`Objects.WellBuilt` the objects that are held exist, and whoever goes from an object to one that it
holds, and on from there, comes to an end.  This is what writing out and comparing values need:
every value has a tree, and the depth to which one looks does not matter as long as it is no less
than the number of objects there are.

The order in which objects were made is no measure for this: an old object can be given a property
that holds a new one.  What matters is that the new one does not lead back.  All changes of the
graph are of this kind (`wellFounded_of_new_links`): a new object is held by none, and what is built
afresh, in one go, leads to nothing that was there before (`Objects.Builds`).
-/

namespace Scriptlet

open Relation

/-! ## Objects in values -/

/-- The value is no object, or one of the given objects. -/
def Value.Within (ids : Set ObjectId) (v : Value) : Prop := ∀ id, v = .object id → id ∈ ids

/-- A value among some objects is among more of them. -/
lemma Value.Within.mono {ids ids' : Set ObjectId} {v : Value} (h : v.Within ids)
    (hsub : ids ⊆ ids') : v.Within ids' := fun id hid => hsub (h id hid)

/-- All values of a table are no objects, or some of the given objects. -/
def Table.ValuesWithin (ids : Set ObjectId) (t : Table Value) : Prop :=
  ∀ key v, (key, v) ∈ t.entries → v.Within ids

namespace Table

variable {ids ids' : Set ObjectId} {t : Table Value}

/-- The empty table has no objects. -/
lemma valuesWithin_empty : (empty : Table Value).ValuesWithin ids := nofun

/-- A table of some objects is one of more of them. -/
lemma ValuesWithin.mono (h : t.ValuesWithin ids) (hsub : ids ⊆ ids') : t.ValuesWithin ids' :=
  fun key v hmem => (h key v hmem).mono hsub

/-- Setting a key to one of the objects keeps the table to them. -/
lemma ValuesWithin.insert {v : Value} (h : t.ValuesWithin ids) (hv : v.Within ids)
    (key : String) : (t.insert key v).ValuesWithin ids := by
  intro k u hmem
  rw [← get?_eq_some_iff, get?_insert] at hmem
  split at hmem
  · cases hmem
    exact hv
  · exact h k u ((get?_eq_some_iff ..).1 hmem)

end Table

/-- If there are new links from one place only, and none of them leads back to it, then a way along
links still comes to an end. -/
lemma wellFounded_of_new_links {α : Type} {H H' : α → α → Prop} {a : α}
    (h : WellFounded fun j i => H i j)
    (hnew : ∀ i j, H' i j → H i j ∨ i = a ∧ ¬ ReflTransGen H j a) :
    WellFounded fun j i => H' i j := by
  -- A place from which `a` is not reached has the links that it had, and so on from there.
  have hfar : ∀ x, ¬ ReflTransGen H x a → Acc (fun j i => H' i j) x := by
    intro x
    induction x using h.induction with
    | _ x ih =>
      refine fun hx => Acc.intro x fun j hj => ?_
      rcases hnew x j hj with hold | ⟨rfl, -⟩
      · exact ih j hold fun hja => hx (.head hold hja)
      · exact absurd .refl hx
  refine ⟨fun x => ?_⟩
  induction x using h.induction with
  | _ x ih =>
    refine Acc.intro x fun j hj => ?_
    rcases hnew x j hj with hold | ⟨-, hno⟩
    · exact ih j hold
    · exact hfar j hno

namespace Objects

variable {objects base : Objects} {i j id : ObjectId} {key : String} {v : Value}
  {table : Table Value}

/-! ## Objects that hold objects -/

/-- The objects there are. -/
def ids (objects : Objects) : Set ObjectId := {id | objects.contains id}

/-- The object `i` has a property that is the object `j`. -/
def Holds (objects : Objects) (i j : ObjectId) : Prop :=
  ∃ key, (key, Value.object j) ∈ objects.properties i

/-- What is held exists, and no way from object to object goes on for ever. -/
structure WellBuilt (objects : Objects) : Prop where
  /-- An object holds objects that there are. -/
  held : ∀ i j, objects.Holds i j → j ∈ objects.ids
  /-- Whoever goes from an object to one that it holds, and so on, comes to an end. -/
  wellFounded : WellFounded fun j i => objects.Holds i j

/-- An object exists when it has a table of properties. -/
lemma mem_ids_iff : id ∈ objects.ids ↔ ∃ table, objects.get? id = some table :=
  Option.isSome_iff_exists

/-- An object that exists got its number before the next one. -/
lemma lt_next_of_mem_ids (h : id ∈ objects.ids) : id < objects.next := by
  obtain ⟨table, hget⟩ := mem_ids_iff.1 h
  refine Nat.lt_of_not_le fun hle => ?_
  rw [objects.get?_of_next_le hle] at hget
  cases hget

/-- The properties of an object are the entries of its table. -/
lemma properties_of_get? (h : objects.get? id = some table) :
    objects.properties id = table.entries := by
  rw [properties, h, Option.map_some, Option.getD_some]

/-- Only an object that exists holds others. -/
lemma mem_ids_of_holds (h : objects.Holds i j) : i ∈ objects.ids := by
  obtain ⟨key, hmem⟩ := h
  cases hget : objects.get? i with
  | none =>
    rw [properties, hget] at hmem
    cases hmem
  | some table => exact mem_ids_iff.2 ⟨table, hget⟩

/-- No object has a key twice. -/
lemma nodup_keys (objects : Objects) (id : ObjectId) :
    ((objects.properties id).map Prod.fst).Nodup := by
  cases hget : objects.get? id with
  | none =>
    rw [properties, hget]
    exact List.nodup_nil
  | some table =>
    rw [properties_of_get? hget]
    exact table.keys_nodup

/-- A heap without objects is well built. -/
lemma wellBuilt_empty : WellBuilt .empty where
  held _ _ h := by
    obtain ⟨_, hmem⟩ := h
    cases hmem
  wellFounded := ⟨fun i => Acc.intro i fun _ ⟨_, hmem⟩ => by cases hmem⟩

/-- A way from an object that exists leads to objects that exist. -/
lemma WellBuilt.mem_ids_of_holds (h : objects.WellBuilt) (hi : i ∈ objects.ids)
    (hway : ReflTransGen objects.Holds i j) : j ∈ objects.ids := by
  cases hway with
  | refl => exact hi
  | tail _ hlast => exact h.held _ _ hlast

/-- No object contains itself. -/
lemma WellBuilt.acyclic (h : objects.WellBuilt) (i : ObjectId) :
    ¬ TransGen objects.Holds i i := by
  intro hcycle
  rw [← transGen_swap] at hcycle
  exact h.wellFounded.transGen.irrefl.irrefl i hcycle

/-! ## New objects and new properties -/

/-- One object is added at a time, under the next number. -/
lemma ids_push (objects : Objects) (table : Table Value) :
    ids (objects.push table) = insert objects.next objects.ids := by
  ext id
  rw [Set.mem_insert_iff, mem_ids_iff, mem_ids_iff, Heap.get?_push]
  by_cases hid : id = objects.next <;> simp [hid]

/-- A new object holds what is in its table, and all others what they held. -/
lemma holds_push_iff :
    Holds (objects.push table) i j ↔
      (i = objects.next ∧ ∃ key, (key, .object j) ∈ table.entries) ∨
      (i ≠ objects.next ∧ objects.Holds i j) := by
  rw [Holds, properties, Heap.get?_push]
  by_cases hi : i = objects.next
  · simp [hi]
  · simp [hi, Holds, properties]

/-- A new object of objects that exist. -/
lemma WellBuilt.push (h : objects.WellBuilt) (htable : table.ValuesWithin objects.ids) :
    WellBuilt (objects.push table) := by
  have hlinks : ∀ i j, Holds (objects.push table) i j →
      objects.Holds i j ∨ i = objects.next ∧ j ∈ objects.ids := by
    intro i j hij
    rcases holds_push_iff.1 hij with ⟨hi, key, hmem⟩ | ⟨-, hold⟩
    · exact .inr ⟨hi, htable key _ hmem j rfl⟩
    · exact .inl hold
  constructor
  · intro i j hij
    rw [ids_push]
    rcases hlinks i j hij with hold | ⟨-, hj⟩
    · exact Set.mem_insert_of_mem _ (h.held i j hold)
    · exact Set.mem_insert_of_mem _ hj
  · refine wellFounded_of_new_links (a := objects.next) h.wellFounded fun i j hij => ?_
    refine (hlinks i j hij).imp_right fun ⟨hi, hj⟩ => ⟨hi, fun hback => ?_⟩
    exact (lt_next_of_mem_ids (h.mem_ids_of_holds hj hback)).ne rfl

/-- Setting a property makes no object and takes none away. -/
lemma ids_setProperty (objects : Objects) (id : ObjectId) (key : String) (v : Value) :
    (objects.setProperty id key v).ids = objects.ids := by
  ext i
  rw [mem_ids_iff, mem_ids_iff, setProperty, Heap.get?_modify]
  split
  · cases objects.get? i <;> simp
  · rfl

/-- A property that is set adds at most one link. -/
lemma holds_setProperty (h : (objects.setProperty id key v).Holds i j) :
    objects.Holds i j ∨ i = id ∧ v = .object j := by
  obtain ⟨k, hmem⟩ := h
  rw [properties, setProperty, Heap.get?_modify] at hmem
  split at hmem
  case isTrue hi =>
    cases hget : objects.get? i with
    | none =>
      rw [hget] at hmem
      cases hmem
    | some table =>
      rw [hget, Option.map_some, Option.map_some, Option.getD_some, ← Table.get?_eq_some_iff,
        Table.get?_insert] at hmem
      split at hmem
      · exact .inr ⟨hi.symm, Option.some.inj hmem⟩
      · refine .inl ⟨k, ?_⟩
        rw [properties_of_get? hget]
        exact (Table.get?_eq_some_iff ..).1 hmem
  case isFalse => exact .inl ⟨k, hmem⟩

/-- A property is set to an object that does not lead back. -/
lemma WellBuilt.setProperty (h : objects.WellBuilt) (hv : v.Within objects.ids)
    (hback : ∀ j, v = .object j → ¬ ReflTransGen objects.Holds j id) :
    (objects.setProperty id key v).WellBuilt := by
  constructor
  · intro i j hij
    rw [ids_setProperty]
    rcases holds_setProperty hij with hold | ⟨-, hj⟩
    · exact h.held i j hold
    · exact hv j hj
  · exact wellFounded_of_new_links h.wellFounded fun i j hij =>
      (holds_setProperty hij).imp_right fun ⟨hi, hj⟩ => ⟨hi, hback j hj⟩

/-! ## What is built afresh -/

/-- The objects that there were not in the first heap. -/
def fresh (base objects : Objects) : Set ObjectId := {id | base.next ≤ id ∧ id ∈ objects.ids}

/-- Objects are added one after the other, each of objects that were added before. -/
inductive Builds (base : Objects) : Objects → Prop where
  /-- Nothing was added. -/
  | start : Builds base base
  /-- One more object is added. -/
  | push {objects : Objects} {table : Table Value} :
    Builds base objects → table.ValuesWithin (fresh base objects) → Builds base (objects.push table)

/-- A fresh object exists and has a number that was not handed out at first. -/
lemma mem_fresh_iff : id ∈ fresh base objects ↔ base.next ≤ id ∧ id ∈ objects.ids := Iff.rfl

/-- An object that is added is fresh. -/
lemma fresh_push (h : base.next ≤ objects.next) (table : Table Value) :
    fresh base (objects.push table) = insert objects.next (fresh base objects) := by
  ext id
  rw [Set.mem_insert_iff, mem_fresh_iff, mem_fresh_iff, ids_push, Set.mem_insert_iff]
  constructor
  · rintro ⟨hle, rfl | hid⟩
    · exact .inl rfl
    · exact .inr ⟨hle, hid⟩
  · rintro (rfl | ⟨hle, hid⟩)
    · exact ⟨h, .inl rfl⟩
    · exact ⟨hle, .inr hid⟩

/-- Fresh objects exist. -/
lemma fresh_subset_ids : fresh base objects ⊆ objects.ids := fun _ h => h.2

namespace Builds

/-- Building hands out numbers and takes none back. -/
lemma next_le (h : Builds base objects) : base.next ≤ objects.next := by
  induction h with
  | start => exact Nat.le_refl _
  | push _ _ ih =>
    rw [Heap.next_push]
    exact Nat.le_succ_of_le ih

/-- Building leaves the old objects as they are. -/
lemma grows (h : Builds base objects) : base.Grows objects := by
  induction h with
  | start => exact .refl base
  | push _ _ ih => exact ih.trans (grows_push _ _)

/-- Building keeps a heap well built, because no old object comes to hold a new one. -/
lemma wellBuilt (h : Builds base objects) (hbase : base.WellBuilt) : objects.WellBuilt := by
  induction h with
  | start => exact hbase
  | push _ htable ih => exact ih.push (htable.mono fresh_subset_ids)

/-- New objects hold new objects only. -/
lemma le_of_holds (h : Builds base objects) (hi : base.next ≤ i) (hij : objects.Holds i j) :
    base.next ≤ j := by
  induction h with
  | start =>
    obtain ⟨_, hmem⟩ := hij
    rw [properties, base.get?_of_next_le hi] at hmem
    cases hmem
  | push _ htable ih =>
    rcases holds_push_iff.1 hij with ⟨-, key, hmem⟩ | ⟨-, hold⟩
    · exact (htable key _ hmem j rfl).1
    · exact ih hold

/-- From new objects no way leads to old ones. -/
lemma le_of_reach (h : Builds base objects) (hi : base.next ≤ i)
    (hway : ReflTransGen objects.Holds i j) : base.next ≤ j := by
  induction hway with
  | refl => exact hi
  | tail _ hlast ih => exact h.le_of_holds ih hlast

/-- An old object can be given a new value as a property. -/
lemma wellBuilt_setProperty (h : Builds base objects) (hbase : base.WellBuilt)
    (hid : id ∈ base.ids) (hv : v.Within (fresh base objects)) (key : String) :
    (objects.setProperty id key v).WellBuilt := by
  refine (h.wellBuilt hbase).setProperty (hv.mono fresh_subset_ids) fun j hj hback => ?_
  exact Nat.not_le_of_lt (lt_next_of_mem_ids hid) (h.le_of_reach (hv j hj).1 hback)

end Builds

/-- A heap that has grown has all its objects still. -/
lemma ids_subset_of_grows {objects' : Objects} (h : objects.Grows objects') :
    objects.ids ⊆ objects'.ids := by
  intro id hid
  obtain ⟨table, hget⟩ := mem_ids_iff.1 hid
  exact mem_ids_iff.2 ⟨table, h id table hget⟩

/-- What was fresh stays fresh when the heap grows. -/
lemma fresh_subset_of_grows {objects' : Objects} (h : objects.Grows objects') :
    fresh base objects ⊆ fresh base objects' :=
  fun _ hid => ⟨hid.1, ids_subset_of_grows h hid.2⟩

mutual

/-- Content is built of new objects. -/
lemma Builds.build {base objects : Objects} (h : Builds base objects) (c : Content) :
    Builds base (c.build objects).2 ∧
      (c.build objects).1.Within (fresh base (c.build objects).2) := by
  unfold Content.build
  cases c with
  | null => exact ⟨h, nofun⟩
  | bool b => exact ⟨h, nofun⟩
  | number x => exact ⟨h, nofun⟩
  | object ps =>
    obtain ⟨hbuilds, htable⟩ := h.buildProperties Table.valuesWithin_empty ps
    refine ⟨.push hbuilds htable, fun id hid => ?_⟩
    cases hid
    exact (fresh_push hbuilds.next_le _).ge (Set.mem_insert _ _)

/-- Building the properties of an object adds fresh objects only, and the table holds no others. -/
lemma Builds.buildProperties {base objects : Objects} {table : Table Value}
    (h : Builds base objects) (htable : table.ValuesWithin (fresh base objects))
    (ps : List (String × Content)) :
    Builds base (Content.buildProperties objects table ps).2 ∧
      (Content.buildProperties objects table ps).1.ValuesWithin
        (fresh base (Content.buildProperties objects table ps).2) := by
  unfold Content.buildProperties
  match ps with
  | [] => exact ⟨h, htable⟩
  | (key, c) :: ps =>
    obtain ⟨hbuilds, hv⟩ := h.build c
    -- What stands in the table already was built before, and is still there.
    have hgrows : objects.Grows (c.build objects).2 := (Builds.start.build c).1.grows
    exact hbuilds.buildProperties ((htable.mono (fresh_subset_of_grows hgrows)).insert hv key) ps

end

/-- Building content adds fresh objects only, and gives one of them or no object. -/
lemma builds_of_build {objects' : Objects} {c : Content} (h : c.build objects = (v, objects')) :
    objects.Builds objects' ∧ v.Within (objects.fresh objects') := by
  have hstart : objects.Builds objects := .start
  have hbuild := hstart.build c
  rwa [h] at hbuild

/-! ## Writing out and comparing -/

/-- A value has a tree if it has one as an object. -/
lemma exists_shows_of_object (h : ∀ id, v = .object id → ∃ c, objects.Shows (.object id) c) :
    ∃ c, objects.Shows v c := by
  cases v with
  | null => exact ⟨_, .null⟩
  | bool b => exact ⟨_, .bool b⟩
  | number x => exact ⟨_, .number x⟩
  | object id => exact h id rfl

/-- Every value can be written out, as deep as it goes. -/
lemma WellBuilt.exists_shows (h : objects.WellBuilt) (hv : v.Within objects.ids) :
    ∃ c, objects.Shows v c := by
  refine exists_shows_of_object fun id hid => ?_
  have hexists : id ∈ objects.ids := hv id hid
  clear hid
  -- The induction is along the ways from object to object, which come to an end.
  induction id using h.wellFounded.induction with
  | _ id ih =>
    obtain ⟨table, hget⟩ := mem_ids_iff.1 hexists
    have hvalues : ∀ p ∈ table.entries, ∃ c, objects.Shows p.2 c := by
      rintro ⟨key, u⟩ hmem
      refine exists_shows_of_object ?_
      rintro j rfl
      have hholds : objects.Holds id j := ⟨key, properties_of_get? hget ▸ hmem⟩
      exact ih j hholds (h.held id j hholds)
    obtain ⟨ps, hps, -⟩ := exists_showsAll (P := fun _ => True) fun p hp =>
      (hvalues p hp).imp fun _ hc => ⟨hc, trivial⟩
    exact ⟨.object ps, .object hget hps⟩

/-- The empty way down starts anywhere. -/
lemma isPath_nil (bound : Nat) : objects.IsPath [] bound :=
  ⟨List.nodup_nil, List.forall_mem_nil _⟩

/-- Whoever writes a value out deeper than there are objects writes the same. -/
lemma Shows.contentWithin_of_size_le {c : Content} {depth : Nat} (h : objects.Shows v c)
    (hdepth : objects.size ≤ depth) : objects.contentWithin depth v = objects.content v := by
  rw [h.content_eq]
  exact h.contentWithin_eq (isPath_nil _) (Nat.lt_succ_self _) hdepth

/-- The depth matters only for objects. -/
lemma equalWithin_of_ne_object (hv : ∀ id, v ≠ .object id) (depth depth' : Nat) (u : Value) :
    objects.equalWithin depth v u = objects.equalWithin depth' v u := by
  cases v with
  | object id => exact absurd rfl (hv id)
  | null => cases depth <;> cases depth' <;> cases u <;> rfl
  | bool b => cases depth <;> cases depth' <;> cases u <;> rfl
  | number x => cases depth <;> cases depth' <;> cases u <;> rfl

mutual

/-- Below a way down, as many levels are left as there are objects that are not on the way, and more
levels make no difference. -/
lemma Shows.equalWithin_add {objects : Objects} {ids : List ObjectId} {bound depth : Nat}
    {v : Value} {c : Content} (h : objects.Shows v c) (hpath : objects.IsPath ids bound)
    (hc : sizeOf c < bound) (hroom : objects.size ≤ depth + ids.length) (u : Value) (more : Nat) :
    objects.equalWithin (depth + more) v u = objects.equalWithin depth v u :=
  match h with
  | .null => equalWithin_of_ne_object (by simp) _ _ u
  | .bool _ => equalWithin_of_ne_object (by simp) _ _ u
  | .number _ => equalWithin_of_ne_object (by simp) _ _ u
  | @Shows.object _ id table _ hget hall => by
    have hlonger := hpath.cons (.object hget hall) hc
    have hlength := hlonger.length_le
    rw [List.length_cons] at hlength
    obtain ⟨depth, rfl⟩ := Nat.exists_eq_add_one_of_ne_zero (show depth ≠ 0 by omega)
    have hroom' : objects.size ≤ depth + (id :: ids).length := by
      rw [List.length_cons]
      omega
    rw [Nat.add_right_comm]
    cases u with
    | object b =>
      have hzip := hall.all_equalWithin_add hlonger (fun p hp => sizeOf_lt_of_mem hp) hroom'
        (objects.properties b) more
      simp only [equalWithin, properties_of_get? hget, hzip]
    | null => simp only [equalWithin]
    | bool b => simp only [equalWithin]
    | number x => simp only [equalWithin]

/-- Comparing properties to a greater depth than they have gives the same. -/
lemma ShowsAll.all_equalWithin_add {objects : Objects} {ids : List ObjectId} {bound depth : Nat}
    {es : List (String × Value)} {ps : List (String × Content)} (h : objects.ShowsAll es ps)
    (hpath : objects.IsPath ids bound) (hps : ∀ p ∈ ps, sizeOf p.2 < bound)
    (hroom : objects.size ≤ depth + ids.length) (fs : List (String × Value)) (more : Nat) :
    ((es.zip fs).all fun (p, q) => p.1 == q.1 && objects.equalWithin (depth + more) p.2 q.2) =
      (es.zip fs).all fun (p, q) => p.1 == q.1 && objects.equalWithin depth p.2 q.2 :=
  match h with
  | .nil => rfl
  | .cons hv hes => by
    obtain ⟨hc, hps⟩ := List.forall_mem_cons.1 hps
    cases fs with
    | nil => rfl
    | cons f fs =>
      rw [List.zip_cons_cons, List.all_cons, List.all_cons,
        hes.all_equalWithin_add hpath hps hroom fs more]
      dsimp only
      rw [hv.equalWithin_add hpath hc hroom f.2 more]

end

/-- Whoever compares deeper than there are objects comes to the same answer. -/
lemma Shows.equalWithin_of_size_le {c : Content} {depth : Nat} (h : objects.Shows v c)
    (hdepth : objects.size ≤ depth) (u : Value) :
    objects.equalWithin depth v u = objects.equal v u := by
  obtain ⟨more, rfl⟩ := Nat.exists_eq_add_of_le hdepth
  exact h.equalWithin_add (isPath_nil _) (Nat.lt_succ_self _) (Nat.le_refl _) u more

end Objects

end Scriptlet
