import Mathlib.Data.List.Perm.Subperm
import Mathlib.Tactic.Lemma
import Scriptlet.Value

/-!
# Values written out

`Objects.Shows v c` says that the tree `c` is the value `v` with all its objects written out, as
deep as they go.  A value has at most one such tree, and one whose objects contain themselves has
none.
`Objects.content` writes out to a fixed depth, the number of objects there are; this is enough for
every value that has a tree (`Objects.Shows.content_eq`), because on a way down through objects the
trees get smaller, so that no object is passed twice.

What is written out does not change when objects are added to the heap (`Objects.Shows.mono`), and
two values with one tree are equal if the numbers in it equal themselves (`Objects.Shows.equal`).
-/

namespace Scriptlet

namespace Objects

variable {objects : Objects}

mutual

/-- The tree `c` is the value with all its objects written out. -/
inductive Shows (objects : Objects) : Value → Content → Prop where
  /-- Null. -/
  | null : Shows objects .null .null
  /-- A truth value. -/
  | bool (b : Bool) : Shows objects (.bool b) (.bool b)
  /-- A number. -/
  | number (x : Float) : Shows objects (.number x) (.number x)
  /-- An object that there is, with its properties in order. -/
  | object {id : ObjectId} {table : Table Value} {ps : List (String × Content)} :
    objects.get? id = some table → ShowsAll objects table.entries ps →
      Shows objects (.object id) (.object ps)

/-- The trees are the values of the properties, in order and under the same keys. -/
inductive ShowsAll (objects : Objects) :
    List (String × Value) → List (String × Content) → Prop where
  /-- No property. -/
  | nil : ShowsAll objects [] []
  /-- A property and those behind it. -/
  | cons {key : String} {v : Value} {c : Content} {es : List (String × Value)}
      {ps : List (String × Content)} :
    Shows objects v c → ShowsAll objects es ps → ShowsAll objects ((key, v) :: es) ((key, c) :: ps)

end

mutual

/-- A value is written out in one way only. -/
lemma Shows.unique {v : Value} {c c' : Content} (h : objects.Shows v c)
    (h' : objects.Shows v c') : c = c' :=
  match h, h' with
  | .null, .null => rfl
  | .bool _, .bool _ => rfl
  | .number _, .number _ => rfl
  | .object hget hall, .object hget' hall' => by
    obtain rfl := Option.some.inj (hget.symm.trans hget')
    rw [hall.unique hall']

/-- Properties have one list of trees. -/
lemma ShowsAll.unique {es : List (String × Value)} {ps ps' : List (String × Content)}
    (h : objects.ShowsAll es ps) (h' : objects.ShowsAll es ps') : ps = ps' :=
  match h, h' with
  | .nil, .nil => rfl
  | .cons hv hes, .cons hv' hes' => by
    rw [hv.unique hv', hes.unique hes']

end

/-- Properties have trees if their values have, with the same keys; and what holds of the trees of
the values holds of those of the properties. -/
lemma exists_showsAll {P : Content → Prop} {es : List (String × Value)}
    (h : ∀ p ∈ es, ∃ c, objects.Shows p.2 c ∧ P c) :
    ∃ ps, objects.ShowsAll es ps ∧ ps.map Prod.fst = es.map Prod.fst ∧ ∀ p ∈ ps, P p.2 := by
  induction es with
  | nil => exact ⟨[], .nil, rfl, List.forall_mem_nil _⟩
  | cons e es ih =>
    obtain ⟨key, v⟩ := e
    obtain ⟨⟨c, hshows, hc⟩, hes⟩ := List.forall_mem_cons.1 h
    obtain ⟨ps, hall, hkeys, hps⟩ := ih hes
    exact ⟨(key, c) :: ps, .cons hshows hall, congrArg (key :: ·) hkeys,
      List.forall_mem_cons.2 ⟨hc, hps⟩⟩

/-! ## The way down through objects -/

/-- Objects of a way down, the lowest first: none of them twice, and each with a tree that is at
least as large as the bound. -/
structure IsPath (objects : Objects) (ids : List ObjectId) (bound : Nat) : Prop where
  /-- No object stands on the way twice. -/
  nodup : ids.Nodup
  /-- The trees of the objects are large. -/
  above : ∀ id ∈ ids, ∃ c, objects.Shows (.object id) c ∧ bound ≤ sizeOf c

section Path

variable {ids : List ObjectId} {bound : Nat}

/-- An object with a tree is one of the heap. -/
lemma Shows.lt_size {id : ObjectId} {c : Content} (h : objects.Shows (.object id) c) :
    id < objects.size := by
  cases h with
  | object hget _ =>
    refine Nat.lt_of_not_le fun hle => ?_
    rw [objects.get?_of_next_le hle] at hget
    cases hget

/-- A way down is no longer than there are objects. -/
lemma IsPath.length_le (h : objects.IsPath ids bound) : ids.length ≤ objects.size := by
  have hsub : ids ⊆ List.range objects.size := by
    intro id hid
    obtain ⟨c, hshows, -⟩ := h.above id hid
    exact List.mem_range.2 hshows.lt_size
  have hlength := (List.subperm_of_subset h.nodup hsub).length_le
  rwa [List.length_range] at hlength

/-- An object below all of the way is none of it. -/
lemma IsPath.cons {id : ObjectId} {c : Content} (h : objects.IsPath ids bound)
    (hc : objects.Shows (.object id) c) (hlt : sizeOf c < bound) :
    objects.IsPath (id :: ids) (sizeOf c) := by
  have hfresh : id ∉ ids := by
    intro hmem
    obtain ⟨c', hc', hle⟩ := h.above id hmem
    rw [hc'.unique hc] at hle
    omega
  refine ⟨List.nodup_cons.2 ⟨hfresh, h.nodup⟩, ?_⟩
  intro i hi
  rcases List.mem_cons.1 hi with rfl | hi
  · exact ⟨c, hc, Nat.le_refl _⟩
  · obtain ⟨c', hc', hle⟩ := h.above i hi
    exact ⟨c', hc', by omega⟩

/-- The tree of a property is smaller than that of its object. -/
lemma sizeOf_lt_of_mem {ps : List (String × Content)} {p : String × Content} (h : p ∈ ps) :
    sizeOf p.2 < sizeOf (Content.object ps) := by
  obtain ⟨key, c⟩ := p
  have hmem := List.sizeOf_lt_of_mem h
  simp only [Prod.mk.sizeOf_spec, Content.object.sizeOf_spec] at hmem ⊢
  omega

end Path

mutual

/-- Below a way down, as many levels are left as there are objects that are not on the way. -/
lemma Shows.contentWithin_eq {ids : List ObjectId} {bound depth : Nat} {v : Value} {c : Content}
    (h : objects.Shows v c)
    (hpath : objects.IsPath ids bound) (hc : sizeOf c < bound)
    (hroom : objects.size ≤ depth + ids.length) : objects.contentWithin depth v = c :=
  match h with
  | .null => by rw [contentWithin]
  | .bool _ => by rw [contentWithin]
  | .number _ => by rw [contentWithin]
  | @Shows.object _ id table _ hget hall => by
    have hlonger := hpath.cons (.object hget hall) hc
    have hlength := hlonger.length_le
    rw [List.length_cons] at hlength
    obtain ⟨depth, rfl⟩ := Nat.exists_eq_add_one_of_ne_zero (show depth ≠ 0 by omega)
    have hprops : objects.properties id = table.entries := by
      rw [properties, hget, Option.map_some, Option.getD_some]
    have hroom' : objects.size ≤ depth + (id :: ids).length := by
      rw [List.length_cons]
      omega
    rw [contentWithin, hprops,
      hall.map_contentWithin_eq hlonger (fun p hp => sizeOf_lt_of_mem hp) hroom']

/-- The contents of properties are their trees, if the depth is enough for what the way down leaves
over. -/
lemma ShowsAll.map_contentWithin_eq {ids : List ObjectId} {bound depth : Nat}
    {es : List (String × Value)} {ps : List (String × Content)}
    (h : objects.ShowsAll es ps) (hpath : objects.IsPath ids bound)
    (hps : ∀ p ∈ ps, sizeOf p.2 < bound) (hroom : objects.size ≤ depth + ids.length) :
    es.map (fun (k, v) => (k, objects.contentWithin depth v)) = ps :=
  match h with
  | .nil => rfl
  | .cons hv hes => by
    obtain ⟨hc, hps⟩ := List.forall_mem_cons.1 hps
    rw [List.map_cons, hes.map_contentWithin_eq hpath hps hroom]
    dsimp only
    rw [hv.contentWithin_eq hpath hc hroom]

end

/-- A value whose objects can be written out is written out by `content`: the number of objects is
depth enough. -/
lemma Shows.content_eq {v : Value} {c : Content} (h : objects.Shows v c) :
    objects.content v = c := by
  have hpath : objects.IsPath [] (sizeOf c + 1) := ⟨List.nodup_nil, List.forall_mem_nil _⟩
  exact h.contentWithin_eq hpath (Nat.lt_succ_self _) (Nat.le_refl _)

/-! ## Growing heaps -/

/-- Every object of the first heap is in the second one, with the same properties. -/
def Grows (objects objects' : Objects) : Prop :=
  ∀ id table, objects.get? id = some table → objects'.get? id = some table

/-- A heap grows out of itself. -/
lemma Grows.refl (objects : Objects) : objects.Grows objects := fun _ _ h => h

/-- What grows out of a grown heap grows out of the first one. -/
lemma Grows.trans {a b c : Objects} (h : a.Grows b) (h' : b.Grows c) : a.Grows c :=
  fun id table hget => h' id table (h id table hget)

/-- A heap with one object more has grown. -/
lemma grows_push (objects : Objects) (table : Table Value) :
    objects.Grows (objects.push table) := by
  intro id t hget
  rw [Heap.get?_push, if_neg, hget]
  rintro rfl
  rw [objects.get?_of_next_le (Nat.le_refl _)] at hget
  cases hget

mutual

/-- What a value is written out as does not change when the heap grows. -/
lemma Shows.mono {objects' : Objects} {v : Value} {c : Content} (hgrows : objects.Grows objects')
    (h : objects.Shows v c) : objects'.Shows v c :=
  match h with
  | .null => .null
  | .bool b => .bool b
  | .number x => .number x
  | .object hget hall => .object (hgrows _ _ hget) (hall.mono hgrows)

/-- Properties keep their trees when the heap grows. -/
lemma ShowsAll.mono {objects' : Objects} {es : List (String × Value)}
    {ps : List (String × Content)} (hgrows : objects.Grows objects')
    (h : objects.ShowsAll es ps) : objects'.ShowsAll es ps :=
  match h with
  | .nil => .nil
  | .cons hv hes => .cons (hv.mono hgrows) (hes.mono hgrows)

end

end Objects

/-- No number in the tree differs from itself. -/
inductive Content.Reflexive : Content → Prop where
  /-- Null. -/
  | null : Reflexive .null
  /-- A truth value. -/
  | bool (b : Bool) : Reflexive (.bool b)
  /-- A number that equals itself. -/
  | number {x : Float} : (x == x) = true → Reflexive (.number x)
  /-- An object of such trees. -/
  | object {ps : List (String × Content)} : (∀ p ∈ ps, p.2.Reflexive) → Reflexive (.object ps)

namespace Objects

variable {objects : Objects}

mutual

/-- Two values with one tree are equal down to every depth. -/
lemma Shows.equalWithin_eq {v w : Value} {c : Content} (hv : objects.Shows v c)
    (hw : objects.Shows w c) (hc : c.Reflexive) (depth : Nat) :
    objects.equalWithin depth v w = true :=
  match hv, hw, hc with
  | .null, .null, _ => by rw [equalWithin]
  | .bool _, .bool _, _ => by rw [equalWithin, beq_self_eq_true]
  | .number _, .number _, .number hx => by rw [equalWithin, hx]
  | .object hget hall, .object hget' hall', .object hps => by
    cases depth with
    | zero => rw [equalWithin]
    | succ depth =>
      have hentries := hall.equalWithin_all hall' hps depth
      simp only [equalWithin, properties, hget, hget', Option.map_some, Option.getD_some]
      rw [hentries.1, hentries.2, beq_self_eq_true, Bool.and_true]

/-- Properties with the same trees are equal one by one, if no number differs from itself. -/
lemma ShowsAll.equalWithin_all {es fs : List (String × Value)} {ps : List (String × Content)}
    (hes : objects.ShowsAll es ps) (hfs : objects.ShowsAll fs ps) (hps : ∀ p ∈ ps, p.2.Reflexive)
    (depth : Nat) :
    es.length = fs.length ∧
      ((es.zip fs).all fun (p, q) => p.1 == q.1 && objects.equalWithin depth p.2 q.2) = true :=
  match hes, hfs with
  | .nil, .nil => ⟨rfl, rfl⟩
  | .cons hv hes, .cons hw hfs => by
    obtain ⟨hc, hps⟩ := List.forall_mem_cons.1 hps
    obtain ⟨hlength, hall⟩ := hes.equalWithin_all hfs hps depth
    refine ⟨congrArg (· + 1) hlength, ?_⟩
    rw [List.zip_cons_cons, List.all_cons, hall]
    simp [hv.equalWithin_eq hw hc depth]

end

/-- Two values with one tree are equal, if the numbers in it equal themselves. -/
lemma Shows.equal {v w : Value} {c : Content} (hv : objects.Shows v c) (hw : objects.Shows w c)
    (hc : c.Reflexive) : objects.equal v w = true :=
  hv.equalWithin_eq hw hc objects.size

end Objects

end Scriptlet
