import Mathlib
import Scriptlet.Proofs.Value.Graph

/-!
# Equality of values

Values are compared by what is in them.  `Content.Same` says what this means for values that are
written out: the two trees have the same shape, with the same keys in the same order, and numbers
that are equal as numbers.  It does not mention a heap, so that it cannot tell one object from
another with the same properties.  `Objects.equal` goes through the heap, and the main lemma
(`Objects.equalWithin_iff_same`) says that it comes to the same answer; the two look down to the
same depth, so that nothing has to be known about the heap.

That an object is the same object as another plays no part in this.  It could be taken for a reason
to stop looking, but a number that is none differs from itself, and so does every object in which
such a number stands, however deep (`Content.same_self_iff`).
-/

namespace Scriptlet

/-! ## Equality of numbers -/

namespace Number

/-- Numbers are equal both ways round. -/
lemma beq_symm {x y : Float} (h : (x == y) = true) : (y == x) = true := by
  rw [Float.beq_iff_ne_nan_and_eq] at h ⊢
  obtain ⟨hx, hy, heq⟩ := h
  refine ⟨hy, hx, ?_⟩
  rcases heq with heq | ⟨hx, hy⟩ | ⟨hx, hy⟩
  · exact .inl heq.symm
  · exact .inr (.inr ⟨hy, hx⟩)
  · exact .inr (.inl ⟨hy, hx⟩)

/-- Numbers that equal the same number equal each other. -/
lemma beq_trans {x y z : Float} (h : (x == y) = true) (h' : (y == z) = true) :
    (x == z) = true := by
  rw [Float.beq_iff_ne_nan_and_eq] at h h' ⊢
  obtain ⟨hx, -, heq⟩ := h
  obtain ⟨-, hz, heq'⟩ := h'
  refine ⟨hx, hz, ?_⟩
  -- Two different numbers are equal only if they are the two zeros.
  rcases heq with rfl | ⟨rfl, rfl⟩ | ⟨rfl, rfl⟩
  · exact heq'
  · rcases heq' with rfl | ⟨-, rfl⟩ | ⟨-, rfl⟩
    · exact .inr (.inl ⟨rfl, rfl⟩)
    · exact .inr (.inl ⟨rfl, rfl⟩)
    · exact .inl rfl
  · rcases heq' with rfl | ⟨-, rfl⟩ | ⟨-, rfl⟩
    · exact .inr (.inr ⟨rfl, rfl⟩)
    · exact .inl rfl
    · exact .inr (.inr ⟨rfl, rfl⟩)

/-- Only a number that is none differs from itself. -/
lemma beq_self_iff_not_isNaN {x : Float} : (x == x) = true ↔ ¬ x.isNaN := by
  rw [Float.beq_self_iff, Float.isNaN_eq_decide_eq_nan, decide_eq_true_iff]

end Number

/-! ## Equality of trees -/

namespace Content

/-- Two trees have the same shape, with the same keys in the same order, and equal numbers. -/
@[mk_iff]
inductive Same : Content → Content → Prop where
  /-- Null. -/
  | null : Same .null .null
  /-- A truth value. -/
  | bool (b : Bool) : Same (.bool b) (.bool b)
  /-- Two numbers that are equal as numbers. -/
  | number {x y : Float} : (x == y) = true → Same (.number x) (.number y)
  /-- Two objects with the same keys, and the same values in the same places. -/
  | object {ps qs : List (String × Content)} : ps.map Prod.fst = qs.map Prod.fst →
      (∀ (i : Nat) (p q : String × Content), ps[i]? = some p → qs[i]? = some q → Same p.2 q.2) →
      Same (.object ps) (.object qs)

/-- A number that is none stands somewhere in the tree. -/
inductive HasNaN : Content → Prop where
  /-- The tree is such a number. -/
  | number {x : Float} : x.isNaN → HasNaN (.number x)
  /-- Such a number stands in a property. -/
  | object {ps : List (String × Content)} {p : String × Content} : p ∈ ps → p.2.HasNaN →
      HasNaN (.object ps)

/-- Trees are the same both ways round. -/
lemma Same.symm {c d : Content} (h : c.Same d) : d.Same c := by
  induction h with
  | null => exact .null
  | bool b => exact .bool b
  | number hxy => exact .number (Number.beq_symm hxy)
  | object hkeys _ ih => exact .object hkeys.symm fun i p q hp hq => ih i q p hq hp

/-- Trees that are the same as a third one are the same. -/
lemma Same.trans {c d e : Content} (h : c.Same d) (h' : d.Same e) : c.Same e := by
  induction h generalizing e with
  | null => exact h'
  | bool b => exact h'
  | number hxy =>
    cases h' with
    | number hyz => exact .number (Number.beq_trans hxy hyz)
  | @object ps qs hkeys _ ih =>
    cases h' with
    | @object _ rs hkeys' hvalues' =>
      refine .object (hkeys.trans hkeys') fun i p r hp hr => ?_
      -- There is a property in the middle, too, because the keys are the same.
      have hkey : (qs.map Prod.fst)[i]? = some p.1 := by
        rw [← hkeys, List.getElem?_map, hp, Option.map_some]
      rw [List.getElem?_map] at hkey
      obtain ⟨q, hq, -⟩ := Option.map_eq_some_iff.1 hkey
      exact ih i p q hp hq (hvalues' i q r hq hr)

/-- A tree without such a number is the same as itself. -/
lemma same_self_of_not_hasNaN (c : Content) (h : ¬ c.HasNaN) : c.Same c := by
  match c with
  | .null => exact .null
  | .bool b => exact .bool b
  | .number x => exact .number (Number.beq_self_iff_not_isNaN.2 fun hx => h (.number hx))
  | .object ps =>
    refine .object rfl fun i p q hp hq => ?_
    obtain rfl : p = q := Option.some.inj (hp.symm.trans hq)
    have hmem : p ∈ ps := List.mem_of_getElem? hp
    exact same_self_of_not_hasNaN p.2 fun hp => h (.object hmem hp)
termination_by sizeOf c
decreasing_by exact Objects.sizeOf_lt_of_mem hmem

/-- A tree is the same as itself when no NaN is in it. -/
lemma same_self_iff {c : Content} : c.Same c ↔ ¬ c.HasNaN := by
  refine ⟨fun hsame hnan => ?_, same_self_of_not_hasNaN c⟩
  induction hnan with
  | number hx =>
    cases hsame with
    | number hxx => exact Number.beq_self_iff_not_isNaN.1 hxx hx
  | object hmem _ ih =>
    cases hsame with
    | object _ hvalues =>
      obtain ⟨i, hi⟩ := List.mem_iff_getElem?.1 hmem
      exact ih (hvalues i _ _ hi hi)

end Content

/-! ## Equality in a heap -/

namespace Objects

variable {objects : Objects}

/-- Two lists of properties are gone through together: they have the same keys, and what is asked
for holds in each place. -/
lemma zip_all_iff {ps qs : List (String × Value)} {P : Value → Value → Bool} :
    (ps.length == qs.length && (ps.zip qs).all fun (p, q) => p.1 == q.1 && P p.2 q.2) = true ↔
      ps.map Prod.fst = qs.map Prod.fst ∧
        ∀ (i : Nat) (p q : String × Value), ps[i]? = some p → qs[i]? = some q →
          P p.2 q.2 = true := by
  rw [Bool.and_eq_true, beq_iff_eq, List.all_eq_true]
  constructor
  · rintro ⟨hlength, hall⟩
    have hplace : ∀ (i : Nat) (p q : String × Value), ps[i]? = some p → qs[i]? = some q →
        p.1 = q.1 ∧ P p.2 q.2 = true := by
      intro i p q hp hq
      have hmem : (p, q) ∈ ps.zip qs :=
        List.mem_of_getElem? (List.getElem?_zip_eq_some.2 ⟨hp, hq⟩)
      simpa using hall (p, q) hmem
    refine ⟨List.ext_getElem (by simpa using hlength) fun i hi hi' => ?_, fun i p q hp hq =>
      (hplace i p q hp hq).2⟩
    rw [List.getElem_map, List.getElem_map]
    rw [List.length_map] at hi hi'
    exact (hplace i _ _ (List.getElem?_eq_getElem hi) (List.getElem?_eq_getElem hi')).1
  · rintro ⟨hkeys, hvalues⟩
    refine ⟨by simpa using congrArg List.length hkeys, ?_⟩
    rintro ⟨p, q⟩ hmem
    obtain ⟨i, hi⟩ := List.mem_iff_getElem?.1 hmem
    obtain ⟨hp, hq⟩ := List.getElem?_zip_eq_some.1 hi
    have hkey : some p.1 = some q.1 := by
      have hplace := congrArg (·[i]?) hkeys
      simpa [List.getElem?_map, hp, hq] using hplace
    simp [Option.some.inj hkey, hvalues i p q hp hq]

/-- Two objects that are written out property by property. -/
lemma same_map_iff {ps qs : List (String × Value)} {write : Value → Content} :
    Content.Same (.object (ps.map fun (k, v) => (k, write v)))
        (.object (qs.map fun (k, v) => (k, write v))) ↔
      ps.map Prod.fst = qs.map Prod.fst ∧
        ∀ (i : Nat) (p q : String × Value), ps[i]? = some p → qs[i]? = some q →
          (write p.2).Same (write q.2) := by
  have hkeys : ∀ es : List (String × Value),
      (es.map fun (k, v) => (k, write v)).map Prod.fst = es.map Prod.fst := by
    intro es
    rw [List.map_map]
    rfl
  constructor
  · intro h
    cases h with
    | object hsame hvalues =>
      rw [hkeys, hkeys] at hsame
      refine ⟨hsame, fun i p q hp hq => hvalues i (p.1, write p.2) (q.1, write q.2) ?_ ?_⟩
      · rw [List.getElem?_map, hp, Option.map_some]
      · rw [List.getElem?_map, hq, Option.map_some]
  · rintro ⟨hsame, hvalues⟩
    refine .object (by rw [hkeys, hkeys, hsame]) fun i p q hp hq => ?_
    rw [List.getElem?_map] at hp hq
    obtain ⟨p', hp', rfl⟩ := Option.map_eq_some_iff.1 hp
    obtain ⟨q', hq', rfl⟩ := Option.map_eq_some_iff.1 hq
    exact hvalues i p' q' hp' hq'

/-- Unless both are objects, two values are equal if they are the same when they are written out. -/
lemma equalWithin_iff_same_of_flat {v w : Value} (hflat : ¬ ∃ a b, v = .object a ∧ w = .object b)
    (depth : Nat) : objects.equalWithin depth v w = true ↔
      (objects.contentWithin depth v).Same (objects.contentWithin depth w) := by
  -- An object is written out as one, whatever is in it.
  obtain ⟨entries, hobject⟩ : ∃ entries : ObjectId → List (String × Content), ∀ a,
      objects.contentWithin depth (.object a) = .object (entries a) := by
    cases depth with
    | zero => exact ⟨_, fun a => rfl⟩
    | succ depth => exact ⟨_, fun a => rfl⟩
  rw [Content.same_iff]
  cases v <;> cases w <;> grind [equalWithin, contentWithin]

/-- Down to every depth, two values are equal if they are the same when they are written out. -/
lemma equalWithin_iff_same (depth : Nat) (v w : Value) :
    objects.equalWithin depth v w = true ↔
      (objects.contentWithin depth v).Same (objects.contentWithin depth w) := by
  induction depth generalizing v w with
  | zero =>
    by_cases hobjects : ∃ a b, v = .object a ∧ w = .object b
    · obtain ⟨a, b, rfl, rfl⟩ := hobjects
      rw [equalWithin, contentWithin, contentWithin]
      exact iff_of_true rfl (.object rfl nofun)
    · exact equalWithin_iff_same_of_flat hobjects 0
  | succ depth ih =>
    by_cases hobjects : ∃ a b, v = .object a ∧ w = .object b
    · obtain ⟨a, b, rfl, rfl⟩ := hobjects
      rw [equalWithin, zip_all_iff, contentWithin, contentWithin, same_map_iff]
      simp only [ih]
    · exact equalWithin_iff_same_of_flat hobjects (depth + 1)

/-- Values are equal when they show the same trees. -/
lemma equal_iff_same (objects : Objects) (v w : Value) :
    objects.equal v w = true ↔ (objects.content v).Same (objects.content w) :=
  equalWithin_iff_same objects.size v w

/-- The answer depends on what is written out alone, and not on the heap or on the objects in it. -/
lemma equal_congr {objects' : Objects} {v w v' w' : Value}
    (hv : objects.content v = objects'.content v') (hw : objects.content w = objects'.content w') :
    objects.equal v w = objects'.equal v' w' := by
  rw [Bool.eq_iff_iff, equal_iff_same, equal_iff_same, hv, hw]

/-- In a well-built heap nothing is cut off from what is written out. -/
lemma WellBuilt.shows_content (h : objects.WellBuilt) {v : Value} (hv : v.Within objects.ids) :
    objects.Shows v (objects.content v) := by
  obtain ⟨c, hc⟩ := h.exists_shows hv
  rwa [hc.content_eq]

/-- A copy of an object is written out like the object. -/
lemma Shows.copy {id : ObjectId} {table : Table Value} {c : Content}
    (h : objects.Shows (.object id) c) (hget : objects.get? id = some table) :
    Shows (objects.push table) (.object objects.next) c := by
  cases h with
  | object hget' hall =>
    obtain rfl := Option.some.inj (hget.symm.trans hget')
    refine .object ?_ (hall.mono (grows_push objects _))
    rw [Heap.get?_push, if_pos rfl]

/-- An object is compared with a copy of it as it is compared with itself. -/
lemma WellBuilt.equal_copy (h : objects.WellBuilt) {id : ObjectId} {table : Table Value}
    (hget : objects.get? id = some table) :
    equal (objects.push table) (.object id) (.object objects.next) =
      objects.equal (.object id) (.object id) := by
  have hwithin : (Value.object id).Within objects.ids := by
    rintro _ ⟨⟩
    exact mem_ids_iff.2 ⟨table, hget⟩
  have hshows : objects.Shows (.object id) (objects.content (.object id)) :=
    h.shows_content hwithin
  exact equal_congr (hshows.mono (grows_push objects table)).content_eq
    (hshows.copy hget).content_eq

end Objects

/-- Equality of values is a partial equivalence that is decided by content.  Two values are equal
exactly if they are the same when they are written out, and in a well-built heap a value is written
out as deep as it goes.  So equality is symmetric and transitive, a value equals itself unless a
number that is none stands in it, and neither the heap nor the sharing of objects in it makes a
difference: an object is compared with a copy of it as it is compared with itself. -/
theorem equal_by_content :
    (∀ (objects : Objects) (v w : Value),
      objects.equal v w = true ↔ (objects.content v).Same (objects.content w)) ∧
    (∀ (objects : Objects) (v : Value), objects.WellBuilt → v.Within objects.ids →
      objects.Shows v (objects.content v)) ∧
    (∀ (objects : Objects) (v w : Value), objects.equal v w = true → objects.equal w v = true) ∧
    (∀ (objects : Objects) (u v w : Value), objects.equal u v = true → objects.equal v w = true →
      objects.equal u w = true) ∧
    (∀ (objects : Objects) (v : Value),
      objects.equal v v = true ↔ ¬ (objects.content v).HasNaN) ∧
    (∀ (objects objects' : Objects) (v w v' w' : Value),
      objects.content v = objects'.content v' → objects.content w = objects'.content w' →
      objects.equal v w = objects'.equal v' w') ∧
    ∀ (objects : Objects) (id : ObjectId) (table : Table Value), objects.WellBuilt →
      objects.get? id = some table →
      Objects.equal (objects.push table) (.object id) (.object objects.next) =
        objects.equal (.object id) (.object id) := by
  refine ⟨Objects.equal_iff_same, fun objects v h hv => h.shows_content hv, ?_, ?_, ?_,
    fun _ _ _ _ _ _ hv hw => Objects.equal_congr hv hw, fun _ _ _ h hget => h.equal_copy hget⟩
  · intro objects v w h
    rw [Objects.equal_iff_same] at h ⊢
    exact h.symm
  · intro objects u v w h h'
    rw [Objects.equal_iff_same] at h h' ⊢
    exact h.trans h'
  · intro objects v
    rw [Objects.equal_iff_same, Content.same_self_iff]

/-- The object `{ inner: { x: 0 / 0 } }` equals neither itself nor a copy of it, although the inner
object is one and the same. -/
theorem equal_by_content_nan_inside :
    let inner : Table Value := .ofList [("x", .number Float.nan)]
    let outer : Table Value := .ofList [("inner", .object 0)]
    let objects : Objects := (Heap.empty.push inner).push outer
    objects.WellBuilt ∧ objects.get? 1 = some outer ∧
      objects.Shows (.object 1) (.object [("inner", .object [("x", .number Float.nan)])]) ∧
      objects.equal (.object 1) (.object 1) = false ∧
      Objects.equal (objects.push outer) (.object 1) (.object 2) = false := by
  intro inner outer objects
  have hinner : inner.ValuesWithin (Objects.ids .empty) := by
    intro key v hmem
    obtain ⟨-, rfl⟩ := Prod.mk.inj (List.mem_singleton.1 hmem)
    nofun
  have houter : outer.ValuesWithin (Objects.ids (Heap.empty.push inner)) := by
    intro key v hmem
    obtain ⟨-, rfl⟩ := Prod.mk.inj (List.mem_singleton.1 hmem)
    rintro _ ⟨⟩
    exact Objects.mem_ids_iff.2 ⟨inner, rfl⟩
  have hbuilt : objects.WellBuilt := (Objects.wellBuilt_empty.push hinner).push houter
  have hwithin : (Value.object 1).Within objects.ids := by
    rintro _ ⟨⟩
    exact Objects.mem_ids_iff.2 ⟨outer, rfl⟩
  obtain ⟨-, hshows, -, -, hself, -, hcopy⟩ := equal_by_content
  have hcontent : objects.content (.object 1) =
      .object [("inner", .object [("x", .number Float.nan)])] := rfl
  have hnan : (objects.content (.object 1)).HasNaN := by
    rw [hcontent]
    refine .object (List.mem_singleton_self _) (.object (List.mem_singleton_self _) (.number ?_))
    decide +kernel
  have hdiffers : objects.equal (.object 1) (.object 1) = false :=
    Bool.eq_false_iff.2 fun heq => (hself objects (.object 1)).1 heq hnan
  refine ⟨hbuilt, rfl, hshows objects (.object 1) hbuilt hwithin, hdiffers, ?_⟩
  exact (hcopy objects 1 outer hbuilt rfl).trans hdiffers

end Scriptlet
