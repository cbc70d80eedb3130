/-!
# Tables with ordered keys

A `Table` maps strings to values and remembers in which order its keys came.  `Table.insert` puts a
new key last; for a key that is there already it replaces the value and leaves the key in its
place.  No key stands in a table twice, which is part of the type.
-/

namespace Scriptlet

/-- An ordered table from strings to values. -/
@[ext]
structure Table (α : Type) where
  /-- The entries, in the order in which their keys came. -/
  entries : List (String × α)
  /-- No key stands twice. -/
  keys_nodup : (entries.map Prod.fst).Nodup

namespace Table

variable {α : Type}

/-- The table without entries. -/
def empty : Table α := ⟨[], List.nodup_nil⟩

/-- The keys, in order. -/
def keys (t : Table α) : List String := t.entries.map Prod.fst

/-- The number of entries. -/
def size (t : Table α) : Nat := t.entries.length

/-- Whether there are no entries. -/
def isEmpty (t : Table α) : Bool := t.entries.isEmpty

/-- The value of a key. -/
def get? (t : Table α) (key : String) : Option α := t.entries.lookup key

/-- Whether a key has a value. -/
def contains (t : Table α) (key : String) : Bool := (t.get? key).isSome

/-- Sets a key in a list of entries: in its place if it is there, else at the end. -/
def insertEntry (key : String) (value : α) : List (String × α) → List (String × α)
  | [] => [(key, value)]
  | (k, v) :: es => if k = key then (key, value) :: es else (k, v) :: insertEntry key value es

/-- Setting a key adds it at the end of the keys unless it is among them. -/
theorem keys_insertEntry (key : String) (value : α) (es : List (String × α)) :
    (insertEntry key value es).map Prod.fst =
      if key ∈ es.map Prod.fst then es.map Prod.fst else es.map Prod.fst ++ [key] := by
  induction es with
  | nil => rfl
  | cons e es ih =>
    obtain ⟨k, v⟩ := e
    by_cases h : k = key
    · simp [insertEntry, h]
    · have h' : ¬key = k := fun he => h he.symm
      simp only [insertEntry, h, if_false, List.map_cons, ih, List.mem_cons, h', false_or]
      split <;> simp

/-- Sets the value of a key. -/
def insert (t : Table α) (key : String) (value : α) : Table α where
  entries := insertEntry key value t.entries
  keys_nodup := by
    rw [keys_insertEntry]
    split
    · exact t.keys_nodup
    · rename_i h
      refine List.nodup_append.2 ⟨t.keys_nodup, by simp, ?_⟩
      intro a ha b hb hab
      rw [List.mem_singleton.1 hb] at hab
      exact h (hab ▸ ha)

/-- Removes a key. -/
def erase (t : Table α) (key : String) : Table α where
  entries := t.entries.filter fun e => e.1 != key
  keys_nodup := (List.filter_sublist.map Prod.fst).nodup t.keys_nodup

/-- The table that the entries of a list make up, one set after the other. -/
def ofList (es : List (String × α)) : Table α :=
  es.foldl (fun t e => t.insert e.1 e.2) empty

/-! ## What the operations do to keys and values -/

/-- The value of any key after a key was set in a list of entries. -/
theorem lookup_insertEntry (key k : String) (value : α) (es : List (String × α)) :
    (insertEntry key value es).lookup k = if k = key then some value else es.lookup k := by
  induction es with
  | nil =>
    rw [insertEntry, List.lookup_cons]
    by_cases h : k = key
    · simp [h]
    · rw [beq_eq_false_iff_ne.mpr h, if_neg h]
  | cons e es ih =>
    obtain ⟨k', v'⟩ := e
    rw [insertEntry]
    by_cases hk : k' = key
    · rw [if_pos hk, List.lookup_cons, List.lookup_cons, hk]
      by_cases h : k = key
      · simp [h]
      · rw [beq_eq_false_iff_ne.mpr h, if_neg h]
    · rw [if_neg hk, List.lookup_cons, List.lookup_cons, ih]
      by_cases h : k = k'
      · simp [h, hk]
      · rw [beq_eq_false_iff_ne.mpr h]

/-- The value of any key after a key was removed from a list of entries. -/
theorem lookup_filter_ne (key k : String) (es : List (String × α)) :
    (es.filter fun e => e.1 != key).lookup k = if k = key then none else es.lookup k := by
  induction es with
  | nil => simp
  | cons e es ih =>
    obtain ⟨k', v⟩ := e
    by_cases hk : k' = key
    · rw [List.filter_cons_of_neg (by simp [hk]), ih, List.lookup_cons, hk]
      by_cases h : k = key
      · simp [h]
      · rw [beq_eq_false_iff_ne.mpr h]
    · rw [List.filter_cons_of_pos (by simp [hk]), List.lookup_cons, List.lookup_cons, ih]
      by_cases h : k = k'
      · simp [h, hk]
      · rw [beq_eq_false_iff_ne.mpr h]

/-- The empty table has a value for no key. -/
@[simp] theorem get?_empty (key : String) : (empty : Table α).get? key = none := rfl

/-- The empty table has no keys. -/
@[simp] theorem keys_empty : (empty : Table α).keys = [] := rfl

/-- Setting a key decides its value and that of no other key. -/
theorem get?_insert (t : Table α) (key k : String) (value : α) :
    (t.insert key value).get? k = if k = key then some value else t.get? k :=
  lookup_insertEntry key k value t.entries

/-- A key that was just set has the new value. -/
@[simp] theorem get?_insert_self (t : Table α) (key : String) (value : α) :
    (t.insert key value).get? key = some value := by
  rw [get?_insert, if_pos rfl]

/-- A key that was taken out has no value, and all others keep theirs. -/
theorem get?_erase (t : Table α) (key k : String) :
    (t.erase key).get? k = if k = key then none else t.get? k :=
  lookup_filter_ne key k t.entries

/-- A known key keeps its place when it is set again, and a new one comes last. -/
theorem keys_insert (t : Table α) (key : String) (value : α) :
    (t.insert key value).keys = if key ∈ t.keys then t.keys else t.keys ++ [key] :=
  keys_insertEntry key value t.entries

/-- An entry with a new key is put behind all others. -/
theorem insertEntry_of_not_mem {key : String} {es : List (String × α)} (value : α)
    (h : key ∉ es.map Prod.fst) : insertEntry key value es = es ++ [(key, value)] := by
  induction es with
  | nil => rfl
  | cons e es ih =>
    rw [List.map_cons, List.mem_cons, not_or] at h
    rw [insertEntry, if_neg (Ne.symm h.1), ih h.2, List.cons_append]

/-- A new key is put behind the others. -/
theorem entries_insert_of_not_mem {t : Table α} {key : String} (value : α) (h : key ∉ t.keys) :
    (t.insert key value).entries = t.entries ++ [(key, value)] :=
  insertEntry_of_not_mem value h

/-- A key has the value of its one entry. -/
theorem get?_eq_some_iff (t : Table α) (key : String) (value : α) :
    t.get? key = some value ↔ (key, value) ∈ t.entries := by
  obtain ⟨es, h⟩ := t
  simp only [get?]
  induction es with
  | nil => simp
  | cons e es ih =>
    obtain ⟨k, v⟩ := e
    rw [List.map_cons, List.nodup_cons] at h
    rw [List.lookup_cons, List.mem_cons, ← ih h.2]
    by_cases hk : key = k
    · -- The key is that of the first entry, and of no other.
      subst hk
      have hother : es.lookup key ≠ some value := fun hlookup =>
        h.1 (List.mem_map.2 ⟨(key, value), (ih h.2).1 hlookup, rfl⟩)
      simp [hother, eq_comm]
    · rw [beq_eq_false_iff_ne.mpr hk]
      simp [hk]

/-- The keys are those that have a value. -/
theorem mem_keys_iff (t : Table α) (key : String) : key ∈ t.keys ↔ (t.get? key).isSome := by
  obtain ⟨es, h⟩ := t
  simp only [keys, get?]
  clear h
  induction es with
  | nil => simp
  | cons e es ih =>
    obtain ⟨k, v⟩ := e
    by_cases hk : key = k
    · simp [hk]
    · rw [List.map_cons, List.mem_cons, List.lookup_cons, beq_eq_false_iff_ne.mpr hk, ih]
      simp [hk]

end Table

end Scriptlet
