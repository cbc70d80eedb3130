/-!
# Heaps

A `Heap` hands out numbers for the values stored in it.  A number is never handed out twice, also
not after its value was freed, so that it names one value for ever or none.
-/

namespace Scriptlet

/-- Values by number; a freed number has none. -/
structure Heap (α : Type) where
  /-- The cells, one for each number handed out. -/
  cells : Array (Option α)

namespace Heap

variable {α : Type}

/-- The heap that has handed out no number. -/
def empty : Heap α := ⟨#[]⟩

/-- How many numbers were handed out. -/
def size (h : Heap α) : Nat := h.cells.size

/-- The value of a number. -/
def get? (h : Heap α) (i : Nat) : Option α := h.cells[i]?.join

/-- Whether a number has a value. -/
def contains (h : Heap α) (i : Nat) : Bool := (h.get? i).isSome

/-- The number that the next stored value gets. -/
def next (h : Heap α) : Nat := h.cells.size

/-- Stores a value under the next number. -/
def push (h : Heap α) (a : α) : Heap α := ⟨h.cells.push (some a)⟩

/-- Changes the value of a number that has one. -/
def modify (h : Heap α) (i : Nat) (f : α → α) : Heap α :=
  ⟨h.cells.modify i (Option.map f)⟩

/-- Takes the value of a number away. -/
def free (h : Heap α) (i : Nat) : Heap α := ⟨h.cells.setIfInBounds i none⟩

/-! ## What the operations do to the values -/

/-- The empty heap holds no value. -/
@[simp] theorem get?_empty (i : Nat) : (empty : Heap α).get? i = none := rfl

/-- A number that was not handed out has no value. -/
theorem get?_of_next_le (h : Heap α) {i : Nat} (hi : h.next ≤ i) : h.get? i = none := by
  rw [get?, Array.getElem?_eq_none hi, Option.join_none]

/-- Storing gives the next number its value and leaves all others alone. -/
theorem get?_push (h : Heap α) (a : α) (i : Nat) :
    (h.push a).get? i = if i = h.next then some a else h.get? i := by
  rw [get?, push, Array.getElem?_push]
  by_cases hi : i = h.next
  · rw [if_pos hi, if_pos (show i = h.cells.size from hi), Option.join_some]
  · rw [if_neg hi, if_neg (show ¬i = h.cells.size from hi), get?]

/-- A change reaches one number only, and only if it has a value. -/
theorem get?_modify (h : Heap α) (f : α → α) (i j : Nat) :
    (h.modify i f).get? j = if i = j then (h.get? j).map f else h.get? j := by
  simp only [get?, modify, Array.getElem?_modify]
  split
  · cases h.cells[j]? <;> simp
  · rfl

/-- Freeing takes the value of one number only. -/
theorem get?_free (h : Heap α) (i j : Nat) :
    (h.free i).get? j = if i = j then none else h.get? j := by
  simp only [get?, free, Array.getElem?_setIfInBounds]
  split
  · split <;> simp
  · rfl

/-- Storing hands out one number. -/
@[simp] theorem next_push (h : Heap α) (a : α) : (h.push a).next = h.next + 1 := by
  simp [next, push]

/-- A change hands out no number. -/
@[simp] theorem next_modify (h : Heap α) (i : Nat) (f : α → α) :
    (h.modify i f).next = h.next := by
  simp [next, modify]

/-- A freed number still counts as handed out. -/
@[simp] theorem next_free (h : Heap α) (i : Nat) : (h.free i).next = h.next := by
  simp [next, free]

end Heap

end Scriptlet
