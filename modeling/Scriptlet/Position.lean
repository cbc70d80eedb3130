/-!
# Places in a source text

A `Position` is a line and a column, both counted from one.  `Position.advance` moves past one
character: a newline opens the next line, and every other character, tabs and carriage returns
included, is one column wide.  `Position.past` moves past a whole run of characters.
-/

namespace Scriptlet

/-- A line and a column in a source text, both counted from one. -/
structure Position where
  /-- The line. -/
  line : Nat
  /-- The column, counted in characters. -/
  column : Nat
deriving DecidableEq, Repr, Inhabited

namespace Position

/-- The place of the first character. -/
def start : Position := ⟨1, 1⟩

/-- The place just past the character `c` that stands at `p`. -/
def advance (p : Position) (c : Char) : Position :=
  if c = '\n' then ⟨p.line + 1, 1⟩ else ⟨p.line, p.column + 1⟩

/-- The place just past the characters `cs`, the first of which stands at `p`. -/
def past (p : Position) (cs : List Char) : Position :=
  cs.foldl advance p

/-- How a place is written in a message. -/
def text (p : Position) : String :=
  "line " ++ toString p.line ++ ", column " ++ toString p.column

/-- No text moves no position. -/
@[simp] theorem past_nil (p : Position) : p.past [] = p := rfl

/-- A text moves a position by its first character and then by the others. -/
@[simp] theorem past_cons (p : Position) (c : Char) (cs : List Char) :
    p.past (c :: cs) = (p.advance c).past cs := rfl

/-- A position moves past two texts one after the other. -/
theorem past_append (p : Position) (cs ds : List Char) :
    p.past (cs ++ ds) = (p.past cs).past ds := by
  simp [past]

end Position

end Scriptlet
