import Scriptlet.Heap
import Scriptlet.Number.Text
import Scriptlet.Operator
import Scriptlet.Table

/-!
# Values

A `Value` is null, a truth value, a number, or an object.  Objects are shared: the value of an
object is only its number in a heap of property tables, and everyone who holds the number sees a
change of the table.

`Content` is a value with its objects written out, as one tree without numbers of a heap.  It is
what can be said of a value from outside: its text, and the fresh objects that `Content.build` makes
of it.  `Objects.content` writes a value out.  No object contains itself, so that a way down through
objects passes each of them at most once, and the number of objects bounds its length.
-/

namespace Scriptlet

/-- The number of an object in a heap. -/
abbrev ObjectId := Nat

/-- Values. -/
inductive Value where
  /-- No value; also what arithmetic gives for operands that are no numbers. -/
  | null
  /-- A truth value. -/
  | bool (value : Bool)
  /-- A number. -/
  | number (value : Float)
  /-- An object, by its number. -/
  | object (id : ObjectId)
deriving DecidableEq

/-- The number that a value is, if it is one. -/
def Value.number? : Value → Option Float
  | .number x => some x
  | _ => none

/-- An operator on values: on two numbers it is the operator on numbers, on all else null. -/
def Operator.onValues (op : Operator) (left right : Value) : Value :=
  match left, right with
  | .number x, .number y => .number (op.apply x y)
  | _, _ => .null

/-- The objects there are: their properties, by number. -/
abbrev Objects := Heap (Table Value)

/-- A value with its objects written out. -/
inductive Content where
  /-- No value. -/
  | null
  /-- A truth value. -/
  | bool (value : Bool)
  /-- A number. -/
  | number (value : Float)
  /-- An object, by its properties in order. -/
  | object (properties : List (String × Content))

namespace Content

mutual

/-- The text of a value. -/
def text : Content → String
  | .null => "null"
  | .bool true => "true"
  | .bool false => "false"
  | .number x => Number.text x
  | .object [] => "\x7b\x7d"
  | .object (p :: ps) => "\x7b " ++ ", ".intercalate (propertyTexts (p :: ps)) ++ " \x7d"

/-- The texts of the properties of an object. -/
def propertyTexts : List (String × Content) → List String
  | [] => []
  | (key, value) :: ps => (key ++ ": " ++ value.text) :: propertyTexts ps

end

mutual

/-- Makes fresh objects of all that is written out in a content, the inner ones first. -/
def build (objects : Objects) : Content → Value × Objects
  | .null => (.null, objects)
  | .bool b => (.bool b, objects)
  | .number x => (.number x, objects)
  | .object ps =>
    let (table, objects) := buildProperties objects .empty ps
    (.object objects.next, objects.push table)

/-- Builds the values of properties and sets them in a table, one after the other. -/
def buildProperties (objects : Objects) (table : Table Value) :
    List (String × Content) → Table Value × Objects
  | [] => (table, objects)
  | (key, value) :: ps =>
    let (v, objects) := value.build objects
    buildProperties objects (table.insert key v) ps

end

end Content

namespace Objects

/-- The properties of an object. -/
def properties (objects : Objects) (id : ObjectId) : List (String × Value) :=
  ((objects.get? id).map Table.entries).getD []

/-- A value with its objects written out, down to the given depth. -/
def contentWithin (objects : Objects) : Nat → Value → Content
  | _, .null => .null
  | _, .bool b => .bool b
  | _, .number x => .number x
  | 0, .object _ => .object []
  | depth + 1, .object id =>
    .object ((objects.properties id).map fun (k, v) => (k, objects.contentWithin depth v))

/-- A value with its objects written out. -/
def content (objects : Objects) (v : Value) : Content :=
  objects.contentWithin objects.size v

/-- Whether two values are equal down to the given depth. -/
def equalWithin (objects : Objects) : Nat → Value → Value → Bool
  | _, .null, .null => true
  | _, .bool a, .bool b => a == b
  | _, .number x, .number y => x == y
  | 0, .object _, .object _ => true
  | depth + 1, .object a, .object b =>
    let ps := objects.properties a
    let qs := objects.properties b
    ps.length == qs.length &&
      (ps.zip qs).all fun (p, q) => p.1 == q.1 && objects.equalWithin depth p.2 q.2
  | _, _, _ => false

/-- Whether two values are equal.  Objects are compared by what is in them, key by key in order, and
numbers as numbers: a number that is none differs from itself. -/
def equal (objects : Objects) (v w : Value) : Bool :=
  objects.equalWithin objects.size v w

/-- The text of a value. -/
def text (objects : Objects) (v : Value) : String :=
  (objects.content v).text

/-- Sets a property of an object. -/
def setProperty (objects : Objects) (id : ObjectId) (key : String) (value : Value) : Objects :=
  objects.modify id fun table => table.insert key value

end Objects

end Scriptlet
