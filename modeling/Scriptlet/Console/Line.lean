/-!
# Lines of bytes

Input arrives as bytes.  `lines` cuts it behind each newline, `Line.decode?` reads a line as text,
and `trim` takes white space off both ends of a text.
-/

namespace Scriptlet.Line

/-- The byte that ends a line. -/
def newline : UInt8 := 10

/-- The lines of an input, each with the newline that ends it; the last one may lack it. -/
def lines : List UInt8 → List (List UInt8)
  | [] => []
  | b :: bs =>
    if b = newline then [b] :: lines bs
    else match lines bs with
      | [] => [[b]]
      | l :: ls => (b :: l) :: ls

/-- The text that the bytes of a line encode, if they encode one. -/
def decode? (line : List UInt8) : Option String :=
  String.fromUTF8? ⟨line.toArray⟩

/-- The code points that count as white space. -/
def whiteSpace : List (Nat × Nat) :=
  [(0x9, 0xd), (0x20, 0x20), (0x85, 0x85), (0xa0, 0xa0), (0x1680, 0x1680), (0x2000, 0x200a),
    (0x2028, 0x2029), (0x202f, 0x202f), (0x205f, 0x205f), (0x3000, 0x3000)]

/-- Whether a character is white space, in any script. -/
def isWhiteSpace (c : Char) : Bool :=
  whiteSpace.any fun (first, last) => first ≤ c.toNat && c.toNat ≤ last

/-- A text without the white space at its ends. -/
def trim (s : String) : String :=
  let front := s.toList.dropWhile isWhiteSpace
  String.ofList (front.reverse.dropWhile isWhiteSpace).reverse

end Scriptlet.Line
