/-!
# Control characters and control sequences

A text that is shown on a terminal may hold characters that the terminal obeys instead of showing:
single control characters, and sequences that an escape character opens.  `ControlSequence.strip`
leaves what is shown.

The text is read once from left to right with a `Place`, which says inside what kind of sequence the
reader stands.  A sequence that the text does not finish is left out with all that follows its
opening.  White space inside a sequence is still shown, and so are the printable characters that
directly follow it; behind them the sequence goes on.

The main statements are that a stripped text holds printable characters only (`printable_of_mem`),
that a text of printable characters stays as it is (`strip_eq_self`), and hence that stripping twice
is stripping once (`strip_strip`).
-/

namespace Scriptlet.ControlSequence

/-- Where a reader stands. -/
inductive Place where
  /-- Outside all sequences. -/
  | text
  /-- Behind an escape character. -/
  | escape
  /-- Behind an escape character and intermediate characters. -/
  | escapeIntermediate
  /-- In a control sequence, which ends with its final character. -/
  | control
  /-- In an operating system command, which ends with a bell. -/
  | command
  /-- At the start of a device control string. -/
  | device
  /-- In the parameters of a device control string. -/
  | deviceParameter
  /-- In the intermediate characters of a device control string. -/
  | deviceIntermediate
  /-- In the body of a string, which ends with a string terminator. -/
  | body
deriving DecidableEq, Repr

/-- Is the character one that stands between the opening of a sequence and its final character? -/
def isIntermediate (c : Char) : Bool := ' ' ≤ c && c ≤ '/'

/-- Can the character end an escape sequence? -/
def isEscapeFinal (c : Char) : Bool := '0' ≤ c && c ≤ '~'

/-- Can the character end a control sequence? -/
def isControlFinal (c : Char) : Bool := '@' ≤ c && c ≤ '~'

/-- Is the character outside the first 128? -/
def isWide (c : Char) : Bool := '\x7f' < c

/-- White space that moves within or between lines. -/
def isSpace (c : Char) : Bool := c == '\t' || c == '\n' || c == '\x0c' || c == '\r'

/-- Is the character shown outside all sequences?  Controls are not, white space apart, and among
the first 128 characters the last counts as a control. -/
def isPrintable (c : Char) : Bool := (' ' ≤ c && c ≤ '~') || isSpace c || isWide c

/-- Does the character end the body of a string?  The terminator is looked for among the bytes of
the character. -/
def endsBody (c : Char) : Bool := (String.utf8EncodeChar c).contains 0x9c

namespace Place

/-- Is white space shown at this place? -/
def showsSpace : Place → Bool
  | .text | .escape | .escapeIntermediate | .control => true
  | _ => false

/-- The place behind a character that directly follows an escape character. -/
def opened (c : Char) : Place :=
  if isIntermediate c then .escapeIntermediate
  else if c = '[' then .control
  else if c = ']' then .command
  else if c = 'P' then .device
  else if c = 'X' ∨ c = '^' ∨ c = '_' then .body
  else if isEscapeFinal c then .text
  else .escape

/-- The place behind a character that is not shown.  Two control characters break off any sequence,
and an escape character opens a new one. -/
def advance (p : Place) (c : Char) : Place :=
  if c = '\x18' ∨ c = '\x1a' then .text
  else if c = '\x1b' then .escape
  else
    match p with
    | .text => .text
    | .escape => opened c
    | .escapeIntermediate => if isEscapeFinal c then .text else p
    | .control => if isControlFinal c then .text else p
    | .command => if c = '\x07' then .text else p
    | .device =>
      if isIntermediate c then .deviceIntermediate
      else if isControlFinal c then .body
      else if isEscapeFinal c then .deviceParameter
      else p
    | .deviceParameter =>
      if isIntermediate c then .deviceIntermediate
      else if '0' ≤ c ∧ c ≤ ';' then p
      else if isEscapeFinal c then .body
      else p
    | .deviceIntermediate => if isEscapeFinal c then .body else p
    | .body => if endsBody c then .text else p

end Place

/-- Is a character shown, where `follows` tells that the character before it was? -/
def isShown (p : Place) (follows : Bool) (c : Char) : Bool :=
  isPrintable c && (follows || p == .text || (isSpace c && p.showsSpace))

/-- The characters that are shown from a place on.  A shown character outside the first 128 ends
the sequence in which it stands. -/
def shown (p : Place) (follows : Bool) : List Char → List Char
  | [] => []
  | c :: cs =>
    if isShown p follows c then c :: shown (if isWide c then .text else p) true cs
    else shown (p.advance c) false cs

/-- The text without its control characters and control sequences. -/
def strip (s : String) : String := String.ofList (shown .text false s.toList)

/-- Whatever the place, only printable characters are shown. -/
theorem printable_of_mem_shown {p : Place} {follows : Bool} {cs : List Char} {c : Char}
    (h : c ∈ shown p follows cs) : isPrintable c = true := by
  induction cs generalizing p follows with
  | nil => simp [shown] at h
  | cons d ds ih =>
    rw [shown] at h
    split at h
    · next hd =>
      rcases List.mem_cons.1 h with rfl | h
      · exact (Bool.and_eq_true_iff.1 hd).1
      · exact ih h
    · exact ih h

/-- Outside all sequences, printable characters are all shown. -/
theorem shown_text_eq_self {follows : Bool} {cs : List Char}
    (h : ∀ c ∈ cs, isPrintable c = true) : shown .text follows cs = cs := by
  induction cs generalizing follows with
  | nil => rfl
  | cons c cs ih =>
    have hc : isShown .text follows c = true := by simp [isShown, h c (by simp)]
    simp [shown, hc, ih fun d hd => h d (by simp [hd])]

/-- Only printable characters are left. -/
theorem printable_of_mem {s : String} {c : Char} (h : c ∈ (strip s).toList) :
    isPrintable c = true := by
  rw [strip, String.toList_ofList] at h
  exact printable_of_mem_shown h

/-- A text of printable characters stays as it is. -/
theorem strip_eq_self {s : String} (h : ∀ c ∈ s.toList, isPrintable c = true) : strip s = s := by
  rw [strip, shown_text_eq_self h, String.ofList_toList]

/-- Stripping twice is stripping once. -/
theorem strip_strip (s : String) : strip (strip s) = strip s :=
  strip_eq_self fun _ => printable_of_mem

end Scriptlet.ControlSequence
