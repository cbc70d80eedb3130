import Scriptlet.Console.Line
import Scriptlet.Script

/-!
# The console

A console evaluates one submission after the other in a global scope of its own.  `Console.converse`
is the whole conversation: a banner, then for each line of the input a prompt and the text of the
answer, be it a value or an error.  It is over when the lines are, at a blank line, at the word
`exit`, at a line that is no text, or when the output takes no more.

A `Sink` is an output of bytes that may be limited.  A write that does not fit is cut off at the
limit and ends the conversation; by then the submission has been evaluated.
-/

namespace Scriptlet

/-- The version of the language. -/
def version : String := "0.1.0"

/-- An output: what was written, and how many more bytes it takes if it is limited. -/
structure Sink where
  /-- The bytes written so far. -/
  written : List UInt8
  /-- How many bytes still fit. -/
  room : Option Nat

namespace Sink

/-- An output that takes everything. -/
def unlimited : Sink := ⟨[], none⟩

/-- An output that takes the given number of bytes. -/
def limited (n : Nat) : Sink := ⟨[], some n⟩

/-- Writes as much of a text as fits, and says whether all of it did. -/
def write (out : Sink) (text : String) : Bool × Sink :=
  let bytes := text.toUTF8.toList
  match out.room with
  | none => (true, ⟨out.written ++ bytes, none⟩)
  | some n =>
    (bytes.length ≤ n, ⟨out.written ++ bytes.take n, some (n - bytes.length)⟩)

end Sink

/-- A console: a store, and the scope of the store that all submissions share. -/
structure Console where
  /-- The store. -/
  store : Store
  /-- The scope of the submissions. -/
  scope : ScopeId

/-- How a conversation ended. -/
inductive Ending where
  /-- The input was over, or said so. -/
  | done
  /-- A line was no text. -/
  | invalidText
  /-- The output took no more. -/
  | outputFull
deriving DecidableEq, Repr

/-- What is said about an ending that is a failure. -/
def Ending.message? : Ending → Option String
  | .done => none
  | .invalidText => some "stream did not contain valid UTF-8"
  | .outputFull => some "failed to write whole buffer"

namespace Console

/-- What a conversation starts with. -/
def banner : String := "\nozl repl v" ++ version ++ "\n"

/-- What stands before each submission. -/
def prompt : String := "> "

/-- A console to which nothing was submitted. -/
def start : Console := ⟨Store.empty.openGlobal, Store.empty.nextScope⟩

/-- Evaluates one submission.  One that fails leaves what it did before. -/
def submit (c : Console) (text : String) : Except Error Value × Console :=
  let (r, store) := Script.run text c.scope c.store
  (r, { c with store := store })

/-- What is written as the answer to a submission. -/
def answerText (c : Console) : Except Error Value → String
  | .ok v => c.store.objects.text v
  | .error e => e.message

/-- What a line asks for. -/
inductive Request where
  /-- It is no text. -/
  | invalid
  /-- It ends the conversation. -/
  | leave
  /-- It is to be evaluated. -/
  | submission (text : String)
deriving DecidableEq

/-- What a line of bytes asks for: white space around a submission does not matter. -/
def request (line : List UInt8) : Request :=
  match Line.decode? line with
  | none => .invalid
  | some text =>
    let text := Line.trim text
    if text = "" ∨ text = "exit" then .leave else .submission text

/-- The state of a conversation that is over. -/
structure Outcome where
  /-- The console. -/
  console : Console
  /-- The output. -/
  output : Sink
  /-- How it ended. -/
  ending : Ending

/-- The conversation over the given lines. -/
def converseLines (c : Console) (out : Sink) (lines : List (List UInt8)) : Outcome :=
  match out.write prompt with
  | (false, out) => ⟨c, out, .outputFull⟩
  | (true, out) =>
    match lines with
    | [] => ⟨c, out, .done⟩
    | line :: lines =>
      match request line with
      | .invalid => ⟨c, out, .invalidText⟩
      | .leave => ⟨c, out, .done⟩
      | .submission text =>
        let (r, c) := c.submit text
        match out.write (c.answerText r ++ "\n") with
        | (false, out) => ⟨c, out, .outputFull⟩
        | (true, out) => c.converseLines out lines

/-- The conversation over the given input. -/
def converse (out : Sink) (input : List UInt8) : Outcome :=
  match out.write banner with
  | (false, out) => ⟨start, out, .outputFull⟩
  | (true, out) => start.converseLines out (Line.lines input)

end Console

end Scriptlet
