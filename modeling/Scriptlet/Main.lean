import Scriptlet.CommandLine

/-!
# The program

The outermost layer: it hands the arguments, the input and the files to the library and writes what
the library answers.  A conversation goes line by line, so that each answer is seen before the next
line is typed.
-/

namespace Scriptlet

/-- The bytes up to and including the next newline; none at the end of the input. -/
partial def readLine (input : IO.FS.Stream) : IO (List UInt8) := do
  let chunk ← input.read 1
  match chunk.toList with
  | [] => pure []
  | b :: _ => if b = Line.newline then pure [b] else pure (b :: (← readLine input))

/-- Converses over streams from the prompt on. -/
partial def converseOver (input output : IO.FS.Stream) (c : Console) : IO Ending := do
  output.putStr Console.prompt
  output.flush
  match ← readLine input with
  | [] => pure .done
  | line =>
    match Console.request line with
    | .invalid => pure .invalidText
    | .leave => pure .done
    | .submission text =>
      let (r, c) := c.submit text
      output.putStrLn (c.answerText r)
      converseOver input output c

/-- Writes out how the program ended, and gives its exit code. -/
def finish (done : Completion) : IO UInt32 := do
  let output ← IO.getStdout
  output.write ⟨done.output.toArray⟩
  output.flush
  IO.eprint done.errors
  pure (UInt32.ofNat done.code)

/-- The bytes of a file, if it can be read. -/
def fileBytes (path : String) : IO (Option (List UInt8)) := do
  try
    let contents ← IO.FS.readBinFile path
    pure (some contents.toList)
  catch _ => pure none

/-- Carries out what the arguments ask for. -/
def runArguments (args : List String) : IO UInt32 := do
  match CommandLine.plan args with
  | .converse =>
    let output ← IO.getStdout
    output.putStr Console.banner
    let ending ← converseOver (← IO.getStdin) output .start
    match ending.message? with
    | none => finish ⟨0, [], ""⟩
    | some message => finish ⟨1, [], message ++ "\n"⟩
  | .file path =>
    let contents ← fileBytes path
    finish (Plan.carryOut [] (fun _ => contents) (.file path))
  | plan => finish (plan.carryOut [] fun _ => none)

end Scriptlet

/-- The entry point. -/
def main (args : List String) : IO UInt32 :=
  Scriptlet.runArguments args
