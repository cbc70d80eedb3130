import Scriptlet.Console
import Scriptlet.ControlSequence

/-!
# The command line

Arguments are read from left to right.  Flags may stand anywhere before the word `--`, short ones
may be joined, and one argument that is no flag is taken as the contents: a script, or the name of
the file that holds it.  The first flag that asks for help or the version, and the first misuse,
decide at once; what speaks against the arguments as a whole is found when all are read.

`CommandLine.plan` says what the arguments ask for, and `Plan.carryOut` does it: given the input and
a way to read files it tells what is written and with which code the program ends.
-/

namespace Scriptlet

/-- The flags. -/
inductive Flag where
  /-- The contents name a file. -/
  | file
  /-- A conversation is asked for. -/
  | repl
  /-- Help is asked for. -/
  | help
  /-- The version is asked for. -/
  | version
deriving DecidableEq, Repr

namespace Flag

/-- All flags. -/
def all : List Flag := [.file, .repl, .help, .version]

/-- The long name of a flag. -/
def name : Flag → String
  | .file => "file"
  | .repl => "repl"
  | .help => "help"
  | .version => "version"

/-- The short name of a flag. -/
def letter : Flag → Char
  | .file => 'f'
  | .repl => 'r'
  | .help => 'h'
  | .version => 'V'

/-- How a flag is written in a message. -/
def text (f : Flag) : String := "--" ++ f.name

end Flag

/-- A way of using the command line that is refused. -/
inductive Misuse where
  /-- There is no place for this argument. -/
  | unexpectedArgument (argument : String)
  /-- The flag takes no value. -/
  | unexpectedValue (value : String) (flag : Flag)
  /-- The flag was given before. -/
  | repeated (flag : Flag)
  /-- The two flags exclude each other. -/
  | conflict (first second : Flag)
  /-- The contents are missing. -/
  | missingContents
deriving DecidableEq, Repr

/-- The text of a refusal.  What was given is shown without its control characters. -/
def Misuse.message : Misuse → String
  | .unexpectedArgument a =>
    "error: unexpected argument '" ++ ControlSequence.strip a ++ "' found"
  | .unexpectedValue v f =>
    "error: unexpected value '" ++ ControlSequence.strip v ++ "' for '" ++ f.text ++
      "' found; no more were expected"
  | .repeated f => "error: the argument '" ++ f.text ++ "' cannot be used multiple times"
  | .conflict f g => "error: the argument '" ++ f.text ++ "' cannot be used with '" ++ g.text ++ "'"
  | .missingContents => "error: the following required arguments were not provided:"

/-- What a command line asks for. -/
inductive Plan where
  /-- Show the help. -/
  | help
  /-- Show the version. -/
  | version
  /-- Refuse. -/
  | refuse (misuse : Misuse)
  /-- Converse over the input. -/
  | converse
  /-- Run a script. -/
  | script (source : String)
  /-- Run the script in a file. -/
  | file (path : String)
deriving DecidableEq, Repr

namespace CommandLine

/-- What was read so far: the flags in the order in which they were given, and the contents. -/
structure Arguments where
  /-- The flags. -/
  flags : List Flag
  /-- The contents. -/
  contents : Option String

/-- Takes up a flag.  Two flags decide at once. -/
def Arguments.give (a : Arguments) (f : Flag) : Except Plan Arguments :=
  if f = .help then .error .help
  else if f = .version then .error .version
  else if f ∈ a.flags then .error (.refuse (.repeated f))
  else .ok { a with flags := a.flags ++ [f] }

/-- Takes up the contents. -/
def Arguments.take (a : Arguments) (contents : String) : Except Plan Arguments :=
  match a.contents with
  | none => .ok { a with contents := some contents }
  | some _ => .error (.refuse (.unexpectedArgument contents))

/-- Takes up a long flag, given by what follows the two dashes. -/
def Arguments.giveLong (a : Arguments) (body : List Char) : Except Plan Arguments :=
  let name := String.ofList (body.takeWhile (· != '='))
  match Flag.all.find? fun f => f.name == name with
  | none => .error (.refuse (.unexpectedArgument ("--" ++ name)))
  | some f =>
    match body.dropWhile (· != '=') with
    | [] => a.give f
    | _ :: value => .error (.refuse (.unexpectedValue (String.ofList value) f))

/-- Takes up a short flag. -/
def Arguments.giveShort (a : Arguments) (c : Char) : Except Plan Arguments :=
  match Flag.all.find? fun f => f.letter == c with
  | none => .error (.refuse (.unexpectedArgument ("-" ++ String.singleton c)))
  | some f => a.give f

/-- Takes up one argument that may be a flag.  A single dash is no flag. -/
def Arguments.next (a : Arguments) (argument : String) : Except Plan Arguments :=
  match argument.toList with
  | '-' :: '-' :: body => a.giveLong body
  | '-' :: c :: cs => (c :: cs).foldlM Arguments.giveShort a
  | _ => a.take argument

/-- Takes up all arguments; behind the word `--` none is a flag. -/
def Arguments.read (a : Arguments) : List String → Except Plan Arguments
  | [] => .ok a
  | argument :: rest =>
    if argument = "--" then rest.foldlM Arguments.take a
    else do (← a.next argument).read rest

/-- What the arguments ask for as a whole. -/
def Arguments.plan (a : Arguments) : Plan :=
  match a.flags, a.contents with
  | f :: g :: _, _ => .refuse (.conflict f g)
  | [.file], none => .refuse .missingContents
  | [.file], some path => .file path
  | [.repl], _ => .converse
  | _, none => .converse
  | _, some source => .script source

end CommandLine

/-- What a command line asks for. -/
def CommandLine.plan (args : List String) : Plan :=
  match (⟨[], none⟩ : Arguments).read args with
  | .error p => p
  | .ok a => a.plan

/-- How the program ended: its exit code, and what it wrote. -/
structure Completion where
  /-- The exit code. -/
  code : Nat
  /-- The bytes on the output. -/
  output : List UInt8
  /-- The text on the error output. -/
  errors : String

namespace Plan

/-- The help. -/
def helpText : String :=
  "A small expression-oriented scripting language with a tree-walking evaluator\n\n" ++
  "Usage: ozl [OPTIONS] [CONTENTS]\n\n" ++
  "Arguments:\n" ++
  "  [CONTENTS]  \n\n" ++
  "Options:\n" ++
  "  -f, --file     Tells ozl to read the script from the file named by CONTENTS\n" ++
  "  -r, --repl     Starts an interactive session. " ++
    "This is the default when no CONTENTS are given\n" ++
  "  -h, --help     Print help\n" ++
  "  -V, --version  Print version\n"

/-- The version, with the name of the program. -/
def versionText : String := "ozl " ++ Scriptlet.version ++ "\n"

/-- What is said about a file that cannot be read. -/
def unreadable (path : String) : String :=
  "Failed to read the input file '" ++ path ++ "'. Perhaps this file does not exist?"

/-- A good end with a text on the output. -/
def succeed (text : String) : Completion := ⟨0, text.toUTF8.toList, ""⟩

/-- A bad end with a message on the error output. -/
def fail (code : Nat) (message : String) : Completion := ⟨code, [], message ++ "\n"⟩

/-- Runs a script and shows its value or its error. -/
def runScript (source : String) : Completion :=
  match Script.result source with
  | (.ok v, store) => succeed (store.objects.text v ++ "\n")
  | (.error e, _) => fail 1 e.message

/-- The end of a program that conversed. -/
def conversed (outcome : Console.Outcome) : Completion :=
  match outcome.ending.message? with
  | none => ⟨0, outcome.output.written, ""⟩
  | some message => ⟨1, outcome.output.written, message ++ "\n"⟩

/-- Does what was asked for, with the given input and files. -/
def carryOut (input : List UInt8) (readFile : String → Option (List UInt8)) : Plan → Completion
  | .help => succeed helpText
  | .version => succeed versionText
  | .refuse misuse => fail 2 misuse.message
  | .converse => conversed (Console.converse .unlimited input)
  | .script source => runScript source
  | .file path =>
    match (readFile path).bind Line.decode? with
    | some source => runScript source
    | none => fail 1 (unreadable path)

end Plan

end Scriptlet
