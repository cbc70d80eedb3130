import Scriptlet.CommandLine
import Scriptlet.Main
import Scriptlet.Workspace
import Scriptlet.Proofs.Grammar.Derivation
import Scriptlet.Proofs.Grammar.Reader
import Scriptlet.Proofs.Grammar.Soundness
import Scriptlet.Proofs.Grammar.Completeness
import Scriptlet.Proofs.Grammar.Exactness
import Scriptlet.Proofs.Lexer.Layout
import Scriptlet.Proofs.Program.WellFormed
import Scriptlet.Proofs.Program.Rendering
import Scriptlet.Proofs.Grammar.Closure
import Scriptlet.Proofs.Grammar.Completion
import Scriptlet.Proofs.Grammar.FirstViolation
import Scriptlet.Proofs.Number.Digits
import Scriptlet.Proofs.Number.RoundTrip
import Scriptlet.Proofs.Grammar.EndMarker
import Scriptlet.Proofs.Grammar.Respelling
import Scriptlet.Proofs.Eval.Outcome
import Scriptlet.Proofs.Program.Joining
import Scriptlet.Proofs.Program.Places
import Scriptlet.Proofs.Store.Resolution
import Scriptlet.Proofs.Store.Scopes
import Scriptlet.Proofs.Eval.Congruence
import Scriptlet.Proofs.Workspace.History
import Scriptlet.Proofs.Workspace.Requests
import Scriptlet.Proofs.Eval.Indifference
import Scriptlet.Proofs.Grammar.Stability
import Scriptlet.Proofs.Console.Conversation
import Scriptlet.Proofs.Value.Content
import Scriptlet.Proofs.Lexer.Fragment
import Scriptlet.Proofs.Value.Reading
import Scriptlet.Proofs.Workspace.Handles
import Scriptlet.Proofs.Workspace.Names
import Scriptlet.Proofs.Value.Graph
import Scriptlet.Proofs.Eval.Sharing
import Scriptlet.Proofs.Workspace.Objects
import Scriptlet.Proofs.Lexer.Illegal
import Scriptlet.Proofs.Lexer.Positions
import Scriptlet.Proofs.Eval.StackMachine
import Scriptlet.Proofs.Eval.Frame
import Scriptlet.Proofs.Eval.ObjectLiterals
import Scriptlet.Proofs.Grammar.Dots
import Scriptlet.Proofs.Program.EndPlace
import Scriptlet.Proofs.Program.Precedence
import Scriptlet.Proofs.Value.Equality
import Scriptlet.Proofs.Eval.Arithmetic
import Scriptlet.Proofs.Grammar.Unrolling
import Scriptlet.Proofs.Grammar.Progress
