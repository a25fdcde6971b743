import Naskah.Cli.World
import Naskah.Main
import Naskah.Outline
import Naskah.Proofs.Token.Lexeme
import Naskah.Proofs.Token.Tokenize
import Naskah.Proofs.Token.Takes
import Naskah.Proofs.Token.Extension
import Naskah.Proofs.Number.Plain
import Naskah.Proofs.Expr.Grammar
import Naskah.Proofs.Expr.Soundness
import Naskah.Proofs.Expr.Completeness
import Naskah.Proofs.Reading.Basic
import Naskah.Proofs.Reading.Blocks
import Naskah.Proofs.Expr.Reading
import Naskah.Proofs.Stmt.Grammar
import Naskah.Proofs.Stmt.Soundness
import Naskah.Proofs.Stmt.Completeness
import Naskah.Proofs.Stmt.Reading
import Naskah.Proofs.Stmt.Blocks
import Naskah.Proofs.Program.Exact
import Naskah.Proofs.Program.Nesting
import Naskah.Proofs.Program.Frames
import Naskah.Proofs.Program.Lazy
import Naskah.Proofs.Program.Incomplete
import Naskah.Proofs.Program.Terminator
import Naskah.Proofs.Program.Steps
import Naskah.Proofs.Program.Layout
import Naskah.Proofs.Stmt.Names
import Naskah.Proofs.Machine.Plan
import Naskah.Proofs.Program.Ends
import Naskah.Proofs.Program.Concatenation
import Naskah.Proofs.Program.History
import Naskah.Proofs.Program.Unrelated
import Naskah.Proofs.Source.Derivation
import Naskah.Proofs.Source.RoundTrip
import Naskah.Proofs.Expr.Faults
import Naskah.Proofs.Machine.Failure
import Naskah.Proofs.Program.Supply
import Naskah.Proofs.Number.Binary
import Naskah.Proofs.Program.Truthful
import Naskah.Proofs.Number.Exact
import Naskah.Proofs.Json.Strings
import Naskah.Proofs.Number.Writing
import Naskah.Proofs.Json.Numerals
import Naskah.Proofs.Json.Reading
import Naskah.Proofs.Json.RoundTrip
import Naskah.Proofs.Json.Soundness
import Naskah.Proofs.Text.ByteOrder
import Naskah.Proofs.Report
import Naskah.Proofs.Cli.Commands
import Naskah.Proofs.Stmt.Fragment
import Naskah.Proofs.Stmt.Ends
import Naskah.Proofs.Loop.Passes
import Naskah.Proofs.Program.Hidden
import Naskah.Proofs.Number.Successor
import Naskah.Proofs.Loop.Desugaring
import Naskah.Proofs.Loop.Ranges
import Naskah.Proofs.Number.Nearest
import Naskah.Proofs.Program.Chain
import Naskah.Proofs.Expr.Types
import Naskah.Proofs.Value.Order
import Naskah.Proofs.Number.Overflow
import Naskah.Proofs.Value.RoundTrip
import Naskah.Proofs.Source.Tokens
import Naskah.Proofs.Token.Scanner
import Naskah.Proofs.Program.Assignments
import Naskah.Proofs.Config
import Naskah.Proofs.Text.Walker
import Naskah.Proofs.Environment
import Naskah.Proofs.Descent.Basic
import Naskah.Proofs.Descent.Steps
import Naskah.Proofs.Descent.Expr
import Naskah.Proofs.Descent.Stmt
import Naskah.Proofs.Descent.Discipline
