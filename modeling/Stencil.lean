import Stencil.Echo.Evaluation
import Stencil.Main
import Stencil.Number.Numeral
import Stencil.Program.Run
import Stencil.Proofs.Echo.Expression
import Stencil.Proofs.Echo.Frame
import Stencil.Proofs.Echo.Height
import Stencil.Proofs.Number.Bits
import Stencil.Proofs.Number.Grammar
import Stencil.Proofs.Number.Nearest
import Stencil.Proofs.Number.Order
import Stencil.Proofs.Number.Patterned
import Stencil.Proofs.Number.Printed
import Stencil.Proofs.Number.ReadBack
import Stencil.Proofs.Prelude
import Stencil.Proofs.Program.Layers
import Stencil.Proofs.Program.Requests
import Stencil.Proofs.Program.Spelled
import Stencil.Proofs.Render.Counts
import Stencil.Proofs.Render.Cut
import Stencil.Proofs.Render.Descent
import Stencil.Proofs.Render.Failure
import Stencil.Proofs.Render.Joined
import Stencil.Proofs.Render.Located
import Stencil.Proofs.Render.Machine
import Stencil.Proofs.Render.Numeric
import Stencil.Proofs.Render.Replay
import Stencil.Proofs.Render.Requoted
import Stencil.Proofs.Render.Scope
import Stencil.Proofs.Render.Sinks
import Stencil.Proofs.Render.Trace
import Stencil.Proofs.Render.Unrolling
import Stencil.Proofs.Render.Volume
import Stencil.Proofs.Settings.Assignment
import Stencil.Proofs.Settings.Names
import Stencil.Proofs.Settings.Quoted
import Stencil.Proofs.Settings.Script
import Stencil.Proofs.Table.Family
import Stencil.Proofs.Token.Elsewhere
import Stencil.Proofs.Token.Feed
import Stencil.Proofs.Token.Layout
import Stencil.Proofs.Token.Literals
import Stencil.Proofs.Token.Places
import Stencil.Proofs.Token.Spelling
import Stencil.Proofs.Token.Steps
import Stencil.Proofs.Tree.Census
import Stencil.Proofs.Tree.Derivation
import Stencil.Proofs.Tree.Echoes
import Stencil.Proofs.Tree.Faults
import Stencil.Proofs.Tree.Grammar
import Stencil.Proofs.Tree.Joined
import Stencil.Proofs.Tree.Matching
import Stencil.Proofs.Tree.Nesting
import Stencil.Proofs.Tree.Parsed
import Stencil.Proofs.Tree.Requoted
import Stencil.Proofs.Tree.RoundTrip
import Stencil.Proofs.Tree.Shape
import Stencil.Proofs.Value.Arithmetic
import Stencil.Proofs.Value.Comparison
import Stencil.Render.Template
import Stencil.Settings.Script
import Stencil.Table.Stacks
import Stencil.Text.Classes
import Stencil.Text.Quoted
import Stencil.Text.UpperCase
import Stencil.Token.Lexer
import Stencil.Token.Reading
import Stencil.Token.Runs
import Stencil.Token.Stream
import Stencil.Tree.Node
import Stencil.Tree.Parser
import Stencil.Value.Arithmetic
