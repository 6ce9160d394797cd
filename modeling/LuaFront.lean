import LuaFront.Main
import LuaFront.Proofs.Syntax.Reading
import LuaFront.Resolved.Equality
import LuaFront.Resolved.Transform
import LuaFront.Syntax.Equality
import LuaFront.Proofs.Syntax.Expression
import LuaFront.Proofs.Syntax.Statement
import LuaFront.Proofs.Syntax.Derivation
import LuaFront.Proofs.Syntax.Canonical
import LuaFront.Proofs.Syntax.Acceptance
import LuaFront.Proofs.Resolved.Lexical
import LuaFront.Proofs.Resolved.Scoping
import LuaFront.Proofs.Resolved.Labels
import LuaFront.Proofs.Resolved.Origin
import LuaFront.Proofs.Resolved.Jumps
import LuaFront.Proofs.Resolved.Renaming
import LuaFront.Proofs.Resolved.Run
import LuaFront.Proofs.Resolved.Splice
import LuaFront.Proofs.Resolved.Simulation
import LuaFront.Proofs.Resolved.Hidden
import LuaFront.Proofs.Resolved.Meaning
import LuaFront.Proofs.Text.Source
import LuaFront.Proofs.Text.Cursor
import LuaFront.Proofs.Resolved.Segments
import LuaFront.Proofs.Token.LongBracket
import LuaFront.Proofs.Token.Layout
import LuaFront.Proofs.Token.Tiling
import LuaFront.Proofs.Number.Digits
import LuaFront.Proofs.Token.RoundTrip
import LuaFront.Proofs.Token.Lexer
import LuaFront.Proofs.Syntax.Relocation
import LuaFront.Proofs.Syntax.Moving
import LuaFront.Proofs.Syntax.Layout
import LuaFront.Proofs.Syntax.Words
import LuaFront.Proofs.Resolved.Layout
import LuaFront.Proofs.Syntax.Acts
import LuaFront.Proofs.Syntax.Spans
import LuaFront.Proofs.Syntax.Nesting
import LuaFront.Proofs.Syntax.Shapes
import LuaFront.Proofs.Resolved.Violations
import LuaFront.Proofs.Resolved.Reports
import LuaFront.Proofs.Syntax.InStep
import LuaFront.Proofs.Syntax.Depth
import LuaFront.Proofs.Syntax.Progress
import LuaFront.Proofs.Token.Cutting
import LuaFront.Proofs.Syntax.Blame
import LuaFront.Proofs.Syntax.Exactness
import LuaFront.Proofs.Resolved.NormalForm
import LuaFront.Proofs.Syntax.Precedence
import LuaFront.Proofs.Resolved.Variables
import LuaFront.Proofs.Resolved.Binding
import LuaFront.Proofs.Resolved.Constants
import LuaFront.Proofs.Resolved.Locals
import LuaFront.Proofs.Resolved.ScopeHistory
import LuaFront.Proofs.Resolved.ScopeTable
import LuaFront.Proofs.Resolved.Leaves
import LuaFront.Proofs.Resolved.Provenance
import LuaFront.Proofs.Syntax.Completion
import LuaFront.Proofs.Syntax.FirstError
import LuaFront.Proofs.Syntax.Consumption
import LuaFront.Proofs.Token.LineCut
import LuaFront.Proofs.Cli.Prompt
import LuaFront.Proofs.Number.Written
import LuaFront.Proofs.Token.QuotedString
import LuaFront.Proofs.Token.LongString
import LuaFront.Proofs.Number.Grammar
import LuaFront.Proofs.Token.Numeral
import LuaFront.Proofs.Text.Slice
import LuaFront.Proofs.Text.Utf8
import LuaFront.Proofs.Text.Decoding
import LuaFront.Proofs.Token.Utf8Escape
import LuaFront.Proofs.Number.Binary64
import LuaFront.Proofs.Number.HexFloat
import LuaFront.Proofs.Number.Truncation
import LuaFront.Proofs.Token.HexFloat
import LuaFront.Proofs.Cli.Report
import LuaFront.Proofs.Token.Causes
import LuaFront.Proofs.Syntax.SingleBlame
import LuaFront.Proofs.Resolved.Restoring
import LuaFront.Proofs.Syntax.Drawing
import LuaFront.Proofs.Resolved.Identifier
