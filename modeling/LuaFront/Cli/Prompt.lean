import LuaFront.Cli.Report
import LuaFront.Resolved.Resolve

/-!
# LuaFront.Cli.Prompt

A conversation in which a program is given line by line. Input is tried as expressions first; as
long as it merely ended too soon, more lines are asked for.
-/

namespace LuaFront
namespace Cli

open Syntax (Tree)
open Text (Source)

/-- What goes to the two output streams. -/
structure Output where
  out : String
  err : String
deriving DecidableEq, Inhabited, Repr

namespace Output

def append (a b : Output) : Output := ⟨a.out ++ b.out, a.err ++ b.err⟩

instance : Append Output := ⟨append⟩

end Output

/-- Whether a problem is that the input ended too soon. -/
def endedTooSoon : Cause → Bool
  | .unexpectedToken _ .endOfFile | .expectedExpression .endOfFile => true
  | .unterminatedLongString | .unterminatedLongComment => true
  | _ => false

/-- Whether more lines might complete the input. -/
def unfinished (ds : List Diagnostic) : Bool := ds.any fun d => endedTooSoon d.cause

namespace Prompt

/-- The text that asks for a line, the first one of an input or one more. -/
def text (lines : List (List Char)) : String := if lines.isEmpty then "> " else ">> "

/-- The tree of an input that is complete, and the log of the attempts to read it. -/
def read (verbose : Bool) (lines : List (List Char)) : Option Tree × String :=
  let expression := Tree.parse (Source.ofSegments ("return ".toList :: lines))
  let log := renderLog verbose expression.journal
  if expression.diagnostics.isEmpty then (some expression, log)
  else
    let statement := Tree.parse (Source.ofSegments lines)
    let log := log ++ renderLog verbose statement.journal
    (if unfinished statement.diagnostics then none else some statement, log)

/-- What is shown for an input: its resolved form, or what is wrong with it. -/
def answer (verbose : Bool) (tree : Tree) : Output :=
  let program := Resolved.Program.ofTree tree 0
  let log := renderLog verbose program.journal
  if program.diagnostics.isEmpty then ⟨program.render, log⟩
  else ⟨"", log ++ renderDiagnostics "stdin" tree.source program.diagnostics⟩

/-- What one more line leads to: an output, and the lines of the input that is still open. -/
def feed (verbose : Bool) (lines : List (List Char)) (line : List Char) :
    Output × List (List Char) :=
  let lines := lines ++ [line]
  match read verbose lines with
  | (none, log) => (⟨"", log⟩, lines)
  | (some tree, log) => (⟨"", log⟩ ++ answer verbose tree, [])

end Prompt
end Cli
end LuaFront
