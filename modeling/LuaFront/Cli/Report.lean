import LuaFront.Journal
import LuaFront.Text.Source

/-!
# LuaFront.Cli.Report

Diagnostics under the lines they concern, and the lines of a verbose log.
-/

namespace LuaFront
namespace Cli

open Text (Source)

/-- The lines of a text, without the line feeds between them. -/
def splitLines : List Char → List (List Char)
  | [] => [[]]
  | c :: r =>
    if c = '\n' then [] :: splitLines r
    else
      match splitLines r with
      | [] => [[c]]
      | line :: later => (c :: line) :: later

/-- A line as it is shown, without carriage returns at its end. -/
def trimReturns (line : List Char) : List Char := (line.reverse.dropWhile (· == '\r')).reverse

/-- The line on which an offset lies, counted from one. -/
def lineContent (s : Source) (line : Nat) : List Char :=
  trimReturns ((splitLines s.chars)[line - 1]?.getD [])

/-- As many blanks as a column has characters before it. Tabs are kept, so that what follows lines
up however they are shown. -/
def margin (content : List Char) (column : Nat) : List Char :=
  (content.take column).map fun c => if c = '\t' then '\t' else ' '

/-- The number of characters of a span on its first line. -/
def widthOnLine (s : Source) (d : Diagnostic) : Nat :=
  (((s.slice d.span).getD []).takeWhile (· != '\n')).length

/-- A diagnostic with its place, the line it concerns, and a mark under the text in question. -/
def renderDiagnostic (title : String) (s : Source) (d : Diagnostic) : String :=
  let (line, column) := s.lineColumn d.span.start
  let content := lineContent s line
  let mark := '^' :: List.replicate (widthOnLine s d - 1) '~'
  s!"{title}:{line}:{column + 1}: {d.message}\n" ++
    "\t" ++ String.ofList content ++ "\n" ++
    "\t" ++ String.ofList (margin content column ++ mark) ++ "\n"

/-- All diagnostics of a text, and their number, if there are any. -/
def renderDiagnostics (title : String) (s : Source) (ds : List Diagnostic) : String :=
  if ds.isEmpty then ""
  else
    String.join (ds.map (renderDiagnostic title s)) ++
      s!"{ds.length} diagnostic" ++ (if ds.length = 1 then "\n" else "s\n")

/-- The line of the log for an event, if it has one. -/
def renderEvent (e : Event) : String :=
  match e.log? with
  | none => ""
  | some (level, origin, message) => "[" ++ level.title ++ " " ++ origin ++ "] " ++ message ++ "\n"

/-- The log of a verbose run. -/
def renderLog (verbose : Bool) (j : Journal) : String :=
  if verbose then String.join (j.events.map renderEvent) else ""

end Cli
end LuaFront
