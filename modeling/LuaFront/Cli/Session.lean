import LuaFront.Cli.Options
import LuaFront.Cli.Prompt
import LuaFront.Resolved.Flat
import LuaFront.Text.File

/-!
# LuaFront.Cli.Session

What the command does, as a function of its arguments, the files it can read and its input.
-/

namespace LuaFront
namespace Cli

open Syntax (Tree)
open Text (FileError Source)

/-- Everything a run of the command leaves behind. -/
structure Outcome where
  status : Nat
  output : Output
deriving DecidableEq, Repr

def Outcome.after (earlier : Output) (o : Outcome) : Outcome :=
  { o with output := earlier ++ o.output }

/-- The end of a run in which something could not be read. -/
def Outcome.ofFileError (e : FileError) : Outcome := ⟨3, ⟨"", "io error: " ++ e.message ++ "\n"⟩⟩

/-- A text with blanks after it up to the given number of characters. -/
def padRight (width : Nat) (s : String) : String :=
  s ++ String.ofList (List.replicate (width - s.length) ' ')

/-- One line for each token before the end of file. -/
def renderTokens (ls : List Lexeme) : String :=
  String.join ((ls.filter (·.token.kind ≠ .endOfFile)).map fun l =>
    padRight 10 l.token.span.render ++ " " ++ padRight 16 l.token.kind.title ++ " " ++
      l.token.render ++ "\n")

/-- Shows a text in one of several views, and after that its diagnostics. The status says whether
there were any. -/
def present (title : String) (text : List Char) (view : View) (verbose : Bool) : Outcome :=
  let tree := Tree.parse (Source.ofChars text)
  let resolved := Resolved.Program.ofTree tree 0
  let program := if view = .flattened then resolved.flatten else resolved
  let lexemes := (Lexer.ofSource tree.source).lexemes
  let lexing := if view = .tokens then Journal.empty.reportAll (lexemes.flatMap (·.diagnostics))
    else .empty
  let out := match view with
    | .diagnostics => ""
    | .tokens => renderTokens lexemes
    | .syntaxTree => tree.draw
    | .resolved | .flattened => program.render
  ⟨if program.diagnostics.isEmpty then 0 else 2,
    ⟨out, renderLog verbose tree.journal ++ renderLog verbose lexing ++
      renderLog verbose program.journal ++
      renderDiagnostics title tree.source program.diagnostics⟩⟩

/-- The lines of an input, each with the line feed that ends it. -/
def inputLines : List UInt8 → List (List UInt8)
  | [] => []
  | b :: r =>
    if b = 10 then [b] :: inputLines r
    else
      match inputLines r with
      | [] => [[b]]
      | line :: later => (b :: line) :: later

/-- The rest of a conversation: every line is asked for, then answered, until the input ends or is
no text. -/
def converse (verbose : Bool) : List (List Char) → List (List UInt8) → Outcome
  | lines, [] => ⟨0, ⟨Prompt.text lines, ""⟩⟩
  | lines, line :: later =>
    match Text.readText (.ok line) with
    | .error e => (Outcome.ofFileError e).after ⟨Prompt.text lines, ""⟩
    | .ok line =>
      let (output, lines') := Prompt.feed verbose lines line
      (converse verbose lines' later).after (⟨Prompt.text lines, ""⟩ ++ output)

/-- The bytes of the file at a path. -/
abbrev Files := String → Except FileError (List UInt8)

/-- The text of a source. -/
def Origin.text (files : Files) : Origin → Except FileError (List Char)
  | .code text => .ok text.toList
  | .file path => Text.readText (files path)

/-- A whole run of the command. -/
def run (arguments : List String) (files : Files) (input : List UInt8) : Outcome :=
  match Command.ofArguments arguments with
  | .error e => ⟨1, ⟨"", "argument error: " ++ e.message ++ "\n\n" ++ helpText ++ "\n"⟩⟩
  | .ok .help => ⟨0, ⟨"", helpText ++ "\n"⟩⟩
  | .ok .version => ⟨0, ⟨"", versionText ++ "\n"⟩⟩
  | .ok (.present origin view verbose) =>
    match origin.text files with
    | .error e => .ofFileError e
    | .ok text => present origin.title text view verbose
  | .ok (.converse none verbose) => converse verbose [] (inputLines input)
  | .ok (.converse (some origin) verbose) =>
    match origin.text files with
    | .error e => .ofFileError e
    | .ok text =>
      (converse verbose [] (inputLines input)).after
        (present origin.title text .diagnostics verbose).output

end Cli
end LuaFront
