/-!
# LuaFront.Cli.Options

The arguments of the command line. Flags may stand anywhere and may be joined, as in `-vt`; what
is left over is the source.
-/

namespace LuaFront
namespace Cli

/-- A flag that is written as a letter or as a word. -/
structure Flag where
  letter : Char
  word : String
deriving DecidableEq, Repr

namespace Flag

def short (f : Flag) : String := String.ofList ['-', f.letter]

def long (f : Flag) : String := "--" ++ f.word

/-- Whether an argument is one hyphen and letters, of which the flag's is one. -/
def isJoined (f : Flag) (argument : String) : Bool :=
  match argument.toList with
  | '-' :: '-' :: _ => false
  | '-' :: letters => letters.contains f.letter
  | _ => false

/-- The arguments without the letter of the flag in the first argument that joins it to others. -/
def takeJoined? (f : Flag) : List String → Option (List String)
  | [] => none
  | a :: later =>
    if f.isJoined a then
      some (if a.utf8ByteSize = 2 then later else String.ofList (a.toList.erase f.letter) :: later)
    else (takeJoined? f later).map (a :: ·)

/-- Whether the flag is given, and the arguments without it. Its short form is looked for first,
then its long form, then its letter joined to others. -/
def take (f : Flag) (arguments : List String) : Bool × List String :=
  if arguments.contains f.short then (true, arguments.erase f.short)
  else if arguments.contains f.long then (true, arguments.erase f.long)
  else
    match f.takeJoined? arguments with
    | some rest => (true, rest)
    | none => (false, arguments)

end Flag

/-- Where a program's text comes from. -/
inductive Origin where
  | file (path : String)
  | code (text : String)
deriving DecidableEq, Repr

/-- How a source is called in diagnostics. -/
def Origin.title : Origin → String
  | .file path => path
  | .code _ => "(command line)"

/-- What is shown of a program. -/
inductive View where
  | diagnostics
  | tokens
  | syntaxTree
  | resolved
  | flattened
deriving DecidableEq, Repr

inductive Command where
  | help
  | version
  /-- Shows a source. -/
  | present (origin : Origin) (view : View) (verbose : Bool)
  /-- Starts a prompt, after checking a source if there is one. -/
  | converse (origin : Option Origin) (verbose : Bool)
deriving DecidableEq, Repr

/-- What is wrong with the arguments. -/
inductive ArgumentError where
  | missingSource
deriving DecidableEq, Repr

def ArgumentError.message : ArgumentError → String
  | .missingSource => "free-standing argument is missing"

/-- Takes a flag from the arguments at hand. -/
def flag (letter : Char) (word : String) : StateM (List String) Bool := Flag.take ⟨letter, word⟩

/-- What the arguments ask for. The first view asked for wins. -/
def Command.read : StateM (List String) (Except ArgumentError Command) := do
  if ← flag 'h' "help" then return .ok .help
  if ← flag 'V' "version" then return .ok .version
  let verbose ← flag 'v' "verbose"
  let interactive ← flag 'i' "interactive"
  let tokens ← flag 't' "tokens"
  let syntaxTree ← flag 's' "ast"
  let resolved ← flag 'b' "bound"
  let flattened ← flag 'l' "lowered"
  let evaluate ← flag 'e' "evaluate"
  let view : View :=
    if tokens then .tokens
    else if syntaxTree then .syntaxTree
    else if resolved then .resolved
    else if flattened then .flattened
    else .diagnostics
  match (← get).head? with
  | none =>
    if evaluate then return .error .missingSource
    return .ok (.converse none verbose)
  | some argument =>
    let origin : Origin := if evaluate then .code argument else .file argument
    if interactive then return .ok (.converse (some origin) verbose)
    return .ok (.present origin view verbose)

def Command.ofArguments (arguments : List String) : Except ArgumentError Command :=
  (Command.read.run arguments).1

/-- The text that explains the arguments. -/
def helpText : String := String.intercalate "\n" [
  "Lua 5.4 Front End",
  "",
  "Selenite is licensed under GPL-3.0.",
  "The Lua programming language is owned and copyrighted by PUC-Rio.",
  "",
  "SYNOPSIS:",
  "\tselenite [OPTIONS] [SOURCE]",
  "",
  "DESCRIPTION:",
  "\tselenite is a standalone Lua checker. It lexes, parses and binds Lua source code, reporting " ++
    "every problem it finds along the way, without running anything.",
  "",
  "\tSOURCE is either checked directly, if -e is passed, otherwise the file named SOURCE is loaded " ++
    "and checked. Rather than only reporting diagnostics, the tokens, syntax tree, bound tree or " ++
    "lowered tree of SOURCE may be shown instead. If SOURCE is not provided, or -i is passed, an " ++
    "interactive prompt starts.",
  "",
  "\tPassing -v will print verbose information to standard error.",
  "",
  "OPTIONS:",
  "\t-h, --help        Displays this and quits",
  "\t-V, --version     Displays version information",
  "\t-v, --verbose     Runs with verbose output",
  "\t-i, --interactive Runs in interactive mode, after checking SOURCE",
  "\t-e, --evaluate    Treats source as direct source code, rather than a file",
  "\t-t, --tokens      Shows tokens rather than diagnostics",
  "\t-s, --ast         Shows the syntax tree rather than diagnostics",
  "\t-b, --bound       Shows the bound tree rather than diagnostics",
  "\t-l, --lowered     Shows the lowered tree rather than diagnostics"]

def versionText : String := "Selenite 0.1.0 Beta\nTargeting Lua 5.4"

end Cli
end LuaFront
