import LuaFront.Cli.Session

/-!
# LuaFront.Main

The command: it reads arguments, files and lines, and writes what the library makes of them.
-/

namespace LuaFront
namespace Cli

def write (o : Output) : IO Unit := do
  (← IO.getStdout).putStr o.out
  (← IO.getStdout).flush
  (← IO.getStderr).putStr o.err

def finish (o : Outcome) : IO UInt32 := do
  write o.output
  return UInt32.ofNat o.status

/-- The bytes of the file at a path. -/
def readFile (path : String) : IO (Except Text.FileError (List UInt8)) := do
  try
    return .ok (← IO.FS.readBinFile path).toList
  catch
    | .noFileOrDirectory .. => return .error .notFound
    | .inappropriateType .. => return .error .isDirectory
    | e => return .error (.other (toString e))

/-- One line of input, with the line feed that ends it. It is empty at the end of the input. -/
partial def readLine (input : IO.FS.Stream) : IO (List UInt8) := do
  let byte := (← input.read 1).toList
  if byte = [] || byte = [10] then return byte
  return byte ++ (← readLine input)

/-- A conversation from the given lines of an open input on. -/
partial def converseWith (input : IO.FS.Stream) (verbose : Bool) (lines : List (List Char)) :
    IO UInt32 := do
  write ⟨Prompt.text lines, ""⟩
  let line ← readLine input
  if line.isEmpty then return 0
  match Text.readText (.ok line) with
  | .error e => finish (.ofFileError e)
  | .ok line =>
    let (output, lines) := Prompt.feed verbose lines line
    write output
    converseWith input verbose lines

end Cli
end LuaFront

open LuaFront.Cli in
def main (arguments : List String) : IO UInt32 := do
  match Command.ofArguments arguments with
  | .ok (.converse origin verbose) =>
    if let some origin := origin then
      let files : Files ← match origin with
        | .file path => do
          let contents ← readFile path
          pure fun _ => contents
        | .code _ => pure fun _ => .error .notFound
      match origin.text files with
      | .error e => return ← finish (.ofFileError e)
      | .ok text => write (present origin.title text .diagnostics verbose).output
    converseWith (← IO.getStdin) verbose []
  | .ok (.present (.file path) _ _) =>
    let contents ← readFile path
    finish (run arguments (fun _ => contents) [])
  | _ => finish (run arguments (fun _ => .error .notFound) [])
