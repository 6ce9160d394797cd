import LuaFront.Text.Source

/-!
# LuaFront.Text.File

Text that comes from outside as bytes.
-/

namespace LuaFront
namespace Text

/-- Why a text could not be read. -/
inductive FileError where
  | notFound
  | isDirectory
  | notUtf8
  /-- Anything else, as the system describes it. -/
  | other (description : String)
deriving DecidableEq, Inhabited, Repr

def FileError.message : FileError → String
  | .notFound => "No such file or directory (os error 2)"
  | .isDirectory => "Is a directory (os error 21)"
  | .notUtf8 => "stream did not contain valid UTF-8"
  | .other description => description

/-- The text of a file, given its bytes. -/
def readText (bytes : Except FileError (List UInt8)) : Except FileError (List Char) := do
  match Utf8.decode? (← bytes) with
  | none => throw .notUtf8
  | some text => return text

end Text
end LuaFront
