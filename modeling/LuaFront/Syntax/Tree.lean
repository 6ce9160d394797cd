import LuaFront.Syntax.Outline
import LuaFront.Syntax.Reading.Statement
import LuaFront.Text.File

/-!
# LuaFront.Syntax.Tree

A program's text together with its syntax tree.
-/

namespace LuaFront
namespace Syntax

structure Tree where
  source : Text.Source
  root : Chunk
  journal : Journal

namespace Tree

/-- Reads a text. There is a tree for every text, whatever is wrong with it. -/
def parse (source : Text.Source) : Tree :=
  let (root, reading) := (Reading.ofSource source).run Read.chunk
  { source, root
    journal := reading.journal.record
      (.parsed source.length reading.journal.diagnostics.length) }

/-- Reads the text of a file, given its bytes. -/
def load (bytes : Except Text.FileError (List UInt8)) : Except Text.FileError Tree :=
  (Text.readText bytes).map fun text => parse (.ofChars text)

def diagnostics (t : Tree) : List Diagnostic := t.journal.diagnostics

def draw (t : Tree) : String := t.root.draw

end Tree
end Syntax
end LuaFront
