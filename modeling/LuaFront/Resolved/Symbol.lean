/-!
# LuaFront.Resolved.Symbol

Symbols: local variables and labels. A symbol is known by its identity and not by its name, so
two variables of one name in different places are different symbols.
-/

namespace LuaFront
namespace Resolved

inductive SymbolId where
  /-- The symbol that was declared as number `index` in a unit of the program. -/
  | declared (unit index : Nat)
  /-- The symbol that was made up as number `index` while control flow was flattened. -/
  | generated (index : Nat)
deriving DecidableEq, Inhabited, Repr

structure Local where
  id : SymbolId
  name : String
  /-- Whether it was declared with the attribute `const`. -/
  const : Bool
  /-- Whether it was declared with the attribute `close`. -/
  toBeClosed : Bool
deriving DecidableEq, Inhabited, Repr

namespace Local

def plain (id : SymbolId) (name : String) : Local := ⟨id, name, false, false⟩

/-- Whether the variable keeps the value it was declared with. -/
def isConstant (l : Local) : Bool := l.const || l.toBeClosed

/-- The variable as its declaration shows it. -/
def renderDeclared (l : Local) : String :=
  if l.toBeClosed then l.name ++ " <close>"
  else if l.const then l.name ++ " <const>"
  else l.name

end Local

/-- The target of a jump. -/
structure Label where
  id : SymbolId
  name : String
deriving DecidableEq, Inhabited, Repr

end Resolved
end LuaFront
