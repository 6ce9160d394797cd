import LuaFront.Syntax.Node

/-!
# LuaFront.Syntax.Outline

Trees with any number of branches, the walk through such a tree, and its drawing: one line for
each value, in which branches connect it to the line of its parent.
-/

namespace LuaFront
namespace Syntax

inductive Outline (α : Type) where
  | mk (value : α) (branches : List (Outline α))

namespace Outline

variable {α : Type}

def value : Outline α → α
  | .mk value _ => value

/-- A value of an outline, with the number of values above it and the one right above it. -/
structure Visit (α : Type) where
  depth : Nat
  parent : Option α
  value : α

mutual

/-- All values, each before those below it. -/
def visits (depth : Nat) (parent : Option α) : Outline α → List (Visit α)
  | .mk value branches => ⟨depth, parent, value⟩ :: visitsAll (depth + 1) (some value) branches

def visitsAll (depth : Nat) (parent : Option α) : List (Outline α) → List (Visit α)
  | [] => []
  | o :: later => visits depth parent o ++ visitsAll depth parent later

end

def preorder (o : Outline α) : List (Visit α) := o.visits 0 none

/-- A line of a drawing. Its trail says of every value from the root's child down to its own
whether that value is the last branch of its parent. -/
structure Line where
  trail : List Bool
  label : String
deriving DecidableEq, Repr

mutual

def lines (label : α → String) (trail : List Bool) : Outline α → List Line
  | .mk value branches => ⟨trail, label value⟩ :: linesAll label trail branches

def linesAll (label : α → String) (trail : List Bool) : List (Outline α) → List Line
  | [] => []
  | o :: later =>
    lines label (trail ++ [later.isEmpty]) o ++ linesAll label trail later

end

namespace Line

/-- The four columns of a trail, of which the last connect to the label. -/
def margin : List Bool → String
  | [] => ""
  | [true] => "└── "
  | [false] => "├── "
  | true :: later => "    " ++ margin later
  | false :: later => "│   " ++ margin later

def render (l : Line) : String := margin l.trail ++ l.label ++ "\n"

end Line

def draw (label : α → String) (o : Outline α) : String :=
  String.join ((o.lines label []).map Line.render)

end Outline

/-- A node with everything below it. -/
def Node.outline (n : Node) : Outline Node :=
  .mk n (n.children.attach.map fun c => outline c.1)
termination_by sizeOf n
decreasing_by exact Node.sizeOf_lt_of_mem_children c.2

/-- A program as a drawing, with one line for each node. -/
def Chunk.draw (c : Chunk) : String := (Node.chunk c).outline.draw Node.label

end Syntax
end LuaFront
