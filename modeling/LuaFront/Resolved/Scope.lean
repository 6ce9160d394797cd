import LuaFront.Resolved.Symbol

/-!
# LuaFront.Resolved.Scope

Scopes: a stack of frames, each with the variables and labels declared directly in it. Looking up
goes from the innermost frame outward; for labels it ends at the frame of a function body.
-/

namespace LuaFront
namespace Resolved

/-- A label and the offset at which it is declared. -/
structure PlacedLabel where
  label : Label
  start : Nat
deriving DecidableEq, Repr

structure Frame where
  /-- The latest declaration first. -/
  symbols : List Local
  /-- In the order of declaration. -/
  labels : List PlacedLabel
  /-- Whether looking up a label ends here. -/
  boundary : Bool
deriving DecidableEq, Repr

namespace Frame

def symbol? (f : Frame) (name : String) : Option Local := f.symbols.find? (·.name = name)

/-- The first label of a name. -/
def label? (f : Frame) (name : String) : Option Label :=
  (f.labels.find? (·.label.name = name)).map PlacedLabel.label

end Frame

/-- Open frames, the innermost first. -/
structure Scopes where
  frames : List Frame
deriving DecidableEq, Repr

namespace Scopes

def empty : Scopes := ⟨[]⟩

instance : Inhabited Scopes := ⟨empty⟩

def push (s : Scopes) (boundary : Bool) : Scopes := ⟨⟨[], [], boundary⟩ :: s.frames⟩

def pop (s : Scopes) : Scopes := ⟨s.frames.tail⟩

/-- The number of the innermost frame, counted from the outermost. -/
def current? (s : Scopes) : Option Nat :=
  if s.frames = [] then none else some (s.frames.length - 1)

/-- The frame of a number, counted from the outermost. -/
def get? (s : Scopes) (number : Nat) : Option Frame := s.frames.reverse[number]?

/-- Changes the innermost frame, if there is one. -/
def modifyInnermost (s : Scopes) (change : Frame → Frame) : Scopes :=
  match s.frames with
  | [] => s
  | f :: outer => ⟨change f :: outer⟩

def declareVariable (s : Scopes) (symbol : Local) : Scopes :=
  s.modifyInnermost fun f => { f with symbols := symbol :: f.symbols }

def declareLabel (s : Scopes) (label : Label) (start : Nat) : Scopes :=
  s.modifyInnermost fun f => { f with labels := f.labels ++ [⟨label, start⟩] }

def lookupVariable? (s : Scopes) (name : String) : Option Local :=
  s.frames.findSome? (·.symbol? name)

/-- The frames up to and including the first boundary. -/
def upToBoundary : List Frame → List Frame
  | [] => []
  | f :: outer => if f.boundary then [f] else f :: upToBoundary outer

/-- The frames in which a label may be looked up. -/
def labelFrames (s : Scopes) : List Frame := upToBoundary s.frames

def lookupLabel? (s : Scopes) (name : String) : Option Label :=
  s.labelFrames.findSome? (·.label? name)

/-- Whether a label of the name is declared before the given offset, in the innermost frame or one
around it in the same function. -/
def labelClashes (s : Scopes) (name : String) (start : Nat) : Bool :=
  s.labelFrames.any fun f => f.labels.any fun l => l.start < start && l.label.name == name

/-- The label that the innermost frame declares at an offset. -/
def localLabel? (s : Scopes) (start : Nat) : Option Label := do
  let f ← s.frames.head?
  let l ← f.labels.find? (·.start = start)
  return l.label

end Scopes
end Resolved
end LuaFront
