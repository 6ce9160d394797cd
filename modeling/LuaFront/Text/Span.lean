/-!
# LuaFront.Text.Span

Stretches of a text, given by the byte offsets of their two ends.
-/

namespace LuaFront
namespace Text

/-- The stretch of a text from the byte offset `start` up to, and without, `stop`. -/
structure Span where
  start : Nat
  stop : Nat
deriving DecidableEq, Inhabited, Repr

namespace Span

/-- The stretch of width zero at `offset`. -/
def empty (offset : Nat) : Span := ⟨offset, offset⟩

/-- Whether `inner` lies entirely within `outer`. -/
def contains (outer inner : Span) : Bool :=
  outer.start ≤ inner.start && inner.stop ≤ outer.stop

def render (s : Span) : String := s!"{s.start}..{s.stop}"

theorem contains_iff {outer inner : Span} :
    outer.contains inner = true ↔ outer.start ≤ inner.start ∧ inner.stop ≤ outer.stop := by
  simp [contains]

end Span
end Text
end LuaFront
