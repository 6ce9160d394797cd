import LuaFront.Diagnostic
import LuaFront.Text.Source

/-!
# LuaFront.Token.Scanner

A place in a text from which tokens are read: the characters that are left, and the byte offset
of the first of them. Reading leaves a place with no more characters than before, and every
reader here says by how much.
-/

namespace LuaFront

open Text (Span)

structure Scanner where
  offset : Nat
  rest : List Char
deriving DecidableEq, Inhabited, Repr

namespace Scanner

/-- The place at the start of a text. -/
def ofSource (s : Text.Source) : Scanner := ⟨0, s.chars⟩

/-- The place after the next `n` characters, or at the end if there are fewer. -/
def skip (n : Nat) (s : Scanner) : Scanner :=
  ⟨s.offset + Text.size (s.rest.take n), s.rest.drop n⟩

/-- The next characters as long as they satisfy `p`, and the place after them. -/
def takeWhile (p : Char → Bool) (s : Scanner) : List Char × Scanner :=
  let taken := s.rest.takeWhile p
  (taken, ⟨s.offset + Text.size taken, s.rest.dropWhile p⟩)

/-- The stretch of text from `start` to this place. -/
def spanFrom (s : Scanner) (start : Nat) : Span := ⟨start, s.offset⟩

@[simp] theorem rest_skip (n : Nat) (s : Scanner) : (s.skip n).rest = s.rest.drop n := rfl

@[simp] theorem takeWhile_fst (p : Char → Bool) (s : Scanner) :
    (s.takeWhile p).1 = s.rest.takeWhile p := rfl

@[simp] theorem rest_takeWhile (p : Char → Bool) (s : Scanner) :
    (s.takeWhile p).2.rest = s.rest.dropWhile p := rfl

theorem length_dropWhile_le (p : Char → Bool) (cs : List Char) :
    (cs.dropWhile p).length ≤ cs.length :=
  (List.dropWhile_sublist p).length_le

/-- Spaces, tabs and line breaks of every kind. -/
def isBlank (c : Char) : Bool :=
  c == ' ' || c == '\t' || c == '\n' || c == '\r' || c == '\x0b' || c == '\x0c'

def isLineBreak (c : Char) : Bool := c == '\n' || c == '\r'

/-- What a name may start with. -/
def isNameStart (c : Char) : Bool := ('a' ≤ c && c ≤ 'z') || ('A' ≤ c && c ≤ 'Z') || c == '_'

def isNameChar (c : Char) : Bool := isNameStart c || ('0' ≤ c && c ≤ '9')

/-- The number of characters of the line ending that comes next: a carriage return and a line
feed, in either order, are one line ending. -/
def lineEnding : List Char → Nat
  | '\r' :: '\n' :: _ => 2
  | '\n' :: '\r' :: _ => 2
  | '\r' :: _ => 1
  | '\n' :: _ => 1
  | _ => 0

end Scanner
end LuaFront
