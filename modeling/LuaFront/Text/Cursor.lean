import LuaFront.Text.Span
import LuaFront.Text.Utf8

/-!
# LuaFront.Text.Cursor

Walking over a text that is kept in segments. A `Cursor` hands out characters one by one and goes
from one segment into the next, so whatever is read with it may start in one and end in another.
To look further ahead than one character, one walks on with a copy.
-/

namespace LuaFront
namespace Text

/-- A place in a text from which its characters are read one by one. -/
structure Cursor where
  /-- What is left of the segment being read. -/
  ahead : List Char
  /-- The segments after it. -/
  later : List (List Char)
  offset : Nat

namespace Cursor

def peek (c : Cursor) : Option Char := c.ahead.head?

/-- The next character, if any, and the place after it. A segment that is used up gives way to
the one after it. -/
def advance (c : Cursor) : Option Char × Cursor :=
  match c.ahead, c.later with
  | [], _ => (none, c)
  | [x], [] => (some x, ⟨[], [], c.offset + x.utf8Size⟩)
  | [x], s :: later => (some x, ⟨s, later, c.offset + x.utf8Size⟩)
  | x :: ahead, later => (some x, ⟨ahead, later, c.offset + x.utf8Size⟩)

/-- The character after the next one, if any. -/
def peekSecond (c : Cursor) : Option Char := c.advance.2.peek

/-- The next characters, at most `n` of them. -/
def take : Nat → Cursor → List Char
  | 0, _ => []
  | n + 1, c =>
    match c.advance with
    | (none, _) => []
    | (some x, c') => x :: take n c'

/-- All characters that are left. -/
def rest (c : Cursor) : List Char := c.ahead ++ c.later.flatten

/-- The number of characters that are left. -/
def left (c : Cursor) : Nat := c.rest.length

/-- The place after the next character. -/
def eat (c : Cursor) : Cursor := c.advance.2

/-- The cursor after it was advanced `n` times. -/
def forward : Nat → Cursor → Cursor
  | 0, c => c
  | n + 1, c => forward n c.eat

theorem left_eat_lt {c : Cursor} {x : Char} (h : c.peek = some x) : c.eat.left < c.left := by
  obtain ⟨ahead, later, offset⟩ := c
  cases ahead with
  | nil => cases h
  | cons y ahead =>
    cases ahead with
    | cons z ahead => simp [left, rest, eat, advance]
    | nil => cases later <;> simp [left, rest, eat, advance]

theorem left_eat_le (c : Cursor) : c.eat.left ≤ c.left := by
  cases h : c.peek with
  | some x => exact Nat.le_of_lt (left_eat_lt h)
  | none =>
    obtain ⟨ahead, later, offset⟩ := c
    cases ahead with
    | nil => exact Nat.le_refl _
    | cons y ahead => cases h

theorem left_forward_le (n : Nat) (c : Cursor) : (c.forward n).left ≤ c.left := by
  induction n generalizing c with
  | zero => exact Nat.le_refl _
  | succ n ih => exact Nat.le_trans (ih c.eat) (left_eat_le c)

/-- The next characters as long as they satisfy `p`, and the place after them. -/
def eatWhile (p : Char → Bool) (c : Cursor) : List Char × Cursor :=
  match _h : c.peek with
  | some x =>
    if p x then
      let later := eatWhile p c.eat
      (x :: later.1, later.2)
    else ([], c)
  | none => ([], c)
termination_by c.left
decreasing_by exact left_eat_lt _h

theorem eatWhile_of_none {c : Cursor} (p : Char → Bool) (h : c.peek = none) :
    c.eatWhile p = ([], c) := by
  rw [eatWhile]
  split <;> simp_all

theorem eatWhile_of_some {c : Cursor} {x : Char} (p : Char → Bool) (h : c.peek = some x) :
    c.eatWhile p =
      if p x then (x :: (c.eat.eatWhile p).1, (c.eat.eatWhile p).2) else ([], c) := by
  rw [eatWhile]
  split <;> simp_all

theorem left_eatWhile_le (p : Char → Bool) (c : Cursor) : (c.eatWhile p).2.left ≤ c.left := by
  fun_induction eatWhile p c with
  | case1 c x h hp later ih => exact Nat.le_trans ih (left_eat_le c)
  | case2 => exact Nat.le_refl _
  | case3 => exact Nat.le_refl _

/-- At most `n` characters that satisfy `p`, and the place after them. -/
def eatUpTo (p : Char → Bool) : Nat → Cursor → List Char × Cursor
  | 0, c => ([], c)
  | n + 1, c =>
    match c.peek with
    | some x =>
      if p x then
        let later := eatUpTo p n c.eat
        (x :: later.1, later.2)
      else ([], c)
    | none => ([], c)

theorem left_eatUpTo_le (p : Char → Bool) (n : Nat) (c : Cursor) :
    (c.eatUpTo p n).2.left ≤ c.left := by
  fun_induction eatUpTo p n c with
  | case1 => exact Nat.le_refl _
  | case2 n c x h hp later ih => exact Nat.le_trans ih (left_eat_le c)
  | case3 => exact Nat.le_refl _
  | case4 => exact Nat.le_refl _

end Cursor
end Text
end LuaFront
