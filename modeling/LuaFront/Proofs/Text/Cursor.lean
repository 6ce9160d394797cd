import LuaFront.Text.Cursor

/-!
# LuaFront.Proofs.Text.Cursor

What a cursor has yet to read, with no trace of segments.

* `Cursor.Stands c offset text`: the cursor stands at an offset, with some text left, and in no
  segment that is used up.
* `Stands.peek`, `Stands.peekSecond`, `Stands.eat`: looking ahead and going on do to that text what
  they should, wherever a segment ends, and with them everything that is made of single steps.
-/

namespace LuaFront
namespace Text
namespace Cursor

/-- A cursor stands in front of a character, or at the end of the text. -/
structure Steady (c : Cursor) : Prop where
  later : ∀ s ∈ c.later, s ≠ []
  ahead : c.ahead = [] → c.later = []

structure Stands (c : Cursor) (offset : Nat) (text : List Char) : Prop where
  steady : c.Steady
  offset : c.offset = offset
  rest : c.rest = text

variable {c d : Cursor} {offset : Nat} {text : List Char}

theorem advance_of_nil (h : c.Stands offset []) : c.advance = (none, c) := by
  obtain ⟨ahead, later, offset⟩ := c
  have hahead : ahead = [] := (List.append_eq_nil_iff.1 h.rest).1
  subst hahead
  rfl

/-- A cursor passes over a character, and into the next segment behind the last one of a segment. -/
theorem advance_of_cons {x : Char} {r : List Char} (h : c.Stands offset (x :: r)) :
    ∃ c', c.advance = (some x, c') ∧ c'.Stands (offset + x.utf8Size) r := by
  obtain ⟨hsteady, rfl, hrest⟩ := h
  obtain ⟨ahead, later, offset⟩ := c
  cases ahead with
  | nil =>
    have hlater : later = [] := hsteady.ahead rfl
    simp [rest, hlater] at hrest
  | cons y ahead =>
    obtain ⟨rfl, hr⟩ : y = x ∧ ahead ++ later.flatten = r := by simpa [rest] using hrest
    cases ahead with
    | cons z ahead => exact ⟨_, rfl, ⟨hsteady.later, by simp⟩, rfl, hr⟩
    | nil =>
      cases later with
      | nil => exact ⟨_, rfl, ⟨by simp, by simp⟩, rfl, hr⟩
      | cons s later =>
        have hs : s ≠ [] := hsteady.later s (by simp)
        refine ⟨_, rfl, ⟨fun t ht => ?_, fun hnil => absurd hnil hs⟩, rfl, hr⟩
        exact hsteady.later t (List.mem_cons_of_mem s ht)

namespace Stands

theorem peek (h : c.Stands offset text) : c.peek = text.head? := by
  obtain ⟨hsteady, -, rfl⟩ := h
  obtain ⟨ahead, later, offset⟩ := c
  cases ahead with
  | nil =>
    have hlater : later = [] := hsteady.ahead rfl
    simp [Cursor.peek, Cursor.rest, hlater]
  | cons x ahead => simp [Cursor.peek, Cursor.rest]

theorem eat {x : Char} {r : List Char} (h : c.Stands offset (x :: r)) :
    c.eat.Stands (offset + x.utf8Size) r := by
  obtain ⟨c', hadvance, hstands⟩ := advance_of_cons h
  rw [Cursor.eat, hadvance]
  exact hstands

theorem eat_nil (h : c.Stands offset []) : c.eat.Stands offset [] := by
  rw [Cursor.eat, advance_of_nil h]
  exact h

theorem peekSecond (h : c.Stands offset text) : c.peekSecond = text.tail.head? := by
  change c.eat.peek = _
  cases text with
  | nil => exact h.eat_nil.peek
  | cons x r => exact h.eat.peek

theorem take (h : c.Stands offset text) (n : Nat) : c.take n = text.take n := by
  induction n generalizing c offset text with
  | zero => simp [Cursor.take]
  | succ n ih =>
    cases text with
    | nil => simp [Cursor.take, advance_of_nil h]
    | cons x r =>
      obtain ⟨c', hadvance, hstands⟩ := advance_of_cons h
      simp [Cursor.take, hadvance, ih hstands]

theorem forward (h : c.Stands offset text) (n : Nat) :
    (c.forward n).Stands (offset + size (text.take n)) (text.drop n) := by
  induction n generalizing c offset text with
  | zero => simpa [Cursor.forward] using h
  | succ n ih =>
    cases text with
    | nil => simpa [Cursor.forward] using ih h.eat_nil
    | cons x r => simpa [Cursor.forward, Nat.add_assoc] using ih h.eat

theorem eatWhile (h : c.Stands offset text) (p : Char → Bool) :
    (c.eatWhile p).1 = text.takeWhile p ∧
      (c.eatWhile p).2.Stands (offset + size (text.takeWhile p)) (text.dropWhile p) := by
  induction text generalizing c offset with
  | nil =>
    rw [eatWhile_of_none p h.peek]
    simpa using h
  | cons x r ih =>
    rw [eatWhile_of_some p h.peek]
    by_cases hp : p x
    · simpa [hp, Nat.add_assoc] using ih h.eat
    · simpa [hp] using h

theorem eatUpTo (h : c.Stands offset text) (p : Char → Bool) (n : Nat) :
    let taken := (text.take n).takeWhile p
    (c.eatUpTo p n).1 = taken ∧
      (c.eatUpTo p n).2.Stands (offset + size (text.take taken.length)) (text.drop taken.length) := by
  induction n generalizing c offset text with
  | zero => simpa [Cursor.eatUpTo] using h
  | succ n ih =>
    unfold Cursor.eatUpTo
    rw [h.peek]
    cases text with
    | nil => simpa using h
    | cons x r =>
      by_cases hp : p x
      · simpa [hp, Nat.add_assoc] using ih h.eat
      · simpa [hp] using h

end Stands
end Cursor
end Text
end LuaFront
