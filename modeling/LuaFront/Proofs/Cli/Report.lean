import LuaFront.Cli.Report
import LuaFront.Proofs.Resolved.Places
import Mathlib.Data.Prod.Lex

/-!
# LuaFront.Proofs.Cli.Report

Diagnostics are shown at the place they are about.

* `EndsAt lines place p`: what a line and a column mean. The line is there, it has as many
  characters as the column says, and these end at the offset `p`.
* `EndsAt.lt`: a later place ends at a larger offset, so an offset has one place at most.
* `walk_endsAt`: counting line feeds while reading finds the place, among the lines that splitting
  gives.
-/

namespace LuaFront
namespace Cli

open Text (Source Cursor Boundary size)

/-! ## Lines -/

theorem splitLines_eq_cons (cs : List Char) : ∃ line later, splitLines cs = line :: later := by
  fun_cases splitLines cs <;> simp

/-- Every line and a line feed behind it make the text and a line feed behind it. -/
theorem flatMap_splitLines (cs : List Char) :
    (splitLines cs).flatMap (· ++ ['\n']) = cs ++ ['\n'] := by
  induction cs with
  | nil => rfl
  | cons c r ih =>
    obtain ⟨first, later, hlines⟩ := splitLines_eq_cons r
    rw [hlines, List.flatMap_cons] at ih
    rw [splitLines, hlines]
    split
    next hc =>
      rw [List.flatMap_cons, List.flatMap_cons, ih, hc]
      rfl
    next =>
      rw [List.flatMap_cons, List.cons_append, List.cons_append, ih]
      rfl

theorem not_mem_of_mem_splitLines {cs line : List Char} (h : line ∈ splitLines cs) :
    '\n' ∉ line := by
  induction cs generalizing line with
  | nil =>
    rw [List.mem_singleton.1 h]
    simp
  | cons c r ih =>
    obtain ⟨first, later, hlines⟩ := splitLines_eq_cons r
    rw [splitLines, hlines] at h
    rw [hlines] at ih
    split at h
    · rcases List.mem_cons.1 h with rfl | h
      · simp
      · exact ih h
    next hc =>
      rcases List.mem_cons.1 h with rfl | h
      · exact List.not_mem_cons_of_ne_of_not_mem (Ne.symm hc) (ih List.mem_cons_self)
      · exact ih (List.mem_cons_of_mem first h)

/-! ## Places -/

theorem size_take_le (n : Nat) (cs : List Char) : size (cs.take n) ≤ size cs := by
  have hsplit := congrArg size (List.take_append_drop n cs)
  rw [Text.size_append] at hsplit
  omega

theorem size_take_lt {n m : Nat} {cs : List Char} (h : n < m) (hm : m ≤ cs.length) :
    size (cs.take n) < size (cs.take m) := by
  have hlen : 0 < ((cs.take m).drop n).length := by
    rw [List.length_drop, List.length_take]
    omega
  have hsize := Text.length_le_size ((cs.take m).drop n)
  have hsplit := congrArg size (List.take_append_drop n (cs.take m))
  rw [Text.size_append, List.take_take, Nat.min_eq_left (Nat.le_of_lt h)] at hsplit
  omega

/-- The first characters of a line, as many as the column says, end at an offset of the text that
the lines make. Lines are counted from one. -/
def EndsAt (lines : List (List Char)) (place : Nat × Nat) (p : Nat) : Prop :=
  ∃ before line after, lines = before ++ line :: after ∧ place.1 = before.length + 1 ∧
    place.2 ≤ line.length ∧ size (before.flatMap (· ++ ['\n']) ++ line.take place.2) = p

namespace EndsAt

variable {lines : List (List Char)} {a b : Nat × Nat} {p q : Nat}

theorem lt_of_row_lt (ha : EndsAt lines a p) (hb : EndsAt lines b q) (h : a.1 < b.1) : p < q := by
  obtain ⟨before, line, after, hlines, hrow, hcolumn, rfl⟩ := ha
  obtain ⟨before', line', after', hlines', hrow', hcolumn', rfl⟩ := hb
  have hle := size_take_le a.2 line
  have hfeed : size ['\n'] = 1 := rfl
  have hhere : before ++ [line] <+: lines := by
    refine ⟨after, ?_⟩
    rw [hlines, List.append_assoc, List.singleton_append]
  have hthere : before' <+: lines := by
    rw [hlines']
    exact List.prefix_append ..
  have hlength : (before ++ [line]).length ≤ before'.length := by
    rw [List.length_append, List.length_singleton]
    omega
  obtain ⟨more, rfl⟩ := List.prefix_of_prefix_length_le hhere hthere hlength
  simp only [List.flatMap_append, List.flatMap_cons, List.flatMap_nil, Text.size_append]
  omega

/-- On one line, offsets differ by what lies between the columns. -/
theorem of_row_eq (ha : EndsAt lines a p) (hb : EndsAt lines b q) (h : a.1 = b.1) :
    ∃ (start : Nat) (line : List Char), b.2 ≤ line.length ∧ p = start + size (line.take a.2) ∧
      q = start + size (line.take b.2) := by
  obtain ⟨before, line, after, hlines, hrow, hcolumn, rfl⟩ := ha
  obtain ⟨before', line', after', hlines', hrow', hcolumn', rfl⟩ := hb
  rw [hlines] at hlines'
  obtain ⟨rfl, hrest⟩ := List.append_inj hlines' (by omega)
  cases hrest
  exact ⟨_, line, hcolumn', Text.size_append .., Text.size_append ..⟩

/-- A later line, or a later column of the same line, ends at a larger offset. -/
theorem lt (ha : EndsAt lines a p) (hb : EndsAt lines b q) (h : toLex a < toLex b) : p < q := by
  rcases Prod.Lex.toLex_lt_toLex.1 h with hlt | ⟨heq, hlt⟩
  · exact ha.lt_of_row_lt hb hlt
  · obtain ⟨start, line, hcolumn, rfl, rfl⟩ := ha.of_row_eq hb heq
    have := size_take_lt hlt hcolumn
    omega

theorem offset_eq (ha : EndsAt lines a p) (hb : EndsAt lines a q) : p = q := by
  obtain ⟨start, line, -, rfl, rfl⟩ := ha.of_row_eq hb rfl
  rfl

theorem unique (ha : EndsAt lines a p) (hb : EndsAt lines b p) : a = b := by
  rcases lt_trichotomy (toLex a) (toLex b) with h | h | h
  · exact absurd (ha.lt hb h) (Nat.lt_irrefl p)
  · exact toLex_inj.1 h
  · exact absurd (hb.lt ha h) (Nat.lt_irrefl p)

theorem toLex_lt (ha : EndsAt lines a p) (hb : EndsAt lines b q) (h : p < q) :
    toLex a < toLex b := by
  rcases lt_trichotomy (toLex a) (toLex b) with hlt | heq | hlt
  · exact hlt
  · cases toLex_inj.1 heq
    exact absurd (ha.offset_eq hb) (Nat.ne_of_lt h)
  · exact absurd (hb.lt ha hlt) (Nat.lt_asymm h)

/-- The place behind some lines and a part of the next one. -/
theorem here (before later : List (List Char)) (part rest : List Char) :
    EndsAt (before ++ (part ++ rest) :: later) (before.length + 1, part.length)
      (size (before.flatMap (· ++ ['\n']) ++ part)) :=
  ⟨before, part ++ rest, later, rfl, rfl, by simp, by simp⟩

end EndsAt

/-! ## Counting lines while reading -/

/-- Reading on behind some lines and a part of the next one, as far as a boundary, ends at its
place. -/
theorem walk_endsAt (cs : List Char) (before : List (List Char)) (part : List Char)
    {offset n : Nat} (hoffset : size (before.flatMap (· ++ ['\n']) ++ part) = offset)
    (h : Boundary cs n) {line : List Char} {later : List (List Char)}
    (hlines : splitLines cs = line :: later) {place : Cursor} (hplace : place.Stands offset cs) :
    EndsAt (before ++ (part ++ line) :: later)
      (Source.walk (offset + n) (before.length + 1) part.length place) (offset + n) := by
  induction cs generalizing before part offset n line later place with
  | nil =>
    obtain rfl : n = 0 := Nat.le_zero.1 h.le
    rw [Source.walk_nil _ _ _ hplace, ← hoffset]
    exact EndsAt.here before later part line
  | cons c r ih =>
    by_cases hn : n = 0
    · rw [Source.walk_cons _ _ _ hplace, hn, Nat.add_zero, if_neg (Nat.lt_irrefl _), ← hoffset]
      exact EndsAt.here before later part line
    obtain ⟨m, hm, rfl⟩ := h.of_cons hn
    obtain ⟨line', later', hlines'⟩ := splitLines_eq_cons r
    rw [splitLines, hlines'] at hlines
    rw [Source.walk_cons _ _ _ hplace, if_pos (Nat.lt_add_of_pos_right (Nat.pos_of_ne_zero hn)),
      ← Nat.add_assoc]
    -- A line feed closes the part and makes it a line; anything else belongs to it.
    split at hlines
    next hc =>
      cases hlines
      rw [if_pos hc]
      have hclosed : size ((before ++ [part]).flatMap (· ++ ['\n']) ++ []) =
          offset + c.utf8Size := by
        rw [← hoffset, hc]
        simp [Nat.add_assoc]
      have hnext := ih (before ++ [part]) [] hclosed hm hlines' hplace.eat
      simpa using hnext
    next hc =>
      cases hlines
      rw [if_neg hc]
      have hlonger : size (before.flatMap (· ++ ['\n']) ++ (part ++ [c])) =
          offset + c.utf8Size := by
        rw [← hoffset]
        simp [Nat.add_assoc]
      have hnext := ih before (part ++ [c]) hlonger hm hlines' hplace.eat
      simpa using hnext

/-- The line of a place is one of the lines. -/
theorem EndsAt.getElem? {lines : List (List Char)} {place : Nat × Nat} {p : Nat}
    (h : EndsAt lines place p) : ∃ line, lines[place.1 - 1]? = some line := by
  obtain ⟨before, line, after, rfl, hrow, -⟩ := h
  refine ⟨line, ?_⟩
  rw [hrow, Nat.add_sub_cancel, List.getElem?_append_right (Nat.le_refl _), Nat.sub_self]
  rfl

theorem lineColumn_endsAt (s : Source) {p : Nat} (h : Boundary s.chars p) :
    EndsAt (splitLines s.chars) (s.lineColumn p) p := by
  obtain ⟨line, later, hlines⟩ := splitLines_eq_cons s.chars
  have hwalk := walk_endsAt s.chars [] [] rfl h hlines s.stands_cursor
  rw [hlines]
  simpa [Source.lineColumn] using hwalk

/-- An offset between characters has one place. -/
theorem endsAt_iff (s : Source) {p : Nat} (h : Boundary s.chars p) (place : Nat × Nat) :
    EndsAt (splitLines s.chars) place p ↔ place = s.lineColumn p := by
  constructor
  · intro hplace
    exact hplace.unique (lineColumn_endsAt s h)
  · intro hplace
    rw [hplace]
    exact lineColumn_endsAt s h

theorem toLex_lineColumn_lt (s : Source) {p q : Nat} (hp : Boundary s.chars p)
    (hq : Boundary s.chars q) (h : p < q) : toLex (s.lineColumn p) < toLex (s.lineColumn q) :=
  (lineColumn_endsAt s hp).toLex_lt (lineColumn_endsAt s hq) h

/-! ## Diagnostics -/

/-- What is shown of a diagnostic: the number and the text of a line, and a mark under what is
sliced from the text. -/
theorem renderDiagnostic_eq (title : String) {s : Source} {d : Diagnostic} {line column : Nat}
    {content marked : List Char} (hplace : s.lineColumn d.span.start = (line, column))
    (hline : (splitLines s.chars)[line - 1]? = some content)
    (hslice : s.slice d.span = some marked) :
    renderDiagnostic title s d = s!"{title}:{line}:{column + 1}: {d.message}\n" ++
      "\t" ++ String.ofList (trimReturns content) ++ "\n" ++
      "\t" ++ String.ofList (margin (trimReturns content) column ++
        '^' :: List.replicate ((marked.takeWhile (· != '\n')).length - 1) '~') ++ "\n" := by
  simp only [renderDiagnostic, hplace, lineContent, hline, widthOnLine, hslice, Option.getD_some]

/-- A diagnostic between two characters is shown on the line that it starts on. -/
theorem exists_shown {s : Source} {d : Diagnostic} (h : d.span.On (Boundary s.chars)) :
    ∃ line column content marked, EndsAt (splitLines s.chars) (line, column) d.span.start ∧
      (splitLines s.chars)[line - 1]? = some content ∧ s.slice d.span = some marked ∧
      ∀ title, renderDiagnostic title s d = s!"{title}:{line}:{column + 1}: {d.message}\n" ++
        "\t" ++ String.ofList (trimReturns content) ++ "\n" ++
        "\t" ++ String.ofList (margin (trimReturns content) column ++
          '^' :: List.replicate ((marked.takeWhile (· != '\n')).length - 1) '~') ++ "\n" := by
  obtain ⟨_, marked, _, _, _, _, hslice⟩ := Source.slice_of_boundary h.start h.stop h.le
  have hends := lineColumn_endsAt s h.start
  obtain ⟨content, hcontent⟩ := hends.getElem?
  refine ⟨_, _, content, marked, hends, hcontent, hslice, ?_⟩
  intro title
  exact renderDiagnostic_eq title rfl hcontent hslice

/-- Diagnostics can be shown, and are shown at the right place. Every diagnostic of a program lies
between two characters of its text, so that its stretch can be sliced, and the line and the column
that are shown are those of its start: the line is one of the lines of the text, and as many of its
characters as the column says end there. Any boundary has just one such place, a larger one a later
place. -/
theorem diagnostics_shown (segments : List (List Char)) (unit : Nat) :
    let text := Source.ofSegments segments
    let lines := splitLines segments.flatten
    (∀ d ∈ (Resolved.Program.ofTree (Syntax.Tree.parse text) unit).diagnostics,
      (d.span.start ≤ d.span.stop ∧ d.span.stop ≤ text.length ∧
        Boundary segments.flatten d.span.start ∧ Boundary segments.flatten d.span.stop) ∧
      ∃ line column content marked, EndsAt lines (line, column) d.span.start ∧
        lines[line - 1]? = some content ∧ text.slice d.span = some marked ∧
        ∀ title, renderDiagnostic title text d = s!"{title}:{line}:{column + 1}: {d.message}\n" ++
          "\t" ++ String.ofList (trimReturns content) ++ "\n" ++
          "\t" ++ String.ofList (margin (trimReturns content) column ++
            '^' :: List.replicate ((marked.takeWhile (· != '\n')).length - 1) '~') ++ "\n") ∧
    (lines.flatMap (· ++ ['\n']) = segments.flatten ++ ['\n'] ∧ ∀ l ∈ lines, '\n' ∉ l) ∧
    (∀ p, Boundary segments.flatten p →
      ∀ place, EndsAt lines place p ↔ place = text.lineColumn p) ∧
    ∀ p q, Boundary segments.flatten p → Boundary segments.flatten q → p < q →
      toLex (text.lineColumn p) < toLex (text.lineColumn q) := by
  intro text lines
  have hchars : text.chars = segments.flatten := Source.chars_ofSegments segments
  have hlines : splitLines text.chars = lines := congrArg splitLines hchars
  rw [← hchars, ← hlines]
  refine ⟨?_, ⟨flatMap_splitLines _, fun l hl => not_mem_of_mem_splitLines hl⟩,
    fun p hp place => endsAt_iff text hp place, fun p q hp hq h => toLex_lineColumn_lt text hp hq h⟩
  intro d hd
  have hon := Resolved.Program.diagnostics_on text unit d hd
  have hlength : d.span.stop ≤ text.length := by
    rw [Source.length_eq_size_chars]
    exact hon.stop.le
  exact ⟨⟨hon.le, hlength, hon.start, hon.stop⟩, exists_shown hon⟩

/-- An escape that crosses the border of two segments, behind a character of two bytes, and a
character of three bytes behind a label on a line that a tab starts. -/
theorem diagnostics_shown_wide :
    let segments := ["x = \"é\\".toList, [], "q\"\r\n\tgoto l€".toList]
    let text := Source.ofSegments segments
    let lines := splitLines segments.flatten
    let d : Diagnostic := ⟨⟨19, 22⟩, .badCharacter '€'⟩
    d ∈ (Resolved.Program.ofTree (Syntax.Tree.parse text) 0).diagnostics ∧
      (d.span.stop ≤ text.length ∧ Boundary segments.flatten 19 ∧ Boundary segments.flatten 22) ∧
      ((∃ marked, text.slice d.span = some marked) ∧ text.lineColumn 19 = (2, 7)) ∧
      Boundary segments.flatten 7 ∧
      (EndsAt lines (1, 6) 7 ↔ (1, 6) = text.lineColumn 7) ∧
      toLex (text.lineColumn 7) < toLex (text.lineColumn 19) := by
  intro segments text lines d
  have hmem : d ∈ (Resolved.Program.ofTree (Syntax.Tree.parse text) 0).diagnostics := by
    decide +kernel
  have hseven : Boundary segments.flatten 7 := by decide +kernel
  obtain ⟨hdiagnostics, -, hplaces, hincreases⟩ := diagnostics_shown segments 0
  obtain ⟨⟨-, hlength, hstart, hstop⟩, _, _, _, marked, -, -, hslice, -⟩ := hdiagnostics d hmem
  refine ⟨hmem, ⟨hlength, hstart, hstop⟩, ⟨⟨marked, hslice⟩, by decide +kernel⟩, hseven,
    hplaces 7 hseven (1, 6), hincreases 7 19 hseven hstart (by decide)⟩

end Cli
end LuaFront
