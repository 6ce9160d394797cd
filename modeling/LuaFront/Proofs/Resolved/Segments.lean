import LuaFront.Proofs.Token.Lexer
import LuaFront.Resolved.Flat

/-!
# LuaFront.Proofs.Resolved.Segments

How a text is cut into segments does not matter: `Source.alike_ofSegments`.

Segments are seen by two things only. A cursor walks over them, and with it the lexer, whose
look-ahead of any kind may leave a segment; and lines and columns are counted over them. For both,
what they do at a cursor is what they would do at the place where it stands in the flat text
(`Cursor.At.lex`, `Source.walk_congr`), so they do the same at two cursors that stand alike.
-/

namespace LuaFront

open Text (Source)

/-! ## Walking over a text -/

namespace Text.Source

/-- After `n` characters two cursors over the same text stand at the same offset, with the same
characters ahead. -/
theorem stands_forward {s w : Source} (h : s.chars = w.chars) (n : Nat) :
    ∃ offset text, (s.cursor.forward n).Stands offset text ∧
      (w.cursor.forward n).Stands offset text :=
  ⟨_, _, s.stands_cursor.forward n, h ▸ w.stands_cursor.forward n⟩

theorem lexemes_congr {s w : Source} (h : s.chars = w.chars) :
    (Lexer.ofSource s).lexemes = (Lexer.ofSource w).lexemes := by
  have hplace : w.cursor.At ⟨0, s.chars⟩ := h ▸ w.stands_cursor
  have hs : (Lexer.ofSource s).lexemes = Scanner.lexemes ⟨0, s.chars⟩ :=
    Lexer.lexemes_at s.stands_cursor
  rw [hs]
  exact (Lexer.lexemes_at hplace).symm

end Text.Source

/-! ## Programs -/

namespace Syntax.Tree

/-- Texts that are lexed alike have the same tree, and the same happens while they are read. -/
theorem parse_congr {s w : Source} (hlength : s.length = w.length)
    (hlexemes : (Lexer.ofSource s).lexemes = (Lexer.ofSource w).lexemes) :
    (parse s).root = (parse w).root ∧ (parse s).journal = (parse w).journal := by
  have hreading : Reading.ofSource s = Reading.ofSource w := by
    rw [Reading.ofSource, Reading.ofSource, hlexemes]
  simp only [parse, hreading, hlength, and_self]

end Syntax.Tree

namespace Resolved.Program

theorem ofTree_congr {t u : Syntax.Tree} (hroot : t.root = u.root) (hjournal : t.journal = u.journal)
    (unit : Nat) : ofTree t unit = ofTree u unit := by
  simp only [ofTree, Syntax.Tree.diagnostics, hroot, hjournal]

end Resolved.Program

namespace Text.Source

open Resolved

/-- Two texts that are read, resolved, flattened and shown alike, down to the places in them. -/
structure Alike (s w : Source) : Prop where
  offset : ∀ n, (s.cursor.forward n).offset = (w.cursor.forward n).offset
  peek : ∀ n, (s.cursor.forward n).peek = (w.cursor.forward n).peek
  peekSecond : ∀ n, (s.cursor.forward n).peekSecond = (w.cursor.forward n).peekSecond
  lex : ∀ n, (s.cursor.forward n).lex.1 = (w.cursor.forward n).lex.1
  lexemes : (Lexer.ofSource s).lexemes = (Lexer.ofSource w).lexemes
  root : (Syntax.Tree.parse s).root = (Syntax.Tree.parse w).root
  diagnostics : (Syntax.Tree.parse s).diagnostics = (Syntax.Tree.parse w).diagnostics
  resolved : ∀ unit, (Program.ofTree (Syntax.Tree.parse s) unit).diagnostics =
    (Program.ofTree (Syntax.Tree.parse w) unit).diagnostics
  rendered : ∀ unit, (Program.ofTree (Syntax.Tree.parse s) unit).render =
    (Program.ofTree (Syntax.Tree.parse w) unit).render
  flattened : ∀ unit, (Program.ofTree (Syntax.Tree.parse s) unit).flatten.render =
    (Program.ofTree (Syntax.Tree.parse w) unit).flatten.render
  lineColumn : ∀ offset, s.lineColumn offset = w.lineColumn offset

theorem alike_of_chars_eq {s w : Source} (h : s.chars = w.chars) : Alike s w := by
  have hlength : s.length = w.length := by
    rw [s.length_eq_size_chars, w.length_eq_size_chars, h]
  obtain ⟨hroot, hjournal⟩ := Syntax.Tree.parse_congr hlength (lexemes_congr h)
  have hprogram (unit : Nat) := Program.ofTree_congr hroot hjournal unit
  exact {
    offset := fun n => by
      obtain ⟨offset, text, hs, hw⟩ := stands_forward h n
      rw [hs.offset, hw.offset]
    peek := fun n => by
      obtain ⟨offset, text, hs, hw⟩ := stands_forward h n
      rw [hs.peek, hw.peek]
    peekSecond := fun n => by
      obtain ⟨offset, text, hs, hw⟩ := stands_forward h n
      rw [hs.peekSecond, hw.peekSecond]
    lex := fun n => by
      obtain ⟨offset, text, hs, hw⟩ := stands_forward h n
      have hplace : (s.cursor.forward n).At ⟨offset, text⟩ := hs
      have hplace' : (w.cursor.forward n).At ⟨offset, text⟩ := hw
      rw [hplace.lex.given, hplace'.lex.given]
    lexemes := lexemes_congr h
    root := hroot
    diagnostics := by rw [Syntax.Tree.diagnostics, Syntax.Tree.diagnostics, hjournal]
    resolved := fun unit => by rw [hprogram]
    rendered := fun unit => by rw [hprogram]
    flattened := fun unit => by rw [hprogram]
    lineColumn := fun offset => walk_congr offset 1 0 s.stands_cursor (h ▸ w.stands_cursor) }

/-- A text in segments and the same text in one piece are alike. -/
theorem alike_ofSegments (segments : List (List Char)) :
    Alike (ofSegments segments) (ofChars segments.flatten) := by
  apply alike_of_chars_eq
  rw [chars_ofSegments, chars_ofChars]

end Text.Source
end LuaFront
