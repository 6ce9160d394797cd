import LuaFront.Proofs.Text.Slice
import LuaFront.Proofs.Token.Order

/-!
# LuaFront.Proofs.Token.Places

Where the lexer puts tokens and diagnostics.

* `Span.On P s`: both ends of a stretch are places of which `P` holds, the first one first.
* `Scanner.Covers s span`: both ends of a stretch are places that are reached from `s`. Whatever
  the lexer reads or reports has this, escapes inside a string included.
* `on_of_mem_lexemes`: tokens and diagnostics of a text lie between characters.
-/

namespace LuaFront

namespace Text

/-- A stretch whose ends are places of which `P` holds. -/
structure Span.On (P : Nat → Prop) (s : Span) : Prop where
  start : P s.start
  stop : P s.stop
  le : s.start ≤ s.stop

end Text

open Text (Span)

namespace Scanner

/-- A stretch between two places that are reached one after the other. -/
def Covers (s : Scanner) (span : Span) : Prop :=
  ∃ a b, Reaches s a ∧ Reaches a b ∧ span = ⟨a.offset, b.offset⟩

theorem Covers.after {s t : Scanner} {span : Span} (h : t.Covers span) (hst : Reaches s t) :
    s.Covers span := by
  obtain ⟨a, b, ha, hb, hspan⟩ := h
  exact ⟨a, b, hst.trans ha, hb, hspan⟩

/-- What is reached from the start of a text lies between its characters. -/
theorem boundary_of_reaches {source : Text.Source} {t : Scanner}
    (h : Reaches (ofSource source) t) : Text.Boundary source.chars t.offset := by
  obtain ⟨cs, hrest, hoffset⟩ := h
  refine ⟨cs, ⟨t.rest, hrest.symm⟩, ?_⟩
  rw [hoffset]
  exact (Nat.zero_add _).symm

theorem Covers.on {source : Text.Source} {span : Span} (h : (ofSource source).Covers span) :
    span.On (Text.Boundary source.chars) := by
  obtain ⟨a, b, ha, hb, rfl⟩ := h
  exact ⟨boundary_of_reaches ha, boundary_of_reaches (ha.trans hb), hb.offset_le⟩

end Scanner

/-! ## Readers of the lexer -/

namespace QuotedString

open Scanner (Reaches)

theorem diagnostics_escape {start : Nat} {o : Escape.Outcome} {b : Body} {d : Diagnostic}
    (h : d ∈ (b.escape start o).diagnostics) :
    d.span = ⟨start, o.after.offset⟩ ∨ d ∈ b.diagnostics := by
  unfold Body.escape at h
  split at h
  · exact .inr h
  · rcases List.mem_cons.1 h with rfl | h
    · exact .inl rfl
    · exact .inr h

/-- A string that is not terminated is reported from its quote on, an escape from its backslash
on. -/
theorem read_covers {quote : Char} {origin s : Scanner} (h : Reaches origin s) :
    ∀ d ∈ (read quote origin.offset s).diagnostics, origin.Covers d.span := by
  have hwhole {s : Scanner} (h : Reaches origin s) :
      ∀ d ∈ [(⟨s.spanFrom origin.offset, .unterminatedString⟩ : Diagnostic)],
        origin.Covers d.span := by
    intro d hd
    rw [List.mem_singleton] at hd
    subst hd
    exact ⟨origin, s, .refl origin, h, rfl⟩
  fun_induction read quote origin.offset s with
  | case1 s => exact hwhole h
  | case2 s => exact hwhole h
  | case3 s => simp
  | case4 s r shorter _ _ _ ih =>
    have hafter := (Scanner.reaches_skip 1 s).trans (Escape.reaches_read (s.skip 1))
    intro d hd
    rcases diagnostics_escape hd with hspan | hd
    · exact ⟨s, _, h, hafter, hspan⟩
    · exact ih (h.trans hafter) d hd
  | case5 s c r _ _ _ _ later ih => exact ih (h.trans (Scanner.reaches_skip 1 s))

end QuotedString

namespace Scanner

/-- What is read at a place, and all that is reported of it, is covered from there on. -/
def Bounded (s : Scanner) (l : Lexeme) : Prop :=
  s.Covers l.token.span ∧ ∀ d ∈ l.diagnostics, s.Covers d.span

/-- A token of which nothing is reported, or only that it is wrong as a whole. -/
theorem bounded_of_gives {s : Scanner} {out : Lexeme × Scanner} (h : Gives s out)
    (hds : ∀ d ∈ out.1.diagnostics, d.span = out.1.token.span) : s.Bounded out.1 := by
  have htoken : s.Covers out.1.token.span := ⟨s, out.2, .refl s, h.reaches, h.span⟩
  refine ⟨htoken, fun d hd => ?_⟩
  rw [hds d hd]
  exact htoken

theorem comment_covers (s : Scanner) : ∀ d ∈ s.comment.1, s.Covers d.span := by
  intro d hd
  have hreaches := reaches_comment s
  simp only [comment] at hd hreaches
  split at hd
  next level hlevel =>
    rw [hlevel] at hreaches
    split at hd
    · cases hd
    · rw [List.mem_singleton] at hd
      subst hd
      exact ⟨s, _, .refl s, hreaches, rfl⟩
  next => cases hd

theorem skipBlanks_covers (s : Scanner) : ∀ d ∈ s.skipBlanks.1, s.Covers d.span := by
  fun_induction skipBlanks s with
  | case1 s _ _ _ later ih =>
    intro d hd
    rcases List.mem_append.1 hd with hd | hd
    · exact comment_covers s d hd
    · exact (ih d hd).after (reaches_comment s)
  | case2 s c r h _ _ ih => exact fun d hd => (ih d hd).after (reaches_skip 1 s)
  | case3 s => simp
  | case4 s => simp

theorem bounded_word (s : Scanner) : s.Bounded s.word.1 := by
  refine bounded_of_gives (gives_word s) ?_
  simp only [word]
  split <;> simp [lexeme]

theorem bounded_numeral (s : Scanner) : s.Bounded s.numeral.1 := by
  refine bounded_of_gives (gives_numeral s) ?_
  simp only [numeral]
  split <;> simp [lexeme]

theorem bounded_longString (s : Scanner) : s.Bounded s.longString.1 := by
  refine bounded_of_gives (gives_longString s) ?_
  unfold longString
  split
  · simp only [lexeme]
    split <;> simp
  · simp [lexeme]

theorem bounded_sign (s : Scanner) (c : Char) : s.Bounded (s.sign c).1 := by
  refine bounded_of_gives (gives_sign s c) ?_
  unfold sign
  split <;> simp [lexeme]

theorem bounded_quotedString (s : Scanner) (c : Char) : s.Bounded (s.quotedString c).1 := by
  have hgives := gives_quotedString s c
  exact ⟨⟨s, _, .refl s, hgives.reaches, hgives.span⟩,
    QuotedString.read_covers (reaches_skip 1 s)⟩

theorem bounded_token (s : Scanner) (c : Char) (r : List Char) : s.Bounded (s.token c r).1 := by
  unfold token
  split
  · exact bounded_word s
  split
  · exact bounded_numeral s
  split
  · exact bounded_quotedString s c
  split
  · exact bounded_longString s
  · exact bounded_sign s c

theorem reaches_lex (s : Scanner) : Reaches s s.lex.2 := by
  have hblanks := reaches_skipBlanks s
  simp only [lex]
  split
  next => exact hblanks
  next c r _ => exact hblanks.trans (gives_token _ c r).reaches

theorem bounded_lex (s : Scanner) : s.Bounded s.lex.1 := by
  have hblanks := reaches_skipBlanks s
  simp only [lex]
  split
  next => exact ⟨⟨_, _, hblanks, .refl _, rfl⟩, skipBlanks_covers s⟩
  next c r _ =>
    obtain ⟨htoken, hds⟩ := bounded_token s.skipBlanks.2 c r
    refine ⟨htoken.after hblanks, fun d hd => ?_⟩
    rcases List.mem_append.1 hd with hd | hd
    · exact skipBlanks_covers s d hd
    · exact (hds d hd).after hblanks

theorem bounded_of_mem_lexemes (s : Scanner) : ∀ l ∈ s.lexemes, s.Bounded l := by
  fun_induction lexemes s with
  | case1 s here _ => exact List.forall_mem_singleton.2 (bounded_lex s)
  | case2 s here _ ih =>
    refine List.forall_mem_cons.2 ⟨bounded_lex s, fun l hl => ?_⟩
    obtain ⟨htoken, hds⟩ := ih l hl
    exact ⟨htoken.after (reaches_lex s), fun d hd => (hds d hd).after (reaches_lex s)⟩

/-- The tokens of a text lie between its characters, and so does all that is reported of them. -/
theorem on_of_mem_lexemes {source : Text.Source} {l : Lexeme}
    (h : l ∈ (ofSource source).lexemes) :
    l.token.span.On (Text.Boundary source.chars) ∧
      ∀ d ∈ l.diagnostics, d.span.On (Text.Boundary source.chars) := by
  obtain ⟨htoken, hds⟩ := bounded_of_mem_lexemes _ l h
  exact ⟨htoken.on, fun d hd => (hds d hd).on⟩

end Scanner
end LuaFront
