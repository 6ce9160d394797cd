import LuaFront.Proofs.Token.Places

/-!
# LuaFront.Proofs.Token.Causes

What is found wrong while tokens are cut out of a text.

* `Cause.IsLexical`: what can be wrong with a token, or with a comment.
* `Scanner.isLexical_of_mem_lexemes`: nothing else is reported of the lexemes of a text. So what is
  wrong with the order of tokens is told apart from it by its cause.
-/

namespace LuaFront

/-- What can be wrong with a single token, or with a comment before it. -/
def Cause.IsLexical : Cause → Bool
  | .unterminatedString | .unterminatedLongString | .unterminatedLongComment => true
  | .invalidLongStringDelimiter | .badCharacter _ | .malformedNumber => true
  | .invalidEscape _ | .unterminatedEscape | .incompleteEscape | .expectedCharacter .. => true
  | .decimalEscapeTooLarge | .utf8ValueTooLarge => true
  | _ => false

/-! ## Escapes and strings -/

namespace Escape

/-- An escape that is wrong is wrong as a part of a token. -/
def Outcome.Lexical (o : Outcome) : Prop := ∀ cause, o.meaning = .error cause → cause.IsLexical = true

theorem lexical_hexByte (s : Scanner) : (hexByte s).Lexical := by
  intro cause h
  simp only [hexByte] at h
  split at h <;> cases h
  rfl

theorem lexical_decimalByte (s : Scanner) : (decimalByte s).Lexical := by
  intro cause h
  simp only [decimalByte] at h
  split at h <;> cases h
  rfl

theorem lexical_utf8Value (s : Scanner) : (utf8Value s).Lexical := by
  intro cause h
  simp only [utf8Value] at h
  split at h
  · split at h
    · cases h
      rfl
    · split at h
      · simp only at h
        split at h <;> cases h
        rfl
      · cases h
        rfl
  · cases h
    rfl

theorem lexical_read (s : Scanner) : (read s).Lexical := by
  unfold read
  split
  · rintro _ ⟨⟩
    rfl
  next c r _ =>
    split
    · rintro _ ⟨⟩
    · split
      · rintro _ ⟨⟩
      split
      · rintro _ ⟨⟩
      split
      · exact lexical_hexByte _
      split
      · exact lexical_decimalByte _
      split
      · exact lexical_utf8Value _
      · rintro _ ⟨⟩
        rfl

end Escape

namespace QuotedString

theorem lexical_escape {start : Nat} {o : Escape.Outcome} {b : Body} (ho : o.Lexical)
    (hb : ∀ d ∈ b.diagnostics, d.cause.IsLexical = true) :
    ∀ d ∈ (b.escape start o).diagnostics, d.cause.IsLexical = true := by
  unfold Body.escape
  split
  · exact hb
  next cause hcause => exact List.forall_mem_cons.2 ⟨ho cause hcause, hb⟩

theorem lexical_read (quote : Char) (start : Nat) (s : Scanner) :
    ∀ d ∈ (read quote start s).diagnostics, d.cause.IsLexical = true := by
  fun_induction read quote start s with
  | case1 => exact List.forall_mem_singleton.2 rfl
  | case2 => exact List.forall_mem_singleton.2 rfl
  | case3 => simp
  | case4 s r _ _ _ _ ih => exact lexical_escape (Escape.lexical_read _) ih
  | case5 s c r _ _ _ _ later ih => exact ih

end QuotedString

/-! ## Lexemes -/

namespace Scanner

theorem lexical_comment (s : Scanner) : ∀ d ∈ s.comment.1, d.cause.IsLexical = true := by
  simp only [comment]
  split
  · simp only
    split
    · exact List.forall_mem_nil _
    · exact List.forall_mem_singleton.2 rfl
  · exact List.forall_mem_nil _

theorem lexical_skipBlanks (s : Scanner) : ∀ d ∈ s.skipBlanks.1, d.cause.IsLexical = true := by
  fun_induction skipBlanks s with
  | case1 s _ _ _ later ih => exact List.forall_mem_append.2 ⟨lexical_comment s, ih⟩
  | case2 s c r _ _ _ ih => exact ih
  | case3 => simp
  | case4 => simp

theorem lexical_token (s : Scanner) (c : Char) (r : List Char) :
    ∀ d ∈ (s.token c r).1.diagnostics, d.cause.IsLexical = true := by
  unfold token
  split
  · simp only [word]
    split <;> simp [lexeme]
  split
  · simp only [numeral]
    split
    · exact List.forall_mem_nil _
    · exact List.forall_mem_nil _
    · exact List.forall_mem_singleton.2 rfl
  split
  · exact QuotedString.lexical_read c s.offset (s.skip 1)
  split
  · simp only [longString]
    split
    · simp only [lexeme]
      split
      · exact List.forall_mem_nil _
      · exact List.forall_mem_singleton.2 rfl
    · exact List.forall_mem_singleton.2 rfl
  · simp only [sign]
    split
    · exact List.forall_mem_nil _
    · exact List.forall_mem_singleton.2 rfl

theorem lexical_lex (s : Scanner) : ∀ d ∈ s.lex.1.diagnostics, d.cause.IsLexical = true := by
  simp only [lex]
  split
  · exact lexical_skipBlanks s
  next c r _ => exact List.forall_mem_append.2 ⟨lexical_skipBlanks s, lexical_token _ c r⟩

/-- Only what is wrong with a token is reported of it. -/
theorem isLexical_of_mem_lexemes (s : Scanner) :
    ∀ l ∈ s.lexemes, ∀ d ∈ l.diagnostics, d.cause.IsLexical = true := by
  fun_induction lexemes s with
  | case1 s here _ => exact List.forall_mem_singleton.2 (lexical_lex s)
  | case2 s here _ ih => exact List.forall_mem_cons.2 ⟨lexical_lex s, ih⟩

end Scanner
end LuaFront
