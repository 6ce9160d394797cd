import LuaFront.Token.Lexeme

/-!
# LuaFront.Proofs.Token.Order

The order of the tokens of a text.

* `Scanner.Reaches s t`: the place `t` is reached from `s` by passing over characters. Every
  reader of the lexer reaches the place it returns, so offsets keep in step with characters.
* `lexemes_ordered`: tokens follow each other in the text, none of them is empty but the end of
  file, and the end of file is the last of them and no other.
* `spelled_of_mem_lexemes`: a name carries a word of name characters.
* `present_of_mem_lexemes`: no token stands in for an absent one.
-/

namespace LuaFront
namespace Scanner

/-- The place `t` lies behind `s`, and the offset has grown by the size of what is between. -/
def Reaches (s t : Scanner) : Prop :=
  ∃ cs, s.rest = cs ++ t.rest ∧ t.offset = s.offset + Text.size cs

namespace Reaches

theorem refl (s : Scanner) : Reaches s s := ⟨[], by simp, by simp⟩

theorem trans {s t u : Scanner} (h₁ : Reaches s t) (h₂ : Reaches t u) : Reaches s u := by
  obtain ⟨cs, hr, ho⟩ := h₁
  obtain ⟨ds, hr', ho'⟩ := h₂
  refine ⟨cs ++ ds, by rw [hr, hr', List.append_assoc], ?_⟩
  rw [ho', ho, Text.size_append, Nat.add_assoc]

theorem offset_le {s t : Scanner} (h : Reaches s t) : s.offset ≤ t.offset := by
  obtain ⟨cs, _, ho⟩ := h
  omega

/-- Whoever passes over a character moves the offset. -/
theorem offset_lt {s t : Scanner} (h : Reaches s t) (hlt : t.rest.length < s.rest.length) :
    s.offset < t.offset := by
  obtain ⟨cs, hr, ho⟩ := h
  have := Text.length_le_size cs
  rw [hr, List.length_append] at hlt
  omega

end Reaches

theorem reaches_skip (n : Nat) (s : Scanner) : Reaches s (s.skip n) :=
  ⟨s.rest.take n, (List.take_append_drop n s.rest).symm, rfl⟩

theorem reaches_takeWhile (p : Char → Bool) (s : Scanner) : Reaches s (s.takeWhile p).2 :=
  ⟨s.rest.takeWhile p, (List.takeWhile_append_dropWhile).symm, rfl⟩

/-- A place behind the first characters of a text, reached with the offset after them. -/
theorem reaches_of_rest (cs : List Char) {offset : Nat} {r : List Char} {t : Scanner}
    (h : Reaches ⟨offset + Text.size cs, r⟩ t) : Reaches ⟨offset, cs ++ r⟩ t :=
  Reaches.trans ⟨cs, rfl, rfl⟩ h

end Scanner

namespace LongBracket

open Scanner (Reaches)

theorem reaches_readFrom (level offset : Nat) (cs : List Char) :
    Reaches ⟨offset, cs⟩ (readFrom level offset cs).after := by
  fun_induction readFrom level offset cs with
  | case1 offset => exact Reaches.refl _
  | case2 offset c r _ => exact Scanner.reaches_skip ..
  | case3 offset r _ ih => exact Scanner.reaches_of_rest ['\r', '\n'] ih
  | case4 offset r _ ih => exact Scanner.reaches_of_rest ['\n', '\r'] ih
  | case5 offset r _ _ ih => exact Scanner.reaches_of_rest ['\r'] ih
  | case6 offset r _ _ ih => exact Scanner.reaches_of_rest ['\n'] ih
  | case7 offset c r _ _ _ _ _ ih => exact Scanner.reaches_of_rest [c] ih

theorem reaches_read (level : Nat) (s : Scanner) : Reaches s (read level s).after :=
  (Scanner.reaches_skip _ s).trans (reaches_readFrom ..)

end LongBracket

namespace Escape

open Scanner (Reaches)

theorem reaches_utf8Value (s : Scanner) : Reaches s (utf8Value s).after := by
  have hdigits := (Scanner.reaches_skip 1 s).trans (Scanner.reaches_takeWhile Numeral.isHexDigit _)
  unfold utf8Value
  split
  · simp only
    split
    · exact hdigits
    · split
      · exact hdigits.trans (Scanner.reaches_skip 1 _)
      · exact hdigits
  · exact Reaches.refl s

theorem reaches_read (s : Scanner) : Reaches s (read s).after := by
  have hone := Scanner.reaches_skip 1 s
  unfold read
  split
  · exact Reaches.refl s
  split
  · exact hone
  split
  · exact Scanner.reaches_skip ..
  split
  · exact hone.trans (Scanner.reaches_takeWhile ..)
  split
  · exact hone.trans (Scanner.reaches_skip ..)
  split
  · exact Scanner.reaches_skip ..
  split
  · exact hone.trans (reaches_utf8Value _)
  · exact hone

end Escape

namespace QuotedString

open Scanner (Reaches)

theorem reaches_read (quote : Char) (start : Nat) (s : Scanner) :
    Reaches s (read quote start s).after := by
  fun_induction read quote start s with
  | case1 s => exact Reaches.refl s
  | case2 s => exact Reaches.refl s
  | case3 s => exact Scanner.reaches_skip 1 s
  | case4 s r shorter _ _ _ ih =>
    rw [after_escape]
    exact ((Scanner.reaches_skip 1 s).trans (Escape.reaches_read _)).trans ih
  | case5 s c r _ _ _ _ later ih => exact (Scanner.reaches_skip 1 s).trans ih

end QuotedString

namespace Scanner

theorem reaches_comment (s : Scanner) : Reaches s s.comment.2 := by
  have hinside := reaches_skip 2 s
  simp only [comment]
  split
  · exact (hinside.trans (reaches_skip ..)).trans (LongBracket.reaches_read ..)
  · exact hinside.trans (reaches_takeWhile ..)

theorem reaches_skipBlanks (s : Scanner) : Reaches s s.skipBlanks.2 := by
  fun_induction skipBlanks s with
  | case1 s _ _ _ later ih => exact (reaches_comment s).trans ih
  | case2 s c r h _ _ ih => exact (reaches_skip 1 s).trans ih
  | case3 s => exact Reaches.refl s
  | case4 s => exact Reaches.refl s

/-! ## What one token is -/

/-- A name carries a word of name characters. -/
def Spelled (t : Token) : Prop :=
  t.kind = .name → ∃ word : String, t.value = .name word ∧ ∀ c ∈ word.toList, isNameChar c = true

/-- What reading a token from `s` gives: a token that is no end of file, that stretches from `s`
to a place behind it, and whose name is spelled well. -/
structure Gives (s : Scanner) (out : Lexeme × Scanner) : Prop where
  reaches : Reaches s out.2
  span : out.1.token.span = ⟨s.offset, out.2.offset⟩
  kind : out.1.token.kind ≠ .endOfFile
  spelled : Spelled out.1.token
  present : out.1.token.missing = false

/-- A token of a kind that is neither the end of file nor a name. -/
theorem gives_lexeme {s after : Scanner} {kind : Kind} {value : Value} {ds : List Diagnostic}
    (h : Reaches s after) (hk : kind ≠ .endOfFile) (hn : kind ≠ .name) :
    Gives s (after.lexeme s.offset kind value ds) where
  reaches := h
  span := rfl
  kind := hk
  spelled := fun h => absurd h hn
  present := rfl

theorem gives_word (s : Scanner) : Gives s s.word := by
  have h := reaches_takeWhile isNameChar s
  simp only [word]
  split
  · exact gives_lexeme h (by simp) (by simp)
  · refine ⟨h, rfl, by simp [lexeme], fun _ => ⟨_, rfl, fun c hc => ?_⟩, rfl⟩
    rw [String.toList_ofList] at hc
    exact List.all_eq_true.1 List.all_takeWhile c hc

theorem gives_numeral (s : Scanner) : Gives s s.numeral := by
  have hstart : Reaches s (if isHexadecimal s.rest = true then s.skip 2 else s) := by
    split
    · exact reaches_skip 2 s
    · exact Reaches.refl s
  have hafter (n : Nat) :=
    (hstart.trans (reaches_skip n _)).trans (reaches_takeWhile isNameChar _)
  simp only [numeral]
  split <;> exact gives_lexeme (hafter _) (by simp) (by simp)

theorem gives_quotedString (s : Scanner) (c : Char) : Gives s (s.quotedString c) :=
  gives_lexeme ((reaches_skip 1 s).trans (QuotedString.reaches_read ..)) (by simp) (by simp)

theorem gives_longString (s : Scanner) : Gives s s.longString := by
  unfold longString
  split
  · exact gives_lexeme ((reaches_skip ..).trans (LongBracket.reaches_read ..)) (by simp) (by simp)
  · exact gives_lexeme ((reaches_skip 1 s).trans (reaches_takeWhile ..)) (by simp) (by simp)

theorem gives_sign (s : Scanner) (c : Char) : Gives s (s.sign c) := by
  unfold sign
  split <;> exact gives_lexeme (reaches_skip ..) (by simp) (by simp)

theorem gives_token (s : Scanner) (c : Char) (r : List Char) : Gives s (s.token c r) := by
  unfold token
  split
  · exact gives_word s
  split
  · exact gives_numeral s
  split
  · exact gives_quotedString s c
  split
  · exact gives_longString s
  · exact gives_sign s c

end Scanner

/-! ## All tokens of a text -/

/-- Tokens in the order of the text, the first of which starts at `from` or later: each starts
where the one before it ended or later, and the end of file is the last one only. -/
inductive Token.Ordered : Nat → List Token → Prop where
  | last {n : Nat} {t : Token} : t.kind = .endOfFile → n ≤ t.span.start →
      t.span.start = t.span.stop → Ordered n [t]
  | cons {n : Nat} {t : Token} {r : List Token} : t.kind ≠ .endOfFile → n ≤ t.span.start →
      t.span.start < t.span.stop → Ordered t.span.stop r → Ordered n (t :: r)

namespace Token.Ordered

variable {n : Nat} {t : Token} {r : List Token}

theorem start_ge (h : Ordered n (t :: r)) : n ≤ t.span.start := by
  cases h with
  | last _ hle _ => exact hle
  | cons _ hle _ _ => exact hle

theorem raise (h : Ordered n (t :: r)) : Ordered t.span.start (t :: r) := by
  cases h with
  | last he _ hempty => exact .last he (Nat.le_refl _) hempty
  | cons hne _ hlt hrest => exact .cons hne (Nat.le_refl _) hlt hrest

theorem of_endOfFile (h : Ordered n (t :: r)) (hk : t.kind = .endOfFile) :
    r = [] ∧ t.span.start = t.span.stop := by
  cases h with
  | last _ _ hempty => exact ⟨rfl, hempty⟩
  | cons hne _ _ _ => exact absurd hk hne

theorem tail (h : Ordered n (t :: r)) (hk : t.kind ≠ .endOfFile) :
    t.span.start < t.span.stop ∧ Ordered t.span.stop r := by
  cases h with
  | last he _ _ => exact absurd he hk
  | cons _ _ hlt hrest => exact ⟨hlt, hrest⟩

/-- Whatever is left of ordered tokens starts no earlier than they do. -/
theorem start_ge_of_suffix {l : List Token} (h : Ordered n l) (hs : t :: r <:+ l) :
    n ≤ t.span.start := by
  induction h with
  | last hk hle hempty =>
    rcases List.suffix_cons_iff.1 hs with heq | hs
    · cases heq
      exact hle
    · exact absurd (List.suffix_nil.1 hs) (by simp)
  | cons hk hle hlt hrest ih =>
    rcases List.suffix_cons_iff.1 hs with heq | hs
    · cases heq
      exact hle
    · have := ih hs
      omega

end Token.Ordered

namespace Scanner

/-- Reading a token skips to the place where it starts; at the end of the text there is none. -/
theorem lex_cases (s : Scanner) :
    ∃ start, Reaches s start ∧
      ((start.rest = [] ∧ s.lex.1.token = ⟨.endOfFile, ⟨start.offset, start.offset⟩, .none, false⟩) ∨
        ∃ c r, start.rest = c :: r ∧ s.lex.1.token = (start.token c r).1.token ∧
          s.lex.2 = (start.token c r).2) := by
  refine ⟨s.skipBlanks.2, reaches_skipBlanks s, ?_⟩
  simp only [lex]
  split
  next hr => exact .inl ⟨hr, rfl⟩
  next c r hr => exact .inr ⟨c, r, hr, rfl, rfl⟩

theorem lexemes_ordered (s : Scanner) :
    Token.Ordered s.offset (s.lexemes.map Lexeme.token) := by
  fun_induction lexemes s with
  | case1 s here h =>
    obtain ⟨start, hs, ⟨_, ht⟩ | ⟨c, r, _, ht, _⟩⟩ := lex_cases s
    · rw [List.map_singleton, ht]
      exact .last rfl hs.offset_le rfl
    · rw [ht] at h
      exact absurd h (gives_token start c r).kind
  | case2 s here h ih =>
    obtain ⟨start, hs, ⟨_, ht⟩ | ⟨c, r, hr, ht, hafter⟩⟩ := lex_cases s
    · exact absurd (by rw [ht]) h
    · have hgives := gives_token start c r
      rw [List.map_cons, ht]
      refine .cons hgives.kind ?_ ?_ ?_
      · rw [hgives.span]
        exact hs.offset_le
      · rw [hgives.span]
        exact hgives.reaches.offset_lt (length_token_lt hr)
      · rw [hgives.span, ← hafter]
        exact ih

/-- What holds of every token that is read holds of all tokens of a text. -/
theorem forall_mem_lexemes {P : Token → Prop} (h : ∀ s : Scanner, P s.lex.1.token) (s : Scanner) :
    ∀ l ∈ s.lexemes, P l.token := by
  intro l hl
  fun_induction lexemes s with
  | case1 s here _ =>
    rw [List.mem_singleton] at hl
    rw [hl]
    exact h s
  | case2 s here _ ih =>
    rcases List.mem_cons.1 hl with hl | hl
    · rw [hl]
      exact h s
    · exact ih hl

theorem spelled_of_mem_lexemes {s : Scanner} {l : Lexeme} (h : l ∈ s.lexemes) :
    Spelled l.token := by
  refine forall_mem_lexemes (fun s => ?_) s l h
  obtain ⟨start, _, ⟨_, ht⟩ | ⟨c, r, _, ht, _⟩⟩ := lex_cases s
  · rw [ht]
    intro hname
    cases hname
  · rw [ht]
    exact (gives_token start c r).spelled

theorem present_of_mem_lexemes {s : Scanner} {l : Lexeme} (h : l ∈ s.lexemes) :
    l.token.missing = false := by
  refine forall_mem_lexemes (P := fun t => t.missing = false) (fun s => ?_) s l h
  obtain ⟨start, _, ⟨_, ht⟩ | ⟨c, r, _, ht, _⟩⟩ := lex_cases s
  · rw [ht]
  · rw [ht]
    exact (gives_token start c r).present

end Scanner
end LuaFront
