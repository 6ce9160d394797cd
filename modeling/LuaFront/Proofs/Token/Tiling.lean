import LuaFront.Proofs.Text.Source
import LuaFront.Proofs.Token.Layout

/-!
# LuaFront.Proofs.Token.Tiling

The tokens of a text and the blanks between them are the text.

* `Token.Written`: how a token is written in front of the characters that follow it. A sign is the
  longest one that is spelled there, a name and a keyword end where no more of a word follows.
* `Token.Tiles`: a text as tokens with blanks between them, each token at the place it was read at.
* `Scanner.tiles_lexemes`: the tokens that are read tile what they are read from, whatever it is.
* `Scanner.lexemes_tile`: so they do in a text, where each of them is the slice at its span, and
  behind the last one there is the end of file and nothing to report, however often one asks.
-/

namespace LuaFront

open Text (Span)
open Scanner (Blank Trailing isNameStart isNameChar Reaches)

/-! ## Spellings -/

namespace Sign

theorem spelling_prefix {cs : List Char} {σ : Sign} (h : ofChars? cs = some σ) :
    σ.spelling.toList <+: cs := by
  unfold ofChars? at h
  split at h <;> cases h <;> simp [spelling]

theorem length_spelling_pos (σ : Sign) : 0 < σ.spelling.length := by
  cases σ <;> decide

/-- Of the signs that some characters start with, the one that is read is the longest. -/
theorem length_spelling_le {cs : List Char} {σ τ : Sign} (h : ofChars? cs = some σ)
    (hstarts : τ.spelling.toList <+: cs) : τ.spelling.length ≤ σ.spelling.length := by
  by_cases hone : τ.spelling.length ≤ 1
  · exact Nat.le_trans hone σ.length_spelling_pos
  obtain ⟨r, rfl⟩ := hstarts
  -- Two signs start with two points; every other one of two characters is read at once.
  have hdots : ofChars? ('.' :: '.' :: r) = some σ → 2 ≤ σ.spelling.length := by
    intro h
    by_cases hdot : ∃ r', r = '.' :: r'
    · obtain ⟨r', rfl⟩ := hdot
      cases h
      decide
    · rw [ofChars?] at h
      · cases h
        decide
      · exact fun r' hr' => hdot ⟨r', hr'⟩
  cases τ <;> first | exact absurd (by decide) hone | exact hdots h | (cases h; decide)

end Sign

theorem Keyword.ofWord?_eq_some {word : String} {k : Keyword} :
    ofWord? word = some k ↔ k.spelling = word := by
  constructor
  · intro h
    simpa using List.find?_some h
  · rintro rfl
    cases k <;> decide

theorem Keyword.ofWord?_eq_none {word : String} :
    ofWord? word = none ↔ ∀ k : Keyword, k.spelling ≠ word := by
  rw [Option.eq_none_iff_forall_ne_some]
  exact forall_congr' fun k => not_congr ofWord?_eq_some

/-- A letter or an underscore, and then letters, digits and underscores. -/
structure IsWord (word : List Char) : Prop where
  start : ∃ c r, word = c :: r ∧ isNameStart c = true
  chars : ∀ c ∈ word, isNameChar c = true

/-- Nothing that would continue a word comes next. -/
def EndsWord (rest : List Char) : Prop := ∀ c, rest.head? = some c → isNameChar c = false

/-- How a token is written in front of `rest`. -/
def Token.Written (t : Token) (word rest : List Char) : Prop :=
  match t.kind with
  | .sign σ => word = σ.spelling.toList ∧
      ∀ τ : Sign, τ.spelling.toList <+: word ++ rest → τ.spelling.length ≤ word.length
  | .keyword k => word = k.spelling.toList ∧ IsWord word ∧ EndsWord rest
  | .name => t.value = .name (String.ofList word) ∧ IsWord word ∧ EndsWord rest ∧
      ∀ k : Keyword, k.spelling ≠ String.ofList word
  | .endOfFile => word = []
  | _ => True

namespace Scanner

theorem written_word {s : Scanner} {c : Char} {r : List Char} (h : s.rest = c :: r)
    (hc : isNameStart c = true) {word : List Char} (hword : s.rest = word ++ s.word.2.rest) :
    s.word.1.token.Written word s.word.2.rest := by
  have hafter : s.word.2.rest = s.rest.dropWhile isNameChar := by
    simp only [Scanner.word]
    split <;> rfl
  have htake : word = s.rest.takeWhile isNameChar := by
    have hsplit := List.takeWhile_append_dropWhile (p := isNameChar) (l := s.rest)
    rw [← hafter] at hsplit
    exact List.append_cancel_right (hword.symm.trans hsplit.symm)
  subst htake
  have hisWord : IsWord (s.rest.takeWhile isNameChar) := by
    constructor
    · refine ⟨c, r.takeWhile isNameChar, ?_, hc⟩
      rw [h, List.takeWhile_cons_of_pos (by simp [isNameChar, hc])]
    · intro d hd
      exact List.all_eq_true.1 List.all_takeWhile d hd
  have hends : EndsWord s.word.2.rest := by
    intro d hd
    have := List.head?_dropWhile_not isNameChar s.rest
    rw [← hafter, hd] at this
    simpa using this
  generalize s.word.2.rest = rest at hends
  simp only [Scanner.word, takeWhile_fst]
  split
  next k hk =>
    have hspelling := Keyword.ofWord?_eq_some.1 hk
    exact ⟨by rw [hspelling, String.toList_ofList], hisWord, hends⟩
  next hnone => exact ⟨rfl, hisWord, hends, Keyword.ofWord?_eq_none.1 hnone⟩

theorem written_sign (s : Scanner) (c : Char) {word : List Char}
    (hword : s.rest = word ++ (s.sign c).2.rest) :
    (s.sign c).1.token.Written word (s.sign c).2.rest := by
  rw [Token.Written, ← hword]
  revert hword
  unfold sign
  split
  next σ hσ =>
    intro hword
    obtain ⟨r, hr⟩ := Sign.spelling_prefix hσ
    have hrest : (s.skip σ.spelling.length).rest = r := by
      rw [rest_skip, ← hr, ← String.length_toList, List.drop_left]
    have hspelling : word = σ.spelling.toList := by
      rw [lexeme_snd, hrest, ← hr] at hword
      exact (List.append_cancel_right hword).symm
    refine ⟨hspelling, fun τ hτ => ?_⟩
    rw [hspelling, String.length_toList]
    exact Sign.length_spelling_le hσ hτ
  next => exact fun _ => trivial

/-- A token of a kind without a spelling of its own is written as it is. -/
theorem written_token {s : Scanner} {c : Char} {r : List Char} (h : s.rest = c :: r)
    {word : List Char} (hword : s.rest = word ++ (s.token c r).2.rest) :
    (s.token c r).1.token.Written word (s.token c r).2.rest := by
  revert hword
  unfold token
  split
  next hc => exact written_word h hc
  split
  next =>
    intro _
    simp only [numeral]
    split <;> exact trivial
  split
  next => exact fun _ => trivial
  split
  next =>
    intro _
    unfold longString
    split <;> exact trivial
  · exact written_sign s c

end Scanner

/-! ## Tiling -/

/-- The tokens of the characters behind `before`: blanks, a token, and so on to the end of file,
in front of which a comment need not end. -/
inductive Token.Tiles : List Char → List Char → List Token → Prop where
  | last {before : List Char} (bs : List Blank) (comment : Trailing) :
      Tiles before (Blank.texts bs ++ comment.text)
        [⟨.endOfFile, Span.empty (Text.size (before ++ (Blank.texts bs ++ comment.text))), .none,
          false⟩]
  | cons {before word rest : List Char} {t : Token} {ts : List Token} (bs : List Blank) :
      t.kind ≠ .endOfFile → word ≠ [] → t.Written word rest →
      t.span = ⟨Text.size (before ++ Blank.texts bs), Text.size (before ++ Blank.texts bs ++ word)⟩ →
      Tiles (before ++ Blank.texts bs ++ word) rest ts →
      Tiles before (Blank.texts bs ++ (word ++ rest)) (t :: ts)

namespace Token.Tiles

/-- Each token of a text is the slice at its span. -/
theorem slice {source : Text.Source} {before cs : List Char} {ts : List Token}
    (h : Tiles before cs ts) (hsource : source.chars = before ++ cs) {t : Token} (ht : t ∈ ts) :
    ∃ start word rest, source.chars = start ++ (word ++ rest) ∧
      t.span = ⟨Text.size start, Text.size start + Text.size word⟩ ∧
      source.slice t.span = some word ∧ t.Written word rest := by
  induction h with
  | @last before bs comment =>
    rw [List.mem_singleton] at ht
    subst ht
    have hend : source.chars = (before ++ (Blank.texts bs ++ comment.text)) ++ ([] ++ []) := by
      rw [hsource]
      simp
    exact ⟨_, [], [], hend, rfl, Text.Source.slice_between hend, rfl⟩
  | @cons before word rest t' ts bs hkind hword hwritten hspan htiles ih =>
    have hhere : source.chars = (before ++ Blank.texts bs) ++ (word ++ rest) := by
      rw [hsource]
      simp
    rcases List.mem_cons.1 ht with rfl | ht
    · rw [Text.size_append (before ++ Blank.texts bs) word] at hspan
      refine ⟨_, word, rest, hhere, hspan, ?_, hwritten⟩
      rw [hspan]
      exact Text.Source.slice_between hhere
    · exact ih (by rw [hhere]; simp) ht

end Token.Tiles

namespace Scanner

theorem lex_of_nil {s : Scanner} (h : s.skipBlanks.2.rest = []) :
    s.lex = s.skipBlanks.2.lexeme s.skipBlanks.2.offset .endOfFile .none s.skipBlanks.1 := by
  simp only [lex]
  split
  next => rfl
  next heq => rw [h] at heq; cases heq

theorem lex_of_cons {s : Scanner} {c : Char} {r : List Char} (h : s.skipBlanks.2.rest = c :: r) :
    s.lex = (⟨(s.skipBlanks.2.token c r).1.token,
      s.skipBlanks.1 ++ (s.skipBlanks.2.token c r).1.diagnostics⟩, (s.skipBlanks.2.token c r).2) := by
  simp only [lex]
  split
  next heq => rw [h] at heq; cases heq
  next heq =>
    rw [h] at heq
    cases heq
    rfl

/-- Reading once passes over blanks and a token, or over all that is left, which holds none. -/
theorem lex_tile (s : Scanner) :
    (∃ bs comment, s.rest = Blank.texts bs ++ Trailing.text comment ∧
        s.lex.1.token = ⟨.endOfFile, Span.empty (s.offset + Text.size s.rest), .none, false⟩ ∧
        s.lex.2 = ⟨s.offset + Text.size s.rest, []⟩) ∨
      ∃ bs word, s.rest = Blank.texts bs ++ (word ++ s.lex.2.rest) ∧ word ≠ [] ∧
        s.lex.1.token.kind ≠ .endOfFile ∧ s.lex.1.token.Written word s.lex.2.rest ∧
        s.lex.1.token.span = ⟨s.offset + Text.size (Blank.texts bs), s.lex.2.offset⟩ ∧
        s.lex.2.offset = s.offset + Text.size (Blank.texts bs) + Text.size word := by
  obtain ⟨gap, hgap, hoffset⟩ := reaches_skipBlanks s
  cases hrest : s.skipBlanks.2.rest with
  | nil =>
    have hsize : Text.size s.rest = Text.size gap := by rw [hgap, hrest, List.append_nil]
    obtain ⟨bs, comment, hs⟩ : ∃ bs comment, s.rest = Blank.texts bs ++ Trailing.text comment := by
      rcases skipBlanks_cases s with ⟨bs, hbs⟩ | ⟨-, bs, comment, hs⟩
      · exact ⟨bs, .none, by rw [hbs, hrest]; rfl⟩
      · exact ⟨bs, comment, hs⟩
    left
    refine ⟨bs, comment, hs, ?_, ?_⟩
    · rw [lex_of_nil hrest, hsize, ← hoffset]
      rfl
    · rw [lex_of_nil hrest, hsize, ← hoffset, lexeme_snd, ← hrest]
  | cons c r =>
    obtain ⟨bs, hbs⟩ : ∃ bs, s.rest = Blank.texts bs ++ s.skipBlanks.2.rest := by
      rcases skipBlanks_cases s with hbs | ⟨hnil, -⟩
      · exact hbs
      · rw [hrest] at hnil
        cases hnil
    have hgiven := gives_token s.skipBlanks.2 c r
    obtain ⟨word, hword, hafter⟩ := hgiven.reaches
    have hsame : gap = Blank.texts bs := List.append_cancel_right (hgap.symm.trans hbs)
    subst hsame
    have hne : word ≠ [] := by
      rintro rfl
      have := length_token_lt hrest
      rw [hword] at this
      exact Nat.lt_irrefl _ this
    right
    rw [lex_of_cons hrest]
    refine ⟨bs, word, hbs.trans (by rw [hword]), hne, hgiven.kind, ?_, ?_, ?_⟩
    · exact written_token hrest hword
    · rw [hgiven.span, hoffset]
    · rw [hafter, hoffset]

/-- What reading from a place gives tiles what is left of the text there. -/
theorem tiles_lexemes (s : Scanner) : ∀ before, s.offset = Text.size before →
    Token.Tiles before s.rest (s.lexemes.map Lexeme.token) := by
  fun_induction lexemes s with
  | case1 s here hend =>
    intro before hbefore
    rcases lex_tile s with ⟨bs, comment, hs, htoken, -⟩ | ⟨bs, word, -, -, hkind, -⟩
    · rw [List.map_singleton, htoken, hs, hbefore, ← Text.size_append]
      exact .last bs comment
    · exact absurd hend hkind
  | case2 s here hkind ih =>
    intro before hbefore
    rcases lex_tile s with
      ⟨bs, comment, -, htoken, -⟩ | ⟨bs, word, hs, hne, -, hwritten, hspan, hafter⟩
    · exact absurd (by rw [htoken]) hkind
    · rw [List.map_cons, hs]
      have hstart : s.offset + Text.size (Blank.texts bs) = Text.size (before ++ Blank.texts bs) := by
        rw [hbefore, Text.size_append]
      rw [hstart, ← Text.size_append] at hafter
      rw [hstart, hafter] at hspan
      exact .cons bs hkind hne hwritten hspan (ih _ hafter)

/-- The place after `n` tokens were read. -/
def afterTokens : Nat → Scanner → Scanner
  | 0, s => s
  | n + 1, s => afterTokens n s.lex.2

theorem lex_of_rest {s : Scanner} (h : s.rest = []) :
    s.lex = (⟨⟨.endOfFile, Span.empty s.offset, .none, false⟩, []⟩, s) := by
  have hblanks := skipBlanks_of_nil h
  rw [lex_of_nil (by rw [hblanks]; exact h), hblanks]
  rfl

theorem afterTokens_of_rest {s : Scanner} (h : s.rest = []) (n : Nat) : s.afterTokens n = s := by
  induction n with
  | zero => rfl
  | succ n ih => rw [afterTokens, lex_of_rest h, ih]

/-- Reading goes through the lexemes of a text and then stays at its end. -/
theorem lex_afterTokens (s : Scanner) : ∀ n,
    (s.afterTokens n).lex.1 =
      s.lexemes.getD n ⟨⟨.endOfFile, Span.empty (s.offset + Text.size s.rest), .none, false⟩, []⟩ := by
  fun_induction lexemes s with
  | case1 s here hend =>
    intro n
    cases n with
    | zero => rfl
    | succ n =>
      rcases lex_tile s with ⟨bs, comment, -, -, hafter⟩ | ⟨bs, word, -, -, hkind, -⟩
      · rw [afterTokens, afterTokens_of_rest (by rw [hafter]), lex_of_rest (by rw [hafter]), hafter]
        simp
      · exact absurd hend hkind
  | case2 s here hkind ih =>
    intro n
    cases n with
    | zero => rfl
    | succ n =>
      rcases lex_tile s with ⟨bs, comment, -, htoken, -⟩ | ⟨bs, word, hs, -, -, -, -, hafter⟩
      · exact absurd (by rw [htoken]) hkind
      · have hsize : s.lex.2.offset + Text.size s.lex.2.rest = s.offset + Text.size s.rest := by
          rw [hs, hafter, Text.size_append, Text.size_append]
          omega
        rw [afterTokens, ih n, hsize, List.getD_cons_succ]

/-- The tokens of a text tile it, each is the slice at its span, and behind the last one there is
the end of file, at the end of the text, on every further call and without a diagnostic. -/
theorem lexemes_tile (source : Text.Source) :
    Token.Tiles [] source.chars ((ofSource source).lexemes.map Lexeme.token) ∧
      (∀ l ∈ (ofSource source).lexemes, ∃ start word rest,
        source.chars = start ++ (word ++ rest) ∧
        l.token.span = ⟨Text.size start, Text.size start + Text.size word⟩ ∧
        source.slice l.token.span = some word ∧ l.token.Written word rest) ∧
      ∀ n, ((ofSource source).afterTokens n).lex.1 = (ofSource source).lexemes.getD n
        ⟨⟨.endOfFile, Span.empty source.length, .none, false⟩, []⟩ := by
  have htiles : Token.Tiles [] source.chars ((ofSource source).lexemes.map Lexeme.token) :=
    tiles_lexemes (ofSource source) [] rfl
  refine ⟨htiles, ?_, ?_⟩
  · intro l hl
    exact htiles.slice rfl (List.mem_map_of_mem hl)
  · intro n
    have h := lex_afterTokens (ofSource source) n
    rwa [show (ofSource source).offset = 0 from rfl, Nat.zero_add,
      show (ofSource source).rest = source.chars from rfl, ← Text.Source.length_eq_size_chars] at h

end Scanner
end LuaFront
