import LuaFront.Proofs.Token.Cutting

/-!
# LuaFront.Proofs.Token.LineCut

A text that is cut off behind a line.

* `Escape.read_before` and `QuotedString.read_before`: an escape that leaves something, and a string
  that ends, are read without a look at what follows.
* `Scanner.skipBlanks_cut`: blanks that are cut off are blanks, except for a long comment.
* `Scanner.cut_of_token`: only strings go on over the end of a line.
* `Scanner.Cut`: what becomes of the tokens. They are as before up to the cut, or a long string or a
  long comment does not end, or a string between quotes went on over the cut (`Scanner.Quotes`).
* `Scanner.lexemes_cut`: there is no other outcome.
-/

namespace LuaFront

/-- The same place in a text with more behind it. -/
def Scanner.before (s : Scanner) (more : List Char) : Scanner := ⟨s.offset, s.rest ++ more⟩

namespace Scanner

variable {s : Scanner}

theorem skip_before {n : Nat} (h : n ≤ s.rest.length) (more : List Char) :
    (s.before more).skip n = (s.skip n).before more := by
  simp only [skip, before, List.take_append_of_le_length h, List.drop_append_of_le_length h]

theorem takeWhile_before {p : Char → Bool} (h : (s.takeWhile p).2.rest ≠ []) (more : List Char) :
    (s.before more).takeWhile p = ((s.takeWhile p).1, (s.takeWhile p).2.before more) := by
  obtain ⟨offset, cs⟩ := s
  rw [rest_takeWhile] at h
  have hsplit := List.takeWhile_append_dropWhile (p := p) (l := cs)
  have hstop : ∀ c, (cs.dropWhile p ++ more).head? = some c → p c = false := by
    intro c hc
    have hnot := List.head?_dropWhile_not p cs
    obtain ⟨d, r, hdrop⟩ := List.exists_cons_of_ne_nil h
    rw [hdrop] at hc hnot
    cases hc
    simpa using hnot
  have hread := takeWhile_append (List.all_eq_true.1 (List.all_takeWhile (l := cs) (p := p))) hstop
    offset
  rw [← List.append_assoc, hsplit] at hread
  exact hread

end Scanner

namespace Escape

open Numeral (isHexDigit isDigit)

/-- The same outcome in a text with more behind it. -/
def Outcome.before (o : Outcome) (more : List Char) : Outcome := ⟨o.meaning, o.after.before more⟩

variable {s : Scanner} {more : List Char}

/-- Digits that end before the text does end where they did. -/
theorem takeWhile_take_append {p : Char → Bool} {n : Nat} {cs : List Char}
    (h : ((cs.take n).takeWhile p).length < cs.length) (more : List Char) :
    ((cs ++ more).take n).takeWhile p = (cs.take n).takeWhile p := by
  by_cases hn : n ≤ cs.length
  · rw [List.take_append_of_le_length hn]
  · have hall : cs.take n = cs := List.take_of_length_le (by omega)
    rw [hall] at h ⊢
    rw [List.take_append, hall, List.takeWhile_append, if_neg (by omega)]

theorem hexByte_before (h : (hexByte s).after.rest ≠ []) :
    hexByte (s.before more) = (hexByte s).before more := by
  have hlt : ((s.rest.take 2).takeWhile isHexDigit).length < s.rest.length := by
    simpa [hexByte] using h
  simp only [hexByte, Scanner.before, takeWhile_take_append hlt]
  exact congrArg _ (Scanner.skip_before (Nat.le_of_lt hlt) more)

theorem decimalByte_before (h : (decimalByte s).after.rest ≠ []) :
    decimalByte (s.before more) = (decimalByte s).before more := by
  have hlt : ((s.rest.take 3).takeWhile isDigit).length < s.rest.length := by
    simpa [decimalByte] using h
  simp only [decimalByte, Scanner.before, takeWhile_take_append hlt]
  exact congrArg _ (Scanner.skip_before (Nat.le_of_lt hlt) more)

theorem utf8Value_before (h : (utf8Value s).after.rest ≠ []) :
    utf8Value (s.before more) = (utf8Value s).before more := by
  obtain ⟨offset, cs⟩ := s
  cases cs with
  | nil => exact absurd rfl h
  | cons c r =>
    have hrest : ((Scanner.mk offset (c :: r)).before more).rest = c :: (r ++ more) := rfl
    have hskip : ((Scanner.mk offset (c :: r)).before more).skip 1 =
        ((Scanner.mk offset (c :: r)).skip 1).before more :=
      Scanner.skip_before (by simp) more
    by_cases hc : c = '{'
    · subst hc
      -- Where the digits are all that is left, nothing is left behind them.
      cases hdrop : r.dropWhile isHexDigit with
      | nil =>
        have hnil : (utf8Value ⟨offset, '{' :: r⟩).after.rest = [] := by
          simp only [utf8Value, Scanner.takeWhile, Scanner.rest_skip, List.drop_succ_cons,
            List.drop_zero, hdrop]
          split <;> rfl
        exact absurd hnil h
      | cons d r' =>
        have hafter : (((Scanner.mk offset ('{' :: r)).skip 1).takeWhile isHexDigit).2.rest =
            d :: r' := hdrop
        have hdigits := Scanner.takeWhile_before (hafter ▸ List.cons_ne_nil d r') more
        have hbehind : ((((Scanner.mk offset ('{' :: r)).skip 1).takeWhile isHexDigit).2.before
            more).rest = d :: (r' ++ more) := by
          rw [Scanner.before, hafter, List.cons_append]
        simp only [utf8Value, hrest, hskip, hdigits, hafter, hbehind]
        generalize ((Scanner.mk offset ('{' :: r)).skip 1).takeWhile isHexDigit = out at hafter
        split
        · rfl
        by_cases hd : d = '}'
        · subst hd
          exact congrArg _ (Scanner.skip_before (by simp [hafter]) more)
        · simp [hd, Outcome.before]
    · simp [utf8Value, hrest, hc, Outcome.before]

/-- An escape that leaves something is read without a look at what follows. -/
theorem read_before (h : (read s).after.rest ≠ []) :
    read (s.before more) = (read s).before more := by
  obtain ⟨offset, cs⟩ := s
  cases cs with
  | nil => exact absurd rfl h
  | cons c r =>
    have hskip : ((Scanner.mk offset (c :: r)).before more).skip 1 =
        ((Scanner.mk offset (c :: r)).skip 1).before more :=
      Scanner.skip_before (by simp) more
    have hrest : ((Scanner.mk offset (c :: r)).before more).rest = c :: (r ++ more) := rfl
    cases hnamed : named? c with
    | some byte => simp only [read, hrest, hnamed, hskip, Outcome.before]
    | none =>
      simp only [read, hnamed] at h
      simp only [read, hrest, hnamed, hskip]
      split at h
      next hbreak =>
        rw [if_pos hbreak, if_pos hbreak]
        cases r with
        | nil =>
          rw [lineEnding_singleton, if_pos hbreak] at h
          exact absurd rfl h
        | cons d r =>
          rw [List.cons_append, lineEnding_cons_cons c d (r ++ more), ← lineEnding_cons_cons c d r]
          rw [Scanner.rest_skip, ne_eq, List.drop_eq_nil_iff, Nat.not_le] at h
          exact congrArg _ (Scanner.skip_before (Nat.le_of_lt h) more)
      next hbreak =>
      rw [if_neg hbreak, if_neg hbreak]
      split at h
      next hz =>
        rw [if_pos hz, if_pos hz, Scanner.takeWhile_before h more]
        rfl
      next hz =>
      rw [if_neg hz, if_neg hz]
      split at h
      next hx =>
        rw [if_pos hx, if_pos hx]
        exact hexByte_before h
      next hx =>
      rw [if_neg hx, if_neg hx]
      split at h
      next hdigit =>
        rw [if_pos hdigit, if_pos hdigit]
        exact decimalByte_before h
      next hdigit =>
      rw [if_neg hdigit, if_neg hdigit]
      split at h
      next hu =>
        rw [if_pos hu, if_pos hu]
        exact utf8Value_before h
      next hu =>
        rw [if_neg hu, if_neg hu]
        rfl

end Escape

namespace QuotedString

theorem mem_escape {start : Nat} {o : Escape.Outcome} {b : Body} {d : Diagnostic}
    (h : d ∈ b.diagnostics) : d ∈ (b.escape start o).diagnostics := by
  unfold Body.escape
  split
  · exact h
  · exact List.mem_cons_of_mem _ h

theorem unterminated_of_nil (quote : Char) (start : Nat) {s : Scanner} (h : s.rest = []) :
    ∃ d ∈ (read quote start s).diagnostics, d.cause = .unterminatedString := by
  rw [read]
  split
  next => exact ⟨_, List.mem_cons_self, rfl⟩
  next heq => cases heq.symm.trans h

/-- A string that ends is read without a look at what follows it. -/
theorem read_before {quote : Char} (hquote : quote = '"' ∨ quote = '\'') {start : Nat} {s : Scanner}
    (h : ∀ d ∈ (read quote start s).diagnostics, d.cause ≠ .unterminatedString) (more : List Char) :
    (read quote start (s.before more)).after = (read quote start s).after.before more := by
  fun_induction read quote start s with
  | case1 s hcs => exact absurd rfl (h _ List.mem_cons_self)
  | case2 s c r hcs hbreak => exact absurd rfl (h _ List.mem_cons_self)
  | case3 s r hcs hbreak =>
    obtain ⟨offset, cs⟩ := s
    cases hcs
    rw [Scanner.before, List.cons_append, Scanner.read_quote hquote]
    rcases hquote with rfl | rfl <;> rfl
  | case4 s r shorter hcs hbreak hne ih =>
    obtain ⟨offset, cs⟩ := s
    cases hcs
    have hleft : (Escape.read ⟨offset + 1, r⟩).after.rest ≠ [] := by
      intro hnil
      obtain ⟨d, hd, hcause⟩ := unterminated_of_nil quote start hnil
      exact h d (mem_escape hd) hcause
    have hescape : Escape.read ⟨offset + 1, r ++ more⟩ =
        (Escape.read ⟨offset + 1, r⟩).before more := Escape.read_before hleft
    rw [Scanner.before, List.cons_append, Scanner.read_backslash hquote, after_escape, hescape,
      after_escape]
    exact ih fun d hd => h d (mem_escape hd)
  | case5 s c r hcs hbreak hne hplain later ih =>
    obtain ⟨offset, cs⟩ := s
    cases hcs
    rw [Scanner.before, List.cons_append, read_plain (by simpa using hbreak) hne hplain]
    exact ih h

end QuotedString

namespace Scanner

open LongBracket (opening closing level? First)

/-! ## The end of a line -/

/-- Characters that end with a line feed, if there are any. -/
def AtLine (p : List Char) : Prop := ∀ c, p.getLast? = some c → c = '\n'

theorem AtLine.suffix {a b : List Char} (h : AtLine (a ++ b)) : AtLine b := by
  intro c hc
  refine h c ?_
  rw [List.getLast?_append, hc]
  rfl

theorem AtLine.mem {p : List Char} (h : AtLine p) (hne : p ≠ []) : '\n' ∈ p := by
  have hlast := List.getLast?_eq_some_getLast hne
  rw [← h _ hlast]
  exact List.getLast_mem hne

/-- What has no line feed in it and starts before the end of a line ends before it. -/
theorem AtLine.of_append {p q a b : List Char} (h : AtLine p) (hp : p ≠ []) (ha : '\n' ∉ a)
    (heq : p ++ q = a ++ b) : ∃ r, p = a ++ r ∧ b = r ++ q := by
  rcases List.append_eq_append_iff.1 heq with ⟨m, rfl, -⟩ | ⟨m, hm, hb⟩
  · exact absurd (List.mem_append_left m (h.mem hp)) ha
  · exact ⟨m, hm, hb⟩

/-! ## Blanks -/

/-- Blanks that are cut off behind a line are blanks still, unless a long comment is cut off. -/
theorem skipBlanks_cut {p : List Char} (h : AtLine p) (n : Nat) :
    (∃ m, skipBlanks ⟨n, p⟩ = ([], ⟨m, []⟩)) ∨
      ((skipBlanks ⟨n, p⟩).2.rest = [] ∧
        ∃ d ∈ (skipBlanks ⟨n, p⟩).1, d.cause = .unterminatedLongComment) ∨
      ∃ bs c r, p = Blank.texts bs ++ c :: r ∧ isBlank c = false ∧
        ∀ q r', c :: (r ++ q) ≠ '-' :: '-' :: r' := by
  induction hlen : p.length using Nat.strongRecOn generalizing p n with
  | ind len ih =>
    rcases blank_cases p with ⟨b, rest, rfl⟩ | ⟨t, rfl⟩ | hstop
    · have hpos := b.length_text_pos
      rw [List.length_append] at hlen
      rw [skipBlanks_text]
      rcases ih rest.length (by omega) h.suffix (n + Text.size b.text) rfl with
        hend | hopen | ⟨bs, c, r, rfl, hc⟩
      · exact .inl hend
      · exact .inr (.inl hopen)
      · exact .inr (.inr ⟨b :: bs, c, r, by simp, hc⟩)
    · cases t with
      | none => exact .inl ⟨n, skipBlanks_of_nil rfl⟩
      | line body isLine =>
        -- The comment would have ended with its line.
        have hmem := h.mem (p := (Trailing.line body isLine).text) (by simp [Trailing.text])
        have hbody : '\n' ∈ body := by simpa [Trailing.text] using hmem
        exact absurd (isLine.unbroken _ hbody) (by decide)
      | long level body unclosed =>
        refine .inr (.inl ⟨skipBlanks_trailing _ n, ?_⟩)
        rw [Trailing.text, skipBlanks_of_comment rfl, comment_open unclosed]
        exact ⟨_, List.mem_append_left _ List.mem_cons_self, rfl⟩
    · cases p with
      | nil => exact .inl ⟨n, hstop n⟩
      | cons c r =>
        obtain ⟨hblank, hcomment⟩ := start_of_skipBlanks (congrArg Prod.snd (hstop n))
        refine .inr (.inr ⟨[], c, r, rfl, hblank, ?_⟩)
        intro q r' heq
        obtain ⟨rfl, hr⟩ := List.cons.inj heq
        cases r with
        | nil => exact absurd (h '-' rfl) (by decide)
        | cons d r =>
          obtain ⟨rfl, -⟩ := List.cons.inj hr
          exact hcomment r rfl

/-! ## Tokens -/

theorem mem_numeralRun {isMark : Char → Bool} {cs : List Char} {c : Char}
    (h : c ∈ numeralRun isMark cs) :
    isMark c = true ∨ Numeral.isHexDigit c = true ∨ c = '.' ∨ c = '+' ∨ c = '-' := by
  fun_induction numeralRun isMark cs with
  | case1 => cases h
  | case2 d hd r ih =>
    rcases List.mem_cons.1 h with rfl | h
    · exact .inl hd
    · rcases List.mem_cons.1 h with rfl | h
      · simp
      · exact ih h
  | case3 d hd r ih =>
    rcases List.mem_cons.1 h with rfl | h
    · exact .inl hd
    · rcases List.mem_cons.1 h with rfl | h
      · simp
      · exact ih h
  | case4 d hd r _ _ ih =>
    rcases List.mem_cons.1 h with rfl | h
    · exact .inl hd
    · exact ih h
  | case5 d r hd hdigit ih =>
    rcases List.mem_cons.1 h with rfl | h
    · rw [Bool.or_eq_true, beq_iff_eq] at hdigit
      rcases hdigit with hdigit | hdigit
      · exact .inr (.inl hdigit)
      · exact .inr (.inr (.inl hdigit))
    · exact ih h
  | case6 => cases h

/-- A numeral does not go on over the end of a line. -/
theorem unbroken_numeral {s : Scanner} (hclean : s.numeral.1.diagnostics = []) {word : List Char}
    (hword : s.rest = word ++ s.numeral.2.rest) : '\n' ∉ word := by
  obtain ⟨text, x, hcs, hrun, -⟩ := numeral_cases hclean
  rw [← List.append_assoc] at hcs
  obtain rfl := List.append_cancel_right (hword.symm.trans hcs)
  intro hmem
  rcases List.mem_append.1 hmem with hmem | hmem
  · unfold numeralStart at hmem
    split at hmem
    next hhex =>
      unfold isHexadecimal at hhex
      split at hhex
      next c r heq =>
        rw [heq] at hmem
        have hc : '\n' = c := by simpa using hmem
        rw [← hc] at hhex
        exact absurd hhex (by decide)
      next => cases hhex
    next => cases hmem
  · rw [← hrun] at hmem
    have hmark := numeralMark_blank s.rest '\n' (by decide)
    rcases mem_numeralRun hmem with hm | hdigit | hsign
    · exact absurd (hm.symm.trans hmark) (by decide)
    · exact absurd hdigit (by decide)
    · exact absurd hsign (by decide)

theorem unbroken_sign {s : Scanner} {c : Char} (hclean : (s.sign c).1.diagnostics = [])
    {word : List Char} (hword : s.rest = word ++ (s.sign c).2.rest) : '\n' ∉ word := by
  have hwritten := written_sign s c hword
  obtain ⟨σ, hσ⟩ : ∃ σ, (s.sign c).1.token.kind = .sign σ := by
    unfold sign at hclean ⊢
    split at hclean
    next σ _ => exact ⟨σ, rfl⟩
    next => cases hclean
  rw [Token.Written, hσ] at hwritten
  rw [hwritten.1]
  cases σ <;> decide

theorem unbroken_word {s : Scanner} {word : List Char} (hword : s.rest = word ++ s.word.2.rest) :
    '\n' ∉ word := by
  have hafter : s.word.2.rest = s.rest.dropWhile isNameChar := by
    simp only [Scanner.word]
    split <;> rfl
  have hsplit := List.takeWhile_append_dropWhile (p := isNameChar) (l := s.rest)
  rw [← hafter] at hsplit
  obtain rfl := List.append_cancel_right (hword.symm.trans hsplit.symm)
  intro hmem
  exact absurd (List.all_eq_true.1 List.all_takeWhile _ hmem) (by decide)

/-- Only strings go on over the end of a line. -/
theorem string_of_broken {s : Scanner} {c : Char} {r : List Char}
    (hclean : (s.token c r).1.diagnostics = []) {word : List Char}
    (hword : s.rest = word ++ (s.token c r).2.rest) (hbroken : '\n' ∈ word) :
    (c = '"' ∨ c = '\'') ∨ startsLongString c r = true := by
  unfold token at hclean hword
  split at hclean
  next hc =>
    rw [if_pos hc] at hword
    exact absurd hbroken (unbroken_word hword)
  next hc =>
  rw [if_neg hc] at hword
  split at hclean
  next hn =>
    rw [if_pos hn] at hword
    exact absurd hbroken (unbroken_numeral hclean hword)
  next hn =>
  rw [if_neg hn] at hword
  split at hclean
  next hquote => exact .inl hquote
  next hquote =>
  rw [if_neg hquote] at hword
  split at hclean
  next hlong => exact .inr hlong
  next hlong =>
    rw [if_neg hlong] at hword
    exact absurd hbroken (unbroken_sign hclean hword)

/-- A string between quotes that is cut off does not end. -/
theorem quotedString_cut {quote : Char} (hquote : quote = '"' ∨ quote = '\'') {n : Nat}
    {r q : List Char}
    (hover : (quotedString ⟨n, quote :: (r ++ q)⟩ quote).2.rest.length < q.length) :
    ∃ d ∈ (quotedString ⟨n, quote :: r⟩ quote).1.diagnostics, d.cause = .unterminatedString := by
  refine Classical.byContradiction fun hnone => ?_
  have hends : ∀ d ∈ (QuotedString.read quote n ((Scanner.mk n (quote :: r)).skip 1)).diagnostics,
      d.cause ≠ .unterminatedString := fun d hd hcause => hnone ⟨d, hd, hcause⟩
  have hafter := congrArg Scanner.rest (QuotedString.read_before hquote hends q)
  have hrest : (quotedString ⟨n, quote :: (r ++ q)⟩ quote).2.rest =
      (QuotedString.read quote n ((Scanner.mk n (quote :: r)).skip 1)).after.rest ++ q := hafter
  rw [hrest, List.length_append] at hover
  omega

/-- A long string that is cut off behind a line does not end. -/
theorem longString_cut {d : Char} {r q : List Char} (h : AtLine (d :: r)) {n : Nat}
    (hclean : (longString ⟨n, d :: (r ++ q)⟩).1.diagnostics = [])
    (hover : (longString ⟨n, d :: (r ++ q)⟩).2.rest.length < q.length) :
    startsLongString d r = true ∧
      ∃ x ∈ (longString ⟨n, d :: r⟩).1.diagnostics, x.cause = .unterminatedLongString := by
  obtain ⟨level, body, hcs, hfirst⟩ := longString_cases hclean
  generalize (longString ⟨n, d :: (r ++ q)⟩).2.rest = after at hcs hover
  have hopening : '\n' ∉ opening level := by simp [opening]
  obtain ⟨r₁, hr₁, hbody⟩ := h.of_append (by simp) hopening hcs
  have hstarts : startsLongString d r = true := by
    cases level with
    | zero =>
      cases hr₁
      rfl
    | succ level =>
      cases hr₁
      rfl
  refine ⟨hstarts, ?_⟩
  rw [hr₁]
  rcases LongBracket.read_ends level ⟨n + (level + 2), r₁⟩ with
    ⟨-, body', hbody', hfirst'⟩ | ⟨hopen, -⟩
  · -- If it ended then the whole one would have ended there too.
    simp only at hbody'
    rw [hbody', List.append_assoc, List.append_assoc] at hbody
    have hsame := (hfirst.unique hfirst' hbody).2
    rw [hsame, List.length_append] at hover
    omega
  · simp [longString, LongBracket.level?_opening, skip_opening, hopen, lexeme]

/-! ## Texts -/

theorem lex_mem_lexemes (s : Scanner) : s.lex.1 ∈ s.lexemes := by
  rw [lexemes]
  split <;> exact List.mem_cons_self

/-- Lexemes with nothing to report are their tokens. -/
theorem map_token_of_clean {ls : List Lexeme} (h : ∀ l ∈ ls, l.diagnostics = []) :
    (ls.map Lexeme.token).map (⟨·, []⟩) = ls := by
  rw [List.map_map]
  refine (List.map_congr_left fun l hl => ?_).trans (List.map_id _)
  exact congrArg (Lexeme.mk l.token) (h l hl).symm

/-- Where only blanks are left there is only the end of file. -/
theorem lexemes_of_blanks {s : Scanner} (h : s.skipBlanks.2.rest = []) :
    s.lexemes = [⟨⟨.endOfFile, Text.Span.empty s.skipBlanks.2.offset, .none, false⟩,
      s.skipBlanks.1⟩] := by
  rw [lexemes]
  simp only [lex_of_nil h]
  rfl

/-- A string between quotes starts before the offset `n` and ends behind it. -/
def Quotes (s : Scanner) (n : Nat) : Prop :=
  ∃ l ∈ s.lexemes, ∃ before quote body after, s.rest = before ++ (quote :: body ++ after) ∧
    (quote = '"' ∨ quote = '\'') ∧
    l.token.span = ⟨s.offset + Text.size before, s.offset + Text.size (before ++ quote :: body)⟩ ∧
    l.token.span.start < n ∧ n < l.token.span.stop

theorem Quotes.mono {s s' : Scanner} {n : Nat} (h : s'.Quotes n) (hreaches : Reaches s s')
    (hsub : s'.lexemes ⊆ s.lexemes) : s.Quotes n := by
  obtain ⟨l, hl, before, quote, body, after, hrest, hquote, hspan, hstart, hstop⟩ := h
  obtain ⟨gap, hgap, hoffset⟩ := hreaches
  refine ⟨l, hsub hl, gap ++ before, quote, body, after, ?_, hquote, ?_, hstart, hstop⟩
  · rw [hgap, hrest, List.append_assoc]
  · rw [hspan, hoffset]
    simp only [Text.size_append, Nat.add_assoc]

/-- What becomes of the tokens at `s` where only the characters `p` are left of the text. -/
inductive Cut (s : Scanner) (p : List Char) : Prop where
  | between (ts : List Token) {us : List Token} {eof : Token} : us ≠ [] → eof.kind = .endOfFile →
      s.lexemes = (ts ++ us).map (⟨·, []⟩) →
      lexemes ⟨s.offset, p⟩ = (ts ++ [eof]).map (⟨·, []⟩) → Cut s p
  | long {l : Lexeme} {d : Diagnostic} : l ∈ lexemes ⟨s.offset, p⟩ → d ∈ l.diagnostics →
      d.cause = .unterminatedLongString ∨ d.cause = .unterminatedLongComment → Cut s p
  | quoted {l : Lexeme} {d : Diagnostic} : l ∈ lexemes ⟨s.offset, p⟩ → d ∈ l.diagnostics →
      d.cause = .unterminatedString → s.Quotes (s.offset + Text.size p) → Cut s p

/-- The tokens in front are the same. -/
theorem Cut.after {s s' : Scanner} {p p' : List Char} (h : Cut s' p') (ts : List Token)
    (hs : Reaches s s') (hp : Reaches ⟨s.offset, p⟩ ⟨s'.offset, p'⟩)
    (hlexemes : s.lexemes = ts.map (⟨·, []⟩) ++ s'.lexemes)
    (hlexemes' : lexemes ⟨s.offset, p⟩ = ts.map (⟨·, []⟩) ++ lexemes ⟨s'.offset, p'⟩) : Cut s p := by
  have hsub : lexemes ⟨s'.offset, p'⟩ ⊆ lexemes ⟨s.offset, p⟩ := by
    rw [hlexemes']
    exact List.subset_append_right ..
  cases h with
  | between us hvs hk hwhole hpart =>
    refine .between (ts ++ us) hvs hk ?_ ?_
    · rw [hlexemes, hwhole, ← List.map_append, List.append_assoc]
    · rw [hlexemes', hpart, ← List.map_append, List.append_assoc]
  | long hl hd hcause => exact .long (hsub hl) hd hcause
  | quoted hl hd hcause hquotes =>
    have hend : s'.offset + Text.size p' = s.offset + Text.size p := by
      obtain ⟨gap, hgap, hoffset⟩ := hp
      simp only at hgap hoffset
      rw [hgap, hoffset, Text.size_append, Nat.add_assoc]
    rw [hend] at hquotes
    refine .quoted (hsub hl) hd hcause (hquotes.mono hs ?_)
    rw [hlexemes]
    exact List.subset_append_right ..

/-- A token that goes on over the cut is a string that does not end. -/
theorem cut_of_over {c : Char} {r q : List Char} (h : AtLine (c :: r)) (hblank : isBlank c = false)
    (hcomment : ∀ q r', c :: (r ++ q) ≠ '-' :: '-' :: r') {n : Nat}
    (hclean : (token ⟨n, c :: (r ++ q)⟩ c (r ++ q)).1.diagnostics = [])
    (hover : (token ⟨n, c :: (r ++ q)⟩ c (r ++ q)).2.rest.length < q.length) :
    Cut ⟨n, c :: (r ++ q)⟩ (c :: r) := by
  have hlex : lex ⟨n, c :: r⟩ = token ⟨n, c :: r⟩ c r := by
    refine lex_of_start hblank (fun r' => ?_) n
    simpa using hcomment [] r'
  have hmem := lex_mem_lexemes ⟨n, c :: r⟩
  have hmem' := lex_mem_lexemes ⟨n, c :: (r ++ q)⟩
  rw [hlex] at hmem
  rw [lex_of_start hblank (hcomment q)] at hmem'
  have hgiven := gives_token ⟨n, c :: (r ++ q)⟩ c (r ++ q)
  obtain ⟨word, hword, hafter⟩ := hgiven.reaches
  obtain ⟨m, hm, rfl⟩ : ∃ m, 0 < Text.size m ∧ word = c :: r ++ m := by
    have hsplit : c :: r ++ q = word ++ (token ⟨n, c :: (r ++ q)⟩ c (r ++ q)).2.rest := hword
    rcases List.append_eq_append_iff.1 hsplit with ⟨m, hm, hq⟩ | ⟨m, -, hrest⟩
    · cases m with
      | nil =>
        rw [← List.nil_append (Scanner.rest _), ← hq] at hover
        exact absurd hover (Nat.lt_irrefl _)
      | cons d m => exact ⟨d :: m, Nat.lt_add_right _ d.utf8Size_pos, hm⟩
    · rw [hrest, List.length_append] at hover
      omega
  have hbroken : '\n' ∈ c :: r ++ m := List.mem_append_left m (h.mem (by simp))
  rcases string_of_broken hclean hword hbroken with hquote | hlong
  · rw [token_of_quote hquote] at hmem hmem' hover hword
    obtain ⟨d, hd, hcause⟩ := quotedString_cut hquote hover
    have hspan := hgiven.span
    rw [hafter, token_of_quote hquote] at hspan
    have hpos := c.utf8Size_pos
    refine .quoted hmem hd hcause ⟨_, hmem', [], c, r ++ m, _, hword, hquote, hspan, ?_, ?_⟩
    all_goals
      rw [hspan]
      simp only [List.cons_append, Text.size_cons, Text.size_append]
      omega
  · rw [token_of_bracket hlong] at hclean hover
    obtain ⟨hstarts, d, hd, hcause⟩ := longString_cut h hclean hover
    rw [token_of_bracket hstarts] at hmem
    exact .long hmem hd (.inl hcause)

/-- A token in front of the cut is read as before, and then comes the rest. -/
theorem cut_of_token {c : Char} {r q : List Char} (h : AtLine (c :: r)) (hblank : isBlank c = false)
    (hcomment : ∀ q r', c :: (r ++ q) ≠ '-' :: '-' :: r') {n : Nat}
    (hclean : ∀ l ∈ lexemes ⟨n, c :: (r ++ q)⟩, l.diagnostics = [])
    (hrest : ∀ p m, p.length ≤ r.length → AtLine p →
      (∀ l ∈ lexemes ⟨m, p ++ q⟩, l.diagnostics = []) → Cut ⟨m, p ++ q⟩ p) :
    Cut ⟨n, c :: (r ++ q)⟩ (c :: r) := by
  have hlex := lex_of_start hblank (hcomment q) n
  have hquiet : (token ⟨n, c :: (r ++ q)⟩ c (r ++ q)).1.diagnostics = [] := by
    rw [← hlex]
    exact hclean _ (lex_mem_lexemes _)
  by_cases hover : (token ⟨n, c :: (r ++ q)⟩ c (r ++ q)).2.rest.length < q.length
  · exact cut_of_over h hblank hcomment hquiet hover
  obtain ⟨w, t, hw, -, -, htoken, hread⟩ := token_shifted hblank (hcomment q) hquiet
  have hkind : (t.shift n).kind ≠ .endOfFile := by
    rw [← htoken]
    exact (gives_token ⟨n, c :: (r ++ q)⟩ c (r ++ q)).kind
  generalize (token ⟨n, c :: (r ++ q)⟩ c (r ++ q)).2.rest = after at hover hw hread
  obtain ⟨p, rfl, rfl⟩ : ∃ p, r = w ++ p ∧ after = p ++ q := by
    rcases List.append_eq_append_iff.1 hw with ⟨m, rfl, rfl⟩ | ⟨p, hr, hafter⟩
    · obtain rfl : m = [] := by
        rw [List.length_append] at hover
        exact List.eq_nil_of_length_eq_zero (by omega)
      exact ⟨[], by simp, by simp⟩
    · exact ⟨p, hr, hafter⟩
  have hone (rest : List Char) (hsevers : Severs (p ++ q) rest) :
      Lexes ⟨n, c :: (w ++ rest)⟩ [t.shift n] ⟨n + Text.size (c :: w), rest⟩ := by
    have hlex := hread n rest hsevers
    refine .cons hkind (congrArg Prod.fst hlex) ?_
    rw [hlex]
    exact .nil _
  have hwhole := hone (p ++ q) fun _ hc => .inl hc
  have hpart := hone p (by simpa using severs_nil.append p)
  rw [← List.append_assoc] at hwhole
  refine (hrest p (n + Text.size (c :: w)) (by simp) ?_ fun l hl => hclean l ?_).after [t.shift n]
    hwhole.reaches hpart.reaches hwhole.lexemes hpart.lexemes
  · exact AtLine.suffix (a := c :: w) h
  · rw [hwhole.lexemes]
    exact List.mem_append_right _ hl

/-- A text without diagnostics that is cut off behind a line has the same tokens up to the cut,
unless that is within a string or a long comment. -/
theorem lexemes_cut {p : List Char} (h : AtLine p) (n : Nat) (q : List Char)
    (hclean : ∀ l ∈ lexemes ⟨n, p ++ q⟩, l.diagnostics = []) : Cut ⟨n, p ++ q⟩ p := by
  induction hlen : p.length using Nat.strongRecOn generalizing p n with
  | ind len ih =>
    rcases skipBlanks_cut h n with
      ⟨m, hskip⟩ | ⟨hnil, d, hd, hcause⟩ | ⟨bs, c, r, rfl, hblank, hcomment⟩
    · have hpart := lexemes_of_blanks (s := ⟨n, p⟩) (by rw [hskip])
      rw [hskip] at hpart
      refine .between [] ?_ rfl (map_token_of_clean hclean).symm hpart
      simpa using List.ne_nil_of_mem (lex_mem_lexemes ⟨n, p ++ q⟩)
    · have hpart := lexemes_of_blanks (s := ⟨n, p⟩) hnil
      have hmem := lex_mem_lexemes ⟨n, p⟩
      rw [hpart, List.mem_singleton] at hmem
      exact .long (lex_mem_lexemes ⟨n, p⟩) (by rw [hmem]; exact hd) (.inr hcause)
    · have hwhole := lexemes_texts bs n (c :: (r ++ q))
      rw [← List.cons_append, ← List.append_assoc] at hwhole
      rw [hwhole] at hclean
      have hcut : Cut ⟨n + Text.size (Blank.texts bs), c :: (r ++ q)⟩ (c :: r) := by
        refine cut_of_token h.suffix hblank hcomment hclean fun p m hp hline hquiet => ?_
        refine ih p.length ?_ hline m hquiet rfl
        rw [← hlen, List.length_append, List.length_cons]
        omega
      refine hcut.after [] ⟨Blank.texts bs, by simp, rfl⟩ ⟨Blank.texts bs, rfl, rfl⟩ hwhole ?_
      exact lexemes_texts bs n (c :: r)

end Scanner
end LuaFront
