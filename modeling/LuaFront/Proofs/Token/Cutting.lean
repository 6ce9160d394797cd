import LuaFront.Proofs.Token.RoundTrip

/-!
# LuaFront.Proofs.Token.Cutting

What reading a token depends on. A token that is read without a diagnostic is read again, with the
same kind and value, wherever its characters stand, and whatever stands behind them, as long as that
starts as it did before or with a blank.

* `Scanner.Severs rest rest'`: the characters `rest'` may take the place of `rest` behind a token.
* `Scanner.lex_severed`: one token.
* `Scanner.Lexes s ls s'`: the lexemes `ls` are read from `s` on, and reading goes on at `s'`.
* `Scanner.Lexes.severed`: all tokens of a stretch of text, read where it is cut off.
-/

namespace LuaFront

open Text (Span)

namespace Scanner

/-- What may stand behind a token in place of `rest`: nothing, a blank, or what starts as `rest`
does. -/
def Severs (rest rest' : List Char) : Prop :=
  ∀ c, rest'.head? = some c → rest.head? = some c ∨ isBlank c = true

variable {rest rest' : List Char}

/-- What no character of `rest` begins, none of `rest'` begins either. -/
theorem Severs.head (h : Severs rest rest') {p : Char → Bool}
    (hblank : ∀ c, isBlank c = true → p c = false) (hrest : ∀ c, rest.head? = some c → p c = false) :
    ∀ c, rest'.head? = some c → p c = false := by
  intro c hc
  rcases h c hc with hsame | hb
  · exact hrest c hsame
  · exact hblank c hb

theorem Severs.append (h : Severs rest rest') (v : List Char) : Severs (v ++ rest) (v ++ rest') := by
  cases v with
  | nil => exact h
  | cons c r => exact fun d hd => .inl hd

theorem severs_nil : Severs rest [] := by
  intro c hc
  cases hc

theorem severs_blank {c : Char} (hc : isBlank c = true) (r : List Char) : Severs rest (c :: r) := by
  intro d hd
  cases hd
  exact .inr hc

/-! ## Words -/

/-- A run of characters that ends before `rest` ends before `rest'`. -/
theorem takeWhile_severed (h : Severs rest rest') {p : Char → Bool}
    (hblank : ∀ c, isBlank c = true → p c = false) {word : List Char}
    (hrest : (word ++ rest).dropWhile p = rest) (offset : Nat) :
    (word ++ rest).takeWhile p = word ∧
      takeWhile p ⟨offset, word ++ rest'⟩ = (word, ⟨offset + Text.size word, rest'⟩) := by
  have htake : (word ++ rest).takeWhile p = word := by
    have hsplit := List.takeWhile_append_dropWhile (p := p) (l := word ++ rest)
    rw [hrest] at hsplit
    exact List.append_cancel_right hsplit
  have hword : ∀ c ∈ word, p c = true := by
    intro c hc
    rw [← htake] at hc
    exact List.all_eq_true.1 List.all_takeWhile c hc
  have hstop : ∀ c, rest.head? = some c → p c = false := by
    intro c hc
    have := List.head?_dropWhile_not p (word ++ rest)
    rw [hrest, hc] at this
    simpa using this
  exact ⟨htake, takeWhile_append hword (h.head hblank hstop) offset⟩

theorem word_severed (h : Severs rest rest') (word : List Char) {offset : Nat}
    (hrest : (Scanner.word ⟨offset, word ++ rest⟩).2.rest = rest) (offset' : Nat) :
    Scanner.word ⟨offset', word ++ rest'⟩ = lexeme ⟨offset' + Text.size word, rest'⟩ offset'
      (Scanner.word ⟨offset, word ++ rest⟩).1.token.kind
      (Scanner.word ⟨offset, word ++ rest⟩).1.token.value [] := by
  have hafter : (Scanner.word ⟨offset, word ++ rest⟩).2.rest =
      (word ++ rest).dropWhile isNameChar := by
    simp only [Scanner.word]
    split <;> rfl
  have hdrop : (word ++ rest).dropWhile isNameChar = rest := hafter.symm.trans hrest
  obtain ⟨htake, hread⟩ :=
    takeWhile_severed h (fun c hc => not_isNameChar_of_isBlank hc) hdrop offset'
  simp only [Scanner.word, takeWhile_fst, htake, hread]
  split <;> rfl

/-! ## Numerals -/

theorem numeralRun_prefix (isMark : Char → Bool) (cs : List Char) : numeralRun isMark cs <+: cs := by
  fun_induction numeralRun isMark cs with
  | case1 => exact List.prefix_refl _
  | case2 c _ r ih => exact List.cons_prefix_cons.2 ⟨rfl, List.cons_prefix_cons.2 ⟨rfl, ih⟩⟩
  | case3 c _ r ih => exact List.cons_prefix_cons.2 ⟨rfl, List.cons_prefix_cons.2 ⟨rfl, ih⟩⟩
  | case4 c r _ _ _ ih => exact List.cons_prefix_cons.2 ⟨rfl, ih⟩
  | case5 c r _ _ ih => exact List.cons_prefix_cons.2 ⟨rfl, ih⟩
  | case6 => exact List.nil_prefix

/-- An exponent mark with no sign behind it. -/
theorem numeralRun_mark {isMark : Char → Bool} {c : Char} (hc : isMark c = true) {r : List Char}
    (hr : ∀ d, r.head? = some d → (d == '+' || d == '-') = false) :
    numeralRun isMark (c :: r) = c :: numeralRun isMark r := by
  rw [numeralRun.eq_def]
  simp only [hc, if_true]
  split
  · simpa using hr '+' rfl
  · simpa using hr '-' rfl
  · rfl

theorem numeralRun_eq_nil {isMark : Char → Bool} {cs : List Char} : numeralRun isMark cs = [] ↔
    ∀ c, cs.head? = some c → (isMark c || Numeral.isHexDigit c || c == '.') = false := by
  rw [numeralRun.eq_def]
  cases cs with
  | nil => simp
  | cons c r =>
    by_cases hc : isMark c = true
    · simp only [hc, if_true]
      split <;> simp [hc]
    · simp [hc]

/-- What ends a numeral before `rest` ends it before `rest'`. -/
theorem numeralRun_severed (h : Severs rest rest') {isMark : Char → Bool}
    (hblank : ∀ c, isBlank c = true → isMark c = false) {text : List Char}
    (hrun : numeralRun isMark (text ++ rest) = text) : numeralRun isMark (text ++ rest') = text := by
  have hempty : numeralRun isMark rest = [] → numeralRun isMark rest' = [] := by
    rw [numeralRun_eq_nil, numeralRun_eq_nil]
    refine h.head fun c hc => ?_
    have hpoint : c ≠ '.' := ne_of_class hc (by decide)
    simp [hblank c hc, not_isHexDigit_of_isBlank hc, hpoint]
  have hsign : ∀ c, isBlank c = true → (c == '+' || c == '-') = false :=
    fun c hc => marks_of_class hc (by decide) (by decide)
  generalize hcs : text ++ rest = cs at hrun
  fun_induction numeralRun isMark cs generalizing text with
  | case1 =>
    obtain ⟨rfl, rfl⟩ := List.append_eq_nil_iff.1 hcs
    exact hempty rfl
  | case2 c hc r ih =>
    subst hrun
    have hr : numeralRun isMark r ++ rest = r := by simpa using hcs
    rw [List.cons_append, List.cons_append, numeralRun.eq_def]
    simp only [hc, if_true, ih hr rfl]
  | case3 c hc r ih =>
    subst hrun
    have hr : numeralRun isMark r ++ rest = r := by simpa using hcs
    rw [List.cons_append, List.cons_append, numeralRun.eq_def]
    simp only [hc, if_true, ih hr rfl]
  | case4 c hc r hplus hminus ih =>
    subst hrun
    have hr : numeralRun isMark r ++ rest = r := by simpa using hcs
    have hnext : ∀ d, r.head? = some d → (d == '+' || d == '-') = false := by
      intro d hd
      obtain ⟨r', rfl⟩ := List.head?_eq_some_iff.1 hd
      have hp : d ≠ '+' := fun he => hplus r' (by rw [he])
      have hm : d ≠ '-' := fun he => hminus r' (by rw [he])
      simp [hp, hm]
    have hsevers := h.append (numeralRun isMark r)
    rw [hr] at hsevers
    rw [List.cons_append, numeralRun_mark hc (hsevers.head hsign hnext), ih hr rfl]
  | case5 c r hc hdigit ih =>
    subst hrun
    have hr : numeralRun isMark r ++ rest = r := by simpa using hcs
    rw [List.cons_append, numeralRun.eq_def]
    simp [hc, hdigit, ih hr rfl]
  | case6 c r hc hdigit =>
    subst hrun
    refine hempty ?_
    rw [List.nil_append] at hcs
    rw [hcs, numeralRun.eq_def]
    simp [hc, hdigit]

/-- What the digits of a numeral stand behind. -/
def numeralStart (cs : List Char) : List Char := if isHexadecimal cs then cs.take 2 else []

/-- Whether a character marks the exponent of a numeral. -/
def numeralMark (cs : List Char) (c : Char) : Bool :=
  if isHexadecimal cs then c == 'p' || c == 'P' else c == 'e' || c == 'E'

theorem numeralMark_blank (cs : List Char) (c : Char) (hc : isBlank c = true) :
    numeralMark cs c = false := by
  unfold numeralMark
  split <;> exact marks_of_class hc (by decide) (by decide)

/-- How a numeral is judged by its digits. -/
def numeralValue (hexadecimal : Bool) (text : List Char) : Option Number :=
  if hexadecimal then Numeral.hexadecimal? text else Numeral.decimal? text

/-- How a numeral is read: by its digits, and by what is left of a word behind them. -/
def judged (after : Scanner) (start : Nat) : Option Number → List Char → Lexeme × Scanner
  | some x, [] => after.lexeme start x.kind (.number x) []
  | _, _ =>
    after.lexeme start .integer (.number (.integer 0)) [⟨after.spanFrom start, .malformedNumber⟩]

/-- What starts as a numeral falls into its digits, what is left of the word, and the rest. -/
theorem exists_numeralParts (cs : List Char) :
    ∃ run excess rest, cs = numeralStart cs ++ (run ++ (excess ++ rest)) ∧
      numeralRun (numeralMark cs) (run ++ (excess ++ rest)) = run ∧
      (∀ c ∈ excess, isNameChar c = true) ∧ EndsWord rest := by
  obtain ⟨digits, hcs⟩ : ∃ digits, cs = numeralStart cs ++ digits := by
    unfold numeralStart
    split
    · exact ⟨_, (List.take_append_drop 2 cs).symm⟩
    · exact ⟨_, rfl⟩
  obtain ⟨behind, hbehind⟩ := numeralRun_prefix (numeralMark cs) digits
  have hword : behind.takeWhile isNameChar ++ behind.dropWhile isNameChar = behind :=
    List.takeWhile_append_dropWhile
  refine ⟨numeralRun (numeralMark cs) digits, behind.takeWhile isNameChar,
    behind.dropWhile isNameChar, ?_, ?_, List.all_eq_true.1 List.all_takeWhile, fun c hc => ?_⟩
  · rw [hword, hbehind]
    exact hcs
  · rw [hword, hbehind]
  · have hstop := List.head?_dropWhile_not isNameChar behind
    rw [hc] at hstop
    simpa using hstop

/-- A numeral is read with all that is left of the word, and then judged. -/
theorem numeral_of_parts {cs run excess rest : List Char}
    (hcs : cs = numeralStart cs ++ (run ++ (excess ++ rest)))
    (hrun : numeralRun (numeralMark cs) (run ++ (excess ++ rest)) = run)
    (hexcess : ∀ c ∈ excess, isNameChar c = true) (hrest : EndsWord rest) (offset : Nat) :
    numeral ⟨offset, cs⟩ =
      judged ⟨offset + Text.size (numeralStart cs ++ (run ++ excess)), rest⟩ offset
        (numeralValue (isHexadecimal cs) run) excess := by
  have hstart : (if isHexadecimal cs = true then (Scanner.mk offset cs).skip 2 else ⟨offset, cs⟩) =
      ⟨offset + Text.size (numeralStart cs), run ++ (excess ++ rest)⟩ := by
    unfold numeralStart at hcs ⊢
    split
    next hhex =>
      rw [if_pos hhex] at hcs
      have hdrop := List.append_cancel_left ((List.take_append_drop 2 cs).trans hcs)
      rw [skip, hdrop]
    next hhex =>
      rw [if_neg hhex] at hcs
      rw [Text.size_nil, Nat.add_zero, ← List.nil_append (run ++ (excess ++ rest)), ← hcs]
  have hmark : numeralRun (fun c => if isHexadecimal cs = true then c == 'p' || c == 'P'
      else c == 'e' || c == 'E') (run ++ (excess ++ rest)) = run := hrun
  have hvalue : (if isHexadecimal cs = true then Numeral.hexadecimal? run
      else Numeral.decimal? run) = numeralValue (isHexadecimal cs) run := rfl
  simp only [numeral, hstart, hmark, hvalue, skip_append, takeWhile_append hexcess hrest]
  rw [Text.size_append, Text.size_append, ← Nat.add_assoc, ← Nat.add_assoc]
  rcases numeralValue (isHexadecimal cs) run with _ | _ | _ <;> cases excess <;> rfl

/-- A numeral is read up to the end of its digits if no word goes on there. -/
theorem numeral_of_run {cs text rest : List Char} (hcs : cs = numeralStart cs ++ (text ++ rest))
    (hrun : numeralRun (numeralMark cs) (text ++ rest) = text) (hrest : EndsWord rest) {x : Number}
    (hvalue : numeralValue (isHexadecimal cs) text = some x) (offset : Nat) :
    numeral ⟨offset, cs⟩ = lexeme ⟨offset + Text.size (numeralStart cs ++ text), rest⟩ offset
      x.kind (.number x) [] := by
  have hparts : cs = numeralStart cs ++ (text ++ ([] ++ rest)) := hcs
  rw [numeral_of_parts hparts hrun (by simp) hrest, hvalue, List.append_nil]
  rfl

/-- A numeral without a diagnostic ends where its digits do. -/
theorem numeral_cases {s : Scanner} (hclean : s.numeral.1.diagnostics = []) :
    ∃ text x, s.rest = numeralStart s.rest ++ (text ++ s.numeral.2.rest) ∧
      numeralRun (numeralMark s.rest) (text ++ s.numeral.2.rest) = text ∧
      EndsWord s.numeral.2.rest ∧ numeralValue (isHexadecimal s.rest) text = some x := by
  obtain ⟨offset, cs⟩ := s
  obtain ⟨run, excess, rest, hcs, hrun, hexcess, hrest⟩ := exists_numeralParts cs
  rw [numeral_of_parts hcs hrun hexcess hrest] at hclean ⊢
  unfold judged at hclean ⊢
  split at hclean
  next x hvalue => exact ⟨run, x, hcs, hrun, hrest, hvalue⟩
  next => cases hclean

/-- Whether a numeral is hexadecimal is seen in it. -/
theorem isHexadecimal_severed (h : Severs rest rest') (hrest : EndsWord rest) {word : List Char}
    (hword : word ≠ []) : isHexadecimal (word ++ rest') = isHexadecimal (word ++ rest) := by
  obtain ⟨c, r, rfl⟩ := List.exists_cons_of_ne_nil hword
  cases r with
  | cons d r =>
    by_cases hc : c = '0'
    · subst hc
      rfl
    · simp [isHexadecimal, hc]
  | nil =>
    have hnone {rest : List Char} (hrest : EndsWord rest) : isHexadecimal (c :: rest) = false := by
      cases rest with
      | nil => rw [isHexadecimal]; simp
      | cons d r =>
        have hd := hrest d rfl
        have hclass : (!isNameChar d) = true := by simp [hd]
        exact isHexadecimal_of_second c
          (marks_of_class (p := (!isNameChar ·)) hclass (by decide) (by decide)) r
    exact (hnone (h.head (fun c hc => not_isNameChar_of_isBlank hc) hrest)).trans (hnone hrest).symm

theorem numeral_severed (h : Severs rest rest') {word : List Char} (hword : word ≠ []) {offset : Nat}
    (hclean : (numeral ⟨offset, word ++ rest⟩).1.diagnostics = [])
    (hrest : (numeral ⟨offset, word ++ rest⟩).2.rest = rest) (offset' : Nat) :
    numeral ⟨offset', word ++ rest'⟩ = lexeme ⟨offset' + Text.size word, rest'⟩ offset'
      (numeral ⟨offset, word ++ rest⟩).1.token.kind
      (numeral ⟨offset, word ++ rest⟩).1.token.value [] := by
  obtain ⟨text, x, hcs, hrun, hends, hvalue⟩ := numeral_cases hclean
  rw [hrest] at hcs hrun hends
  have hnumeral := numeral_of_run hcs hrun hends hvalue offset
  have htext : word = numeralStart (word ++ rest) ++ text := by
    rw [← List.append_assoc] at hcs
    exact List.append_cancel_right hcs
  have hhex := isHexadecimal_severed h hends hword
  have hmark : numeralMark (word ++ rest') = numeralMark (word ++ rest) := by
    funext c
    rw [numeralMark, numeralMark, hhex]
  have hstart : numeralStart (word ++ rest') = numeralStart (word ++ rest) := by
    unfold numeralStart at htext ⊢
    rw [hhex]
    split
    next hx =>
      have htwo : 2 ≤ word.length := by
        have hlength : 2 ≤ (word ++ rest).length := by
          unfold isHexadecimal at hx
          split at hx
          next heq => simp [heq]
          next => cases hx
        have := congrArg List.length htext
        simp only [hx, if_true, List.length_append, List.length_take] at this hlength
        omega
      rw [List.take_append_of_le_length htwo, List.take_append_of_le_length htwo]
    next => rfl
  have hcs' : word ++ rest' = numeralStart (word ++ rest') ++ (text ++ rest') := by
    rw [hstart, ← List.append_assoc, ← htext]
  have hrun' : numeralRun (numeralMark (word ++ rest')) (text ++ rest') = text := by
    rw [hmark]
    exact numeralRun_severed h (numeralMark_blank _) hrun
  have hsevered := numeral_of_run hcs' hrun'
    (h.head (fun c hc => not_isNameChar_of_isBlank hc) hends) (by rw [hhex]; exact hvalue) offset'
  rw [hsevered, hnumeral, hstart, ← htext]
  rfl

/-! ## Strings between quotes -/

end Scanner

namespace Escape

open Numeral (isHexDigit isDigit)

/-- How far some of the next `n` characters go is decided by them and by the one behind them. -/
theorem takeWhile_take_of_head {p : Char → Bool} {digits rest rest' : List Char} {n : Nat}
    (h : ((digits ++ rest).take n).takeWhile p = digits) (hhead : rest'.head? = rest.head?) :
    ((digits ++ rest').take n).takeWhile p = digits := by
  induction digits generalizing n with
  | nil =>
    cases n with
    | zero => rfl
    | succ n =>
      cases rest with
      | nil =>
        cases List.head?_eq_none_iff.1 hhead
        rfl
      | cons c r =>
        obtain ⟨r', rfl⟩ := List.head?_eq_some_iff.1 hhead
        by_cases hc : p c = true
        · simp [hc] at h
        · simp [hc]
  | cons c digits ih =>
    cases n with
    | zero => cases h
    | succ n =>
      by_cases hc : p c = true
      · simp only [List.cons_append, List.take_succ_cons, List.takeWhile_cons, hc, if_true,
          List.cons.injEq, true_and] at h ⊢
        exact ih h
      · simp [hc] at h

/-- Digits that are read within the next `n` characters come first there. -/
theorem takeWhile_take_prefix (p : Char → Bool) (n : Nat) (cs : List Char) :
    (cs.take n).takeWhile p <+: cs :=
  (List.takeWhile_prefix p).trans (List.take_prefix n cs)

/-- An escape is read again in front of what starts as what stood behind it. -/
def Local (read : Scanner → Outcome) (cs : List Char) (offset : Nat) : Prop :=
  ∀ bytes, (read ⟨offset, cs⟩).meaning = .ok bytes →
    ∃ text, cs = text ++ (read ⟨offset, cs⟩).after.rest ∧
      ∀ offset' rest', rest'.head? = (read ⟨offset, cs⟩).after.rest.head? →
        read ⟨offset', text ++ rest'⟩ = ⟨.ok bytes, ⟨offset' + Text.size text, rest'⟩⟩

/-- What is made of the digits among the next `n` characters depends on no more than them. -/
theorem local_of_digits {read : Scanner → Outcome} (p : Char → Bool) (n : Nat)
    (judge : List Char → Except Cause (List UInt8))
    (hread : ∀ s, read s = ⟨judge ((s.rest.take n).takeWhile p),
      s.skip ((s.rest.take n).takeWhile p).length⟩) (cs : List Char) (offset : Nat) :
    Local read cs offset := by
  intro bytes hok
  obtain ⟨rest, hcs⟩ := takeWhile_take_prefix p n cs
  generalize hdigits : (cs.take n).takeWhile p = digits at hcs
  subst hcs
  have hafter : (read ⟨offset, digits ++ rest⟩).after.rest = rest := by
    simp [hread, hdigits]
  refine ⟨digits, by rw [hafter], fun offset' rest' hhead => ?_⟩
  rw [hafter] at hhead
  simp only [hread, hdigits] at hok
  simp only [hread, takeWhile_take_of_head hdigits hhead, Scanner.skip_append, hok]

theorem hexByte_local (cs : List Char) (offset : Nat) : Local hexByte cs offset :=
  local_of_digits isHexDigit 2 (fun digits =>
    if digits.length = 2 then .ok [UInt8.ofNat (hexValue digits)] else .error .incompleteEscape)
    (fun _ => rfl) cs offset

theorem decimalByte_local (cs : List Char) (offset : Nat) : Local decimalByte cs offset :=
  local_of_digits isDigit 3 (fun digits =>
    if Numeral.decimalValue digits < 256 then .ok [UInt8.ofNat (Numeral.decimalValue digits)]
    else .error .decimalEscapeTooLarge) (fun _ => rfl) cs offset

/-- The digits between the braces are all that the value depends on. -/
theorem utf8Value_braces {digits : List Char} (hne : digits ≠ [])
    (hdigits : ∀ c ∈ digits, isHexDigit c = true) (offset : Nat) (rest : List Char) :
    utf8Value ⟨offset, '{' :: (digits ++ '}' :: rest)⟩ =
      ⟨if hexValue digits < 0x80000000 then .ok (Text.Utf8.encodeValue (hexValue digits))
        else .error .utf8ValueTooLarge,
        ⟨offset + Text.size ('{' :: (digits ++ ['}'])), rest⟩⟩ := by
  have hskip : (Scanner.mk offset ('{' :: (digits ++ '}' :: rest))).skip 1 =
      ⟨offset + 1, digits ++ '}' :: rest⟩ := rfl
  have hstop : ∀ c, ('}' :: rest).head? = some c → isHexDigit c = false := by
    intro c hc
    cases hc
    decide
  have hsize : Text.size ('{' :: (digits ++ ['}'])) = 1 + (Text.size digits + 1) := by
    simp only [Text.size_cons, Text.size_append, Text.size_nil, show '{'.utf8Size = 1 from rfl,
      show '}'.utf8Size = 1 from rfl]
  simp only [utf8Value, hskip, Scanner.takeWhile_append hdigits hstop, hne, if_false, hsize]
  simp only [Scanner.skip, List.take_succ_cons, List.take_zero, List.drop_succ_cons, List.drop_zero,
    Text.size_cons, Text.size_nil, show '}'.utf8Size = 1 from rfl]
  rw [show offset + 1 + Text.size digits + (1 + 0) = offset + (1 + (Text.size digits + 1)) by omega]

/-- What is read as a value stands between braces. -/
theorem utf8Value_cases {cs : List Char} {offset : Nat} {bytes : List UInt8}
    (hok : (utf8Value ⟨offset, cs⟩).meaning = .ok bytes) :
    ∃ digits rest, cs = '{' :: (digits ++ '}' :: rest) ∧ digits ≠ [] ∧
      ∀ c ∈ digits, isHexDigit c = true := by
  unfold utf8Value at hok
  split at hok
  next r heq =>
    simp only at heq
    subst heq
    simp only [Scanner.takeWhile, Scanner.rest_skip, List.drop_succ_cons, List.drop_zero] at hok
    split at hok
    · cases hok
    next hne =>
      split at hok
      next rest hdrop =>
        refine ⟨r.takeWhile isHexDigit, rest, ?_, hne, List.all_eq_true.1 List.all_takeWhile⟩
        rw [← hdrop, List.takeWhile_append_dropWhile]
      · cases hok
  next => cases hok

theorem utf8Value_local (cs : List Char) (offset : Nat) : Local utf8Value cs offset := by
  intro bytes hok
  obtain ⟨digits, rest, rfl, hne, hdigits⟩ := utf8Value_cases hok
  rw [utf8Value_braces hne hdigits] at hok ⊢
  refine ⟨'{' :: (digits ++ ['}']), by simp, fun offset' rest' _ => ?_⟩
  have htext : '{' :: (digits ++ ['}']) ++ rest' = '{' :: (digits ++ '}' :: rest') := by simp
  rw [htext, utf8Value_braces hne hdigits]
  simp only at hok
  rw [hok]

/-- Blanks are passed over up to what is none. -/
theorem blanks_local (cs : List Char) (offset : Nat) :
    Local (fun s => ⟨.ok [], (s.takeWhile Scanner.isBlank).2⟩) cs offset := by
  intro bytes hok
  cases hok
  refine ⟨cs.takeWhile Scanner.isBlank, List.takeWhile_append_dropWhile.symm,
    fun offset' rest' hhead => ?_⟩
  rw [Scanner.rest_takeWhile] at hhead
  have hstop : ∀ c, rest'.head? = some c → Scanner.isBlank c = false := by
    intro c hc
    have hnot := List.head?_dropWhile_not Scanner.isBlank cs
    rw [← hhead, hc] at hnot
    simpa using hnot
  exact congrArg (fun out => Outcome.mk (.ok []) out.2)
    (Scanner.takeWhile_append (List.all_eq_true.1 List.all_takeWhile) hstop offset')

/-- The line ending that comes next is told by two characters. -/
theorem lineEnding_cons_cons (c d : Char) (r : List Char) : Scanner.lineEnding (c :: d :: r) =
    if (c = '\r' ∧ d = '\n') ∨ (c = '\n' ∧ d = '\r') then 2
    else if Scanner.isLineBreak c then 1 else 0 := by
  unfold Scanner.lineEnding
  split
  next heq => simp_all
  next heq => simp_all
  next hno heq =>
    obtain ⟨rfl, rfl⟩ := List.cons.inj heq
    have hd : d ≠ '\n' := fun hd => hno r (by rw [hd])
    simp [hd, Scanner.isLineBreak]
  next hno heq =>
    obtain ⟨rfl, rfl⟩ := List.cons.inj heq
    have hd : d ≠ '\r' := fun hd => hno r (by rw [hd])
    simp [hd, Scanner.isLineBreak]
  next => simp_all [Scanner.isLineBreak]

theorem lineEnding_singleton (c : Char) :
    Scanner.lineEnding [c] = if Scanner.isLineBreak c then 1 else 0 := by
  unfold Scanner.lineEnding
  split <;> simp_all [Scanner.isLineBreak]

theorem lineEnding_pos {c : Char} (hc : Scanner.isLineBreak c = true) (r : List Char) :
    0 < Scanner.lineEnding (c :: r) := by
  cases r with
  | nil => simp [lineEnding_singleton, hc]
  | cons d r =>
    rw [lineEnding_cons_cons, if_pos hc]
    split <;> omega

theorem lineBreak_local {c : Char} (hc : Scanner.isLineBreak c = true) (r : List Char)
    (offset : Nat) :
    Local (fun s => ⟨.ok [10], s.skip (Scanner.lineEnding s.rest)⟩) (c :: r) offset := by
  intro bytes hok
  cases hok
  have hone (r : List Char) (h : Scanner.lineEnding (c :: r) = 1) (offset : Nat) :
      (Scanner.mk offset (c :: r)).skip (Scanner.lineEnding (c :: r)) =
        ⟨offset + Text.size [c], r⟩ := by
    rw [h]
    exact Scanner.skip_append [c] offset r
  cases r with
  | nil =>
    have hend : Scanner.lineEnding [c] = 1 := by rw [lineEnding_singleton, if_pos hc]
    refine ⟨[c], by simp [hone [] hend], fun offset' rest' hhead => ?_⟩
    simp only [hone [] hend] at hhead
    cases List.head?_eq_none_iff.1 hhead
    exact congrArg (Outcome.mk _) (hone [] hend offset')
  | cons d r =>
    have hlong (h : (c = '\r' ∧ d = '\n') ∨ (c = '\n' ∧ d = '\r')) (r : List Char) (offset : Nat) :
        (Scanner.mk offset (c :: d :: r)).skip (Scanner.lineEnding (c :: d :: r)) =
          ⟨offset + Text.size [c, d], r⟩ := by
      rw [lineEnding_cons_cons, if_pos h]
      exact Scanner.skip_append [c, d] offset r
    by_cases hpair : (c = '\r' ∧ d = '\n') ∨ (c = '\n' ∧ d = '\r')
    · refine ⟨[c, d], by simp [hlong hpair], fun offset' rest' _ => ?_⟩
      exact congrArg (Outcome.mk _) (hlong hpair rest' offset')
    · have hend (r : List Char) : Scanner.lineEnding (c :: d :: r) = 1 := by
        rw [lineEnding_cons_cons, if_neg hpair, if_pos hc]
      refine ⟨[c], by simp [hone _ (hend r)], fun offset' rest' hhead => ?_⟩
      simp only [hone _ (hend r)] at hhead
      obtain ⟨r', rfl⟩ := List.head?_eq_some_iff.1 hhead
      exact congrArg (Outcome.mk _) (hone _ (hend r') offset')

/-- An escape that starts with one more character. -/
theorem Local.cons {read read' : Scanner → Outcome} {c : Char} {r : List Char} {offset : Nat}
    (hread : ∀ offset r, read ⟨offset, c :: r⟩ = read' ⟨offset + c.utf8Size, r⟩)
    (h : Local read' r (offset + c.utf8Size)) : Local read (c :: r) offset := by
  intro bytes hok
  rw [hread] at hok ⊢
  obtain ⟨text, hr, htext⟩ := h bytes hok
  refine ⟨c :: text, by rw [List.cons_append, ← hr], fun offset' rest' hhead => ?_⟩
  rw [List.cons_append, hread, htext _ rest' hhead, Text.size_cons, Nat.add_assoc]

theorem Local.congr {read read' : Scanner → Outcome} {c : Char} {r : List Char} {offset : Nat}
    (hread : ∀ offset r, read ⟨offset, c :: r⟩ = read' ⟨offset, c :: r⟩)
    (hshorter : (read' ⟨offset, c :: r⟩).after.rest.length ≤ r.length)
    (h : Local read' (c :: r) offset) : Local read (c :: r) offset := by
  intro bytes hok
  rw [hread] at hok ⊢
  obtain ⟨text, hr, htext⟩ := h bytes hok
  refine ⟨text, hr, fun offset' rest' hhead => ?_⟩
  cases text with
  | nil =>
    have hlength := congrArg List.length hr
    simp only [List.nil_append, List.length_cons] at hlength
    omega
  | cons d text =>
    obtain ⟨rfl, -⟩ := List.cons.inj hr
    rw [List.cons_append, hread, ← List.cons_append, htext offset' rest' hhead]

/-- The character behind the backslash decides which escape it is. -/
theorem read_local (cs : List Char) (offset : Nat) : Local read cs offset := by
  rcases cs with _ | ⟨c, r⟩
  · intro bytes hok
    cases hok
  cases hnamed : named? c with
  | some byte =>
    have hbyte : Local (fun s => ⟨.ok [byte], s⟩) r (offset + c.utf8Size) := by
      intro bytes hok
      cases hok
      exact ⟨[], rfl, fun offset' rest' _ => rfl⟩
    refine Local.cons (fun offset r => ?_) hbyte
    simp [read, hnamed, Scanner.skip]
  | none =>
    by_cases hbreak : Scanner.isLineBreak c = true
    · refine Local.congr (fun offset r => ?_) ?_ (lineBreak_local hbreak r offset)
      · simp [read, hnamed, hbreak]
      · have := (lineEnding_pos hbreak r)
        simp
        omega
    by_cases hz : c = 'z'
    · subst hz
      exact Local.cons (fun offset r => rfl) (blanks_local r _)
    by_cases hx : c = 'x'
    · subst hx
      exact Local.cons (fun offset r => rfl) (hexByte_local r _)
    by_cases hdigit : isDigit c = true
    · refine Local.congr (fun offset r => ?_) ?_ (decimalByte_local (c :: r) offset)
      · simp [read, hnamed, hbreak, hz, hx, hdigit]
      · simp [decimalByte, hdigit]
    by_cases hu : c = 'u'
    · subst hu
      exact Local.cons (fun offset r => rfl) (utf8Value_local r _)
    · intro bytes hok
      simp [read, hnamed, hbreak, hz, hx, hdigit, hu] at hok

end Escape

namespace QuotedString

/-- Any other character stands for itself. -/
theorem read_plain {quote c : Char} (hbreak : Scanner.isLineBreak c = false) (hquote : c ≠ quote)
    (hbackslash : c ≠ '\\') (start offset : Nat) (rest : List Char) :
    read quote start ⟨offset, c :: rest⟩ =
      { read quote start ⟨offset + c.utf8Size, rest⟩ with
        bytes := String.utf8EncodeChar c ++ (read quote start ⟨offset + c.utf8Size, rest⟩).bytes } := by
  rw [read]
  split
  next heq => cases heq
  next heq =>
    cases heq
    rw [if_neg (by simp [hbreak]), if_neg hquote, if_neg hbackslash]
    rfl

theorem escape_clean {start : Nat} {o : Escape.Outcome} {b : Body}
    (h : (b.escape start o).diagnostics = []) :
    ∃ bytes, o.meaning = .ok bytes ∧ b.diagnostics = [] := by
  unfold Body.escape at h
  split at h
  next bytes hok => exact ⟨bytes, hok, h⟩
  next => cases h

/-- A string that is read without a diagnostic ends with its quote, and what is read of it does not
depend on what follows that. -/
theorem read_severed {quote : Char} (hquote : quote = '"' ∨ quote = '\'') {start : Nat} {s : Scanner}
    (hclean : (read quote start s).diagnostics = []) :
    ∃ body, body ≠ [] ∧ s.rest = body ++ (read quote start s).after.rest ∧
      ∀ start' offset' rest', read quote start' ⟨offset', body ++ rest'⟩ =
        ⟨(read quote start s).bytes, [], ⟨offset' + Text.size body, rest'⟩⟩ := by
  fun_induction read quote start s with
  | case1 s h => cases hclean
  | case2 s c r h hbreak => cases hclean
  | case3 s r hcs hbreak =>
    refine ⟨[quote], by simp, by simp [hcs], fun start' offset' rest' => ?_⟩
    have hsize : Text.size [quote] = 1 := by rcases hquote with rfl | rfl <;> rfl
    rw [hsize]
    exact Scanner.read_quote hquote start' offset' rest'
  | case4 s r shorter hcs hbreak hne ih =>
    obtain ⟨bytes, hok, hlater⟩ := escape_clean hclean
    obtain ⟨body, hbody, hrest, hread⟩ := ih hlater
    obtain ⟨text, htext, hescape⟩ := Escape.read_local _ _ bytes hok
    have hr : r = text ++ (Escape.read (s.skip 1)).after.rest :=
      (congrArg (List.drop 1) hcs).symm.trans htext
    rw [after_escape]
    have hbytes (b : Body) : (b.escape s.offset (Escape.read (s.skip 1))).bytes = bytes ++ b.bytes := by
      simp only [Body.escape, hok]
    refine ⟨'\\' :: (text ++ body), by simp, ?_, fun start' offset' rest' => ?_⟩
    · rw [hcs, List.cons_append, List.append_assoc, ← hrest, ← hr]
    · have hhead : (body ++ rest').head? = (Escape.read (s.skip 1)).after.rest.head? := by
        obtain ⟨c, body, rfl⟩ := List.exists_cons_of_ne_nil hbody
        rw [hrest]
        rfl
      rw [List.cons_append, Scanner.read_backslash hquote, List.append_assoc,
        hescape (offset' + 1) (body ++ rest') hhead, hread, hbytes]
      simp only [Body.escape, Text.size_cons, Text.size_append, show '\\'.utf8Size = 1 from rfl]
      rw [show offset' + 1 + Text.size text + Text.size body =
        offset' + (1 + (Text.size text + Text.size body)) by omega]
  | case5 s c r hcs hbreak hne hplain later ih =>
    obtain ⟨body, hbody, hrest, hread⟩ := ih hclean
    have hr : r = body ++ later.after.rest := by
      simpa [hcs] using hrest
    refine ⟨c :: body, by simp, by rw [hcs, hr]; rfl, fun start' offset' rest' => ?_⟩
    rw [List.cons_append, read_plain (by simpa using hbreak) hne hplain, hread, Text.size_cons,
      Nat.add_assoc]

end QuotedString

namespace LongBracket

/-- No bracket closes within a body in front of its first closing bracket. -/
theorem First.not_closes {level : Nat} {c : Char} {body : List Char} (h : First level (c :: body))
    (rest : List Char) : closes level (c :: (body ++ (closing level ++ rest))) = false := by
  have hlength : level + 2 ≤ (c :: body ++ closing level).length := by
    rw [List.length_append, length_closing]
    omega
  rw [← (first_cons.1 h).1, ← closes_append hlength rest]
  simp

/-- The bytes of a body: every line ending becomes a line feed. -/
def bytesOf : List Char → List UInt8
  | [] => []
  | '\r' :: '\n' :: r => 10 :: bytesOf r
  | '\n' :: '\r' :: r => 10 :: bytesOf r
  | '\r' :: r => 10 :: bytesOf r
  | '\n' :: r => 10 :: bytesOf r
  | c :: r => String.utf8EncodeChar c ++ bytesOf r

/-- What follows a body does not continue a line ending in it. -/
theorem not_lineBreak_behind {level : Nat} {body rest : List Char} {c : Char}
    (hc : Scanner.isLineBreak c = true) (hbody : ∀ r, body ≠ c :: r) (r : List Char) :
    body ++ (closing level ++ rest) ≠ c :: r := by
  intro h
  cases body with
  | nil =>
    obtain ⟨rfl, -⟩ := List.cons.inj h
    cases hc
  | cons d body =>
    obtain ⟨rfl, -⟩ := List.cons.inj h
    exact hbody body rfl

theorem bytes_readFrom {level : Nat} {body : List Char} (hfirst : First level body) (offset : Nat)
    (rest : List Char) :
    (readFrom level offset (body ++ (closing level ++ rest))).bytes = bytesOf body := by
  fun_induction bytesOf body generalizing offset with
  | case1 =>
    have hcloses : closes level (closing level ++ rest) = true := closes_iff.2 ⟨rest, rfl⟩
    rw [List.nil_append]
    unfold closing at hcloses ⊢
    rw [List.cons_append] at hcloses ⊢
    rw [readFrom, if_pos hcloses] <;> simp
  | case2 r ih =>
    have hnot : ¬closes level ('\r' :: '\n' :: (r ++ (closing level ++ rest))) = true := by
      simp [closes_cons_of_ne]
    rw [List.cons_append, List.cons_append, readFrom, if_neg hnot]
    exact congrArg _ (ih (first_cons.1 (first_cons.1 hfirst).2).2 _)
  | case3 r ih =>
    have hnot : ¬closes level ('\n' :: '\r' :: (r ++ (closing level ++ rest))) = true := by
      simp [closes_cons_of_ne]
    rw [List.cons_append, List.cons_append, readFrom, if_neg hnot]
    exact congrArg _ (ih (first_cons.1 (first_cons.1 hfirst).2).2 _)
  | case4 r hno ih =>
    rw [List.cons_append, readFrom, if_neg (by simp [hfirst.not_closes])]
    · exact congrArg _ (ih (first_cons.1 hfirst).2 _)
    · intro r' hr'
      exact not_lineBreak_behind (by decide) (fun r h => hno r h) r' hr'
  | case5 r hno ih =>
    rw [List.cons_append, readFrom, if_neg (by simp [hfirst.not_closes])]
    · exact congrArg _ (ih (first_cons.1 hfirst).2 _)
    · intro r' hr'
      exact not_lineBreak_behind (by decide) (fun r h => hno r h) r' hr'
  | case6 c r _ _ hcarriage hfeed ih =>
    rw [List.cons_append, readFrom, if_neg (by simp [hfirst.not_closes])]
    · exact congrArg _ (ih (first_cons.1 hfirst).2 _)
    · exact hcarriage
    · exact hfeed
    · exact fun r' hc _ => hcarriage hc
    · exact fun r' hc _ => hfeed hc

/-- A body loses the line ending it starts with. -/
theorem lineEnding_body {level : Nat} (body rest : List Char) :
    Scanner.lineEnding (body ++ (closing level ++ rest)) = Scanner.lineEnding body := by
  rcases body with _ | ⟨c, _ | ⟨d, body⟩⟩
  · rfl
  · rw [List.singleton_append, closing, List.cons_append, Escape.lineEnding_cons_cons,
      Escape.lineEnding_singleton, if_neg (by simp)]
  · rw [List.cons_append, List.cons_append, Escape.lineEnding_cons_cons,
      Escape.lineEnding_cons_cons]

theorem First.drop {level : Nat} {body : List Char} (h : First level body) (n : Nat) :
    First level (body.drop n) := by
  induction n generalizing body with
  | zero => exact h
  | succ n ih =>
    cases body with
    | nil => exact h
    | cons c body => exact ih (first_cons.1 h).2

theorem bytes_read {level : Nat} {body : List Char} (h : First level body) (offset : Nat)
    (rest : List Char) :
    (read level ⟨offset, body ++ (closing level ++ rest)⟩).bytes =
      bytesOf (body.drop (Scanner.lineEnding body)) := by
  have hle : Scanner.lineEnding body ≤ body.length := by
    unfold Scanner.lineEnding
    split <;> simp
  simp only [read, lineEnding_body, Scanner.rest_skip]
  rw [List.drop_append_of_le_length hle, bytes_readFrom (h.drop _)]

end LongBracket

namespace Scanner

variable {rest rest' : List Char}

theorem quotedString_severed {quote : Char} (hquote : quote = '"' ∨ quote = '\'') {w : List Char}
    {offset : Nat} (hclean : (quotedString ⟨offset, quote :: (w ++ rest)⟩ quote).1.diagnostics = [])
    (hrest : (quotedString ⟨offset, quote :: (w ++ rest)⟩ quote).2.rest = rest) (offset' : Nat)
    (rest' : List Char) :
    quotedString ⟨offset', quote :: (w ++ rest')⟩ quote =
      lexeme ⟨offset' + Text.size (quote :: w), rest'⟩ offset'
        (quotedString ⟨offset, quote :: (w ++ rest)⟩ quote).1.token.kind
        (quotedString ⟨offset, quote :: (w ++ rest)⟩ quote).1.token.value [] := by
  have hskip (offset : Nat) (r : List Char) :
      (Scanner.mk offset (quote :: r)).skip 1 = ⟨offset + quote.utf8Size, r⟩ := rfl
  simp only [quotedString, hskip, lexeme_snd] at hrest
  simp only [quotedString, hskip, lexeme] at hclean ⊢
  obtain ⟨body, -, hbody, hread⟩ := QuotedString.read_severed hquote hclean
  rw [hrest] at hbody
  cases List.append_cancel_right hbody
  rw [hread, Text.size_cons, Nat.add_assoc]

/-- A string between long brackets is read up to the first closing one. -/
theorem longString_brackets {level : Nat} {body : List Char} (h : LongBracket.First level body)
    (offset : Nat) (rest : List Char) :
    longString ⟨offset,
        LongBracket.opening level ++ (body ++ (LongBracket.closing level ++ rest))⟩ =
      lexeme ⟨offset + Text.size (LongBracket.opening level ++ (body ++ LongBracket.closing level)),
          rest⟩ offset .string
        (.string (LongBracket.bytesOf (body.drop (lineEnding body)))) [] := by
  have hsize : Text.size (LongBracket.opening level ++ (body ++ LongBracket.closing level)) =
      level + 2 + (Text.size body + (level + 2)) := by
    simp only [Text.size_append, LongBracket.size_opening, LongBracket.size_closing]
  obtain ⟨hclosed, hafter⟩ := LongBracket.read_closing h (offset + (level + 2)) rest
  simp only [longString, LongBracket.level?_opening, skip_opening, hclosed, hafter, if_true,
    LongBracket.bytes_read h, hsize]
  rw [show offset + (level + 2) + Text.size body + (level + 2) =
    offset + (level + 2 + (Text.size body + (level + 2))) by omega]

/-- A long string without a diagnostic stands between long brackets. -/
theorem longString_cases {s : Scanner} (hclean : s.longString.1.diagnostics = []) :
    ∃ level body, s.rest =
        LongBracket.opening level ++ (body ++ (LongBracket.closing level ++ s.longString.2.rest)) ∧
      LongBracket.First level body := by
  obtain ⟨offset, cs⟩ := s
  unfold longString at hclean ⊢
  split at hclean
  next level hlevel =>
    obtain ⟨r, rfl⟩ := LongBracket.level?_eq_some.1 hlevel
    have hends := LongBracket.read_ends level
      ((Scanner.mk offset (LongBracket.opening level ++ r)).skip (level + 2))
    have hrest : ((Scanner.mk offset (LongBracket.opening level ++ r)).skip (level + 2)).rest = r := by
      rw [rest_skip, ← LongBracket.length_opening level, List.drop_left]
    rw [hrest] at hends
    rcases hends with ⟨-, body, hbody, hfirst⟩ | ⟨hopen, -⟩
    · exact ⟨level, body, congrArg (LongBracket.opening level ++ ·) hbody, hfirst⟩
    · simp [lexeme, hopen] at hclean
  next => cases hclean

theorem longString_severed (word : List Char) {offset : Nat}
    (hclean : (longString ⟨offset, word ++ rest⟩).1.diagnostics = [])
    (hrest : (longString ⟨offset, word ++ rest⟩).2.rest = rest) :
    (∃ d w, word = '[' :: d :: w ∧ (d = '[' ∨ d = '=')) ∧ ∀ offset' rest',
      longString ⟨offset', word ++ rest'⟩ = lexeme ⟨offset' + Text.size word, rest'⟩ offset'
        (longString ⟨offset, word ++ rest⟩).1.token.kind
        (longString ⟨offset, word ++ rest⟩).1.token.value [] := by
  obtain ⟨level, body, hcs, hfirst⟩ := longString_cases hclean
  rw [hrest] at hcs
  obtain rfl : word = LongBracket.opening level ++ (body ++ LongBracket.closing level) := by
    refine List.append_cancel_right (hcs.trans ?_)
    simp
  refine ⟨?_, fun offset' rest' => ?_⟩
  · cases level with
    | zero => exact ⟨'[', _, rfl, .inl rfl⟩
    | succ level => exact ⟨'=', _, rfl, .inr rfl⟩
  · simp only [List.append_assoc, longString_brackets hfirst]
    rfl

/-! ## Signs -/

/-- Whether a character right behind a sign makes something else of it. -/
def goesOn : Sign → Char → Bool
  | .minus, c => c == '-'
  | .slash, c => c == '/'
  | .tilde, c => c == '='
  | .less, c => c == '<' || c == '='
  | .greater, c => c == '>' || c == '='
  | .equals, c => c == '='
  | .colon, c => c == ':'
  | .dot, c => c == '.' || Numeral.isDigit c
  | .dotDot, c => c == '.'
  | .openBracket, c => c == '[' || c == '='
  | _, _ => false

theorem not_goesOn_of_isBlank (σ : Sign) (c : Char) (hc : isBlank c = true) : goesOn σ c = false := by
  have hmarks {x y : Char} (hx : isBlank x = false) (hy : isBlank y = false) :
      (c == x || c == y) = false := marks_of_class hc hx hy
  have hmark {x : Char} (hx : isBlank x = false) : (c == x) = false := by simp [ne_of_class hc hx]
  cases σ <;> first
    | rfl
    | exact hmark (by decide)
    | exact hmarks (by decide) (by decide)
    | simp [goesOn, hmark, not_isDigit_of_isBlank hc, show isBlank '.' = false by decide]

/-- A sign that nothing makes something else of is no comment, no numeral and no string. -/
theorem sign_of_not_goesOn (σ : Sign) {d : Char} {r rest : List Char}
    (h : σ.spelling.toList ++ rest = d :: r)
    (hrest : ∀ c, rest.head? = some c → goesOn σ c = false) :
    Sign.ofChars? (d :: r) = some σ ∧ isBlank d = false ∧ (∀ r', d :: r ≠ '-' :: '-' :: r') ∧
      ∀ s : Scanner, s.token d r = s.sign d := by
  have htoken (hname : isNameStart d = false) (hnumeral : startsNumeral d r = false)
      (hquote : ¬(d = '"' ∨ d = '\'')) (hlong : startsLongString d r = false) (s : Scanner) :
      s.token d r = s.sign d := by
    simp [token, hname, hnumeral, hquote, hlong]
  cases rest with
  | nil =>
    cases σ <;> simp [Sign.spelling] at h <;> obtain ⟨rfl, rfl⟩ := h <;>
      exact ⟨rfl, by decide, by simp, htoken (by decide) (by decide) (by decide) (by decide)⟩
  | cons c rest =>
    have hc := hrest c rfl
    cases σ <;> simp [Sign.spelling] at h <;> obtain ⟨rfl, rfl⟩ := h <;> simp [goesOn] at hc <;>
      refine ⟨by simp [Sign.ofChars?, hc], by decide, by simp [hc],
        htoken (by decide) ?_ (by decide) ?_⟩ <;>
      simp [startsNumeral, startsLongString, Numeral.isDigit] <;> simp_all [Numeral.isDigit]

/-- Where a sign is read, no character behind it makes something else of it. -/
theorem not_goesOn_of_sign (σ : Sign) {d : Char} {r rest : List Char}
    (h : σ.spelling.toList ++ rest = d :: r) (hcomment : ∀ r', d :: r ≠ '-' :: '-' :: r')
    (hnumeral : startsNumeral d r = false) (hlong : startsLongString d r = false)
    (hsign : Sign.ofChars? (d :: r) = some σ) : ∀ c, rest.head? = some c → goesOn σ c = false := by
  intro c hc
  obtain ⟨rest, rfl⟩ := List.head?_eq_some_iff.1 hc
  have hlongest (τ : Sign) (hτ : τ.spelling.toList = σ.spelling.toList ++ [c]) : False := by
    have hle : τ.spelling.length ≤ σ.spelling.length := by
      refine Sign.length_spelling_le hsign ⟨rest, ?_⟩
      rw [hτ, ← h, List.append_assoc]
      rfl
    have hlength := congrArg List.length hτ
    simp only [String.length_toList, List.length_append, List.length_singleton] at hlength
    omega
  cases hgoes : goesOn σ c with
  | false => rfl
  | true =>
    exfalso
    cases σ <;> simp only [goesOn, Bool.or_eq_true, beq_iff_eq, Bool.false_eq_true] at hgoes
    case minus =>
      subst hgoes
      exact hcomment rest h.symm
    case slash => exact hlongest .slashSlash (by rw [hgoes]; rfl)
    case tilde => exact hlongest .tildeEquals (by rw [hgoes]; rfl)
    case less =>
      rcases hgoes with rfl | rfl
      · exact hlongest .lessLess rfl
      · exact hlongest .lessEquals rfl
    case greater =>
      rcases hgoes with rfl | rfl
      · exact hlongest .greaterGreater rfl
      · exact hlongest .greaterEquals rfl
    case equals => exact hlongest .equalsEquals (by rw [hgoes]; rfl)
    case colon => exact hlongest .colonColon (by rw [hgoes]; rfl)
    case dot =>
      rcases hgoes with rfl | hdigit
      · exact hlongest .dotDot rfl
      · obtain ⟨rfl, rfl⟩ : '.' = d ∧ c :: rest = r := List.cons.inj h
        simp [startsNumeral, hdigit] at hnumeral
    case dotDot => exact hlongest .dotDotDot (by rw [hgoes]; rfl)
    case openBracket =>
      obtain ⟨rfl, rfl⟩ : '[' = d ∧ c :: rest = r := List.cons.inj h
      rcases hgoes with rfl | rfl <;> simp [startsLongString] at hlong

/-- A sign that nothing makes something else of is read. -/
theorem lex_of_not_goesOn (σ : Sign) {rest : List Char}
    (hrest : ∀ c, rest.head? = some c → goesOn σ c = false) (offset : Nat) :
    lex ⟨offset, σ.spelling.toList ++ rest⟩ =
      lexeme ⟨offset + Text.size σ.spelling.toList, rest⟩ offset (.sign σ) .none [] := by
  obtain ⟨d, r, h⟩ : ∃ d r, σ.spelling.toList ++ rest = d :: r := by
    refine List.exists_cons_of_ne_nil fun hnil => ?_
    have hpos := σ.length_spelling_pos
    rw [← String.length_toList, (List.append_eq_nil_iff.1 hnil).1] at hpos
    cases hpos
  have hskip := skip_append σ.spelling.toList offset rest
  obtain ⟨hsign, hblank, hcomment, htoken⟩ := sign_of_not_goesOn σ h hrest
  rw [String.length_toList, h] at hskip
  rw [h, lex_of_start hblank hcomment, htoken, sign]
  simp only [hsign, hskip]

/-- A sign is read again in front of what may take the place of what follows it. -/
theorem sign_severed (h : Severs rest rest') {d : Char} {w : List Char} {offset : Nat}
    (hcomment : ∀ r', d :: (w ++ rest) ≠ '-' :: '-' :: r')
    (hnumeral : startsNumeral d (w ++ rest) = false)
    (hlong : startsLongString d (w ++ rest) = false)
    (hclean : (sign ⟨offset, d :: (w ++ rest)⟩ d).1.diagnostics = [])
    (hrest : (sign ⟨offset, d :: (w ++ rest)⟩ d).2.rest = rest) (offset' : Nat) :
    lex ⟨offset', d :: (w ++ rest')⟩ = lexeme ⟨offset' + Text.size (d :: w), rest'⟩ offset'
      (sign ⟨offset, d :: (w ++ rest)⟩ d).1.token.kind
      (sign ⟨offset, d :: (w ++ rest)⟩ d).1.token.value [] := by
  unfold sign at hclean hrest ⊢
  split at hclean
  next σ hσ =>
    obtain ⟨r, hr⟩ := Sign.spelling_prefix hσ
    simp only [hσ, lexeme_snd, rest_skip] at hrest hr ⊢
    have hsame : r = rest := by
      rw [← hrest, ← hr, ← String.length_toList, List.drop_left]
    subst hsame
    have hword : d :: w = σ.spelling.toList :=
      (List.append_cancel_right (hr.trans (List.cons_append ..).symm)).symm
    have hgoes := not_goesOn_of_sign σ hr hcomment hnumeral hlong hσ
    have hlex := lex_of_not_goesOn σ (h.head (not_goesOn_of_isBlank σ) hgoes) offset'
    rw [← hword] at hlex
    exact hlex
  next => cases hclean

/-! ## Tokens -/

/-- Behind blanks and comments there are none. -/
theorem skipBlanks_skipBlanks (s : Scanner) : s.skipBlanks.2.skipBlanks = ([], s.skipBlanks.2) := by
  fun_induction skipBlanks s with
  | case1 s _ h shorter later ih => exact ih
  | case2 s c r h _ _ ih => exact ih
  | case3 s c r hno hcs hblank =>
    obtain ⟨offset, cs⟩ := s
    cases hcs
    refine skipBlanks_of_start (by simpa using hblank) (fun r' hr' => ?_) offset
    obtain ⟨hc, hr⟩ := List.cons.inj hr'
    exact hno r' hc hr
  | case4 s h => exact skipBlanks_of_nil h

/-- What starts with a quote is a string. -/
theorem token_of_quote {d : Char} (h : d = '"' ∨ d = '\'') (s : Scanner) (r : List Char) :
    s.token d r = s.quotedString d := by
  have hname : ¬isNameStart d = true := by rcases h with rfl | rfl <;> decide
  have hnot : ¬startsNumeral d r = true := by
    rcases h with rfl | rfl <;> simp [startsNumeral, Numeral.isDigit]
  rw [token, if_neg hname, if_neg hnot, if_pos h]

theorem token_of_bracket {d : Char} {r : List Char} (h : startsLongString d r = true) (s : Scanner) :
    s.token d r = s.longString := by
  obtain rfl : d = '[' := by
    simp only [startsLongString, Bool.and_eq_true, beq_iff_eq] at h
    exact h.1
  have hnot : ¬startsNumeral '[' r = true := by simp [startsNumeral, Numeral.isDigit]
  rw [token, if_neg (by decide), if_neg hnot, if_neg (by decide), if_pos h]

/-- A token is read again, wherever it stands, in front of what may take the place of what follows
it. -/
theorem token_severed (h : Severs rest rest') {d : Char} {w : List Char} {offset : Nat}
    (hblank : isBlank d = false) (hcomment : ∀ r', d :: (w ++ rest) ≠ '-' :: '-' :: r')
    (hclean : (token ⟨offset, d :: (w ++ rest)⟩ d (w ++ rest)).1.diagnostics = [])
    (hrest : (token ⟨offset, d :: (w ++ rest)⟩ d (w ++ rest)).2.rest = rest) (offset' : Nat) :
    lex ⟨offset', d :: (w ++ rest')⟩ = lexeme ⟨offset' + Text.size (d :: w), rest'⟩ offset'
      (token ⟨offset, d :: (w ++ rest)⟩ d (w ++ rest)).1.token.kind
      (token ⟨offset, d :: (w ++ rest)⟩ d (w ++ rest)).1.token.value [] := by
  -- A hyphen is a sign; nothing else can start a comment.
  have hlex (hd : d ≠ '-') :
      lex ⟨offset', d :: (w ++ rest')⟩ = token ⟨offset', d :: (w ++ rest')⟩ d (w ++ rest') :=
    lex_of_start hblank (fun r' hr' => hd (List.cons.inj hr').1) offset'
  by_cases hname : isNameStart d = true
  · have htoken (s : Scanner) (r : List Char) : s.token d r = s.word := by
      rw [token, if_pos hname]
    rw [htoken] at hrest
    rw [hlex (ne_of_class hname (by decide)), htoken, htoken]
    exact word_severed h (d :: w) hrest offset'
  by_cases hnumeral : startsNumeral d (w ++ rest) = true
  · have htoken (s : Scanner) {r : List Char} (hr : startsNumeral d r = true) :
        s.token d r = s.numeral := by
      rw [token, if_neg hname, if_pos hr]
    rw [htoken _ hnumeral] at hrest hclean
    have hstarts : startsNumeral d (w ++ rest') = true := by
      cases w with
      | cons e w => exact hnumeral
      | nil =>
        obtain ⟨-, -, -, -, hends, -⟩ := numeral_cases hclean
        rw [hrest] at hends
        have hdigit : Numeral.isDigit d = true := by
          simp only [startsNumeral, Bool.or_eq_true, Bool.and_eq_true, Option.any_eq_true] at hnumeral
          rcases hnumeral with hdigit | ⟨-, c, hc, hdigit⟩
          · exact hdigit
          · have hnot : Numeral.isDigit c = false := (Bool.or_eq_false_iff.1 (hends c hc)).2
            cases hdigit.symm.trans hnot
        simp [startsNumeral, hdigit]
    have hd : d ≠ '-' := by
      rintro rfl
      simp [startsNumeral, show Numeral.isDigit '-' = false by decide] at hnumeral
    rw [hlex hd, htoken _ hstarts, htoken _ hnumeral]
    exact numeral_severed h (List.cons_ne_nil d w) hclean hrest offset'
  by_cases hquote : d = '"' ∨ d = '\''
  · have hd : d ≠ '-' := by rcases hquote with rfl | rfl <;> decide
    rw [token_of_quote hquote] at hrest hclean
    rw [hlex hd, token_of_quote hquote, token_of_quote hquote]
    exact quotedString_severed hquote hclean hrest offset' rest'
  by_cases hlong : startsLongString d (w ++ rest) = true
  · rw [token_of_bracket hlong] at hrest hclean
    obtain ⟨⟨e, w, hword, he⟩, hread⟩ := longString_severed (d :: w) hclean hrest
    obtain ⟨rfl, rfl⟩ := List.cons.inj hword
    have hstarts : startsLongString '[' (e :: w ++ rest') = true := by
      simpa [startsLongString] using he
    rw [hlex (by decide), token_of_bracket hstarts, token_of_bracket hlong]
    exact hread offset' rest'
  · have htoken : token ⟨offset, d :: (w ++ rest)⟩ d (w ++ rest) =
        sign ⟨offset, d :: (w ++ rest)⟩ d := by
      rw [token, if_neg hname, if_neg hnumeral, if_neg hquote, if_neg hlong]
    rw [htoken] at hrest hclean ⊢
    exact sign_severed h hcomment (by simpa using hnumeral) (by simpa using hlong) hclean hrest offset'

/-- Where nothing is passed over, neither a blank nor a comment starts. -/
theorem start_of_skipBlanks {offset : Nat} {c : Char} {r : List Char}
    (h : (skipBlanks ⟨offset, c :: r⟩).2 = ⟨offset, c :: r⟩) :
    isBlank c = false ∧ ∀ r', c :: r ≠ '-' :: '-' :: r' := by
  constructor
  · cases hblank : isBlank c with
    | false => rfl
    | true =>
      have hle := length_skipBlanks_le ⟨offset + c.utf8Size, r⟩
      rw [← skipBlanks_space hblank, h] at hle
      exact absurd hle (by simp)
  · intro r' hr'
    have hle := length_skipBlanks_le (comment ⟨offset, c :: r⟩).2
    have hlt := length_comment_lt ⟨offset, c :: r⟩ (List.cons_ne_nil c r)
    rw [skipBlanks_of_comment hr'] at h
    simp only at h
    rw [h] at hle
    exact absurd hlt (by omega)

end Scanner

/-- The same token further on. -/
def Token.shift (n : Nat) (t : Token) : Token :=
  { t with span := ⟨t.span.start + n, t.span.stop + n⟩ }

theorem Token.map_shift_shift (ts : List Token) (m n : Nat) :
    (ts.map (shift m)).map (shift n) = ts.map (shift (m + n)) := by
  simp [shift, Nat.add_assoc]

/-- Tokens in order are in order further on. -/
theorem Token.Ordered.shift {m : Nat} {ts : List Token} (h : Token.Ordered m ts) (n : Nat) :
    Token.Ordered (m + n) (ts.map (Token.shift n)) := by
  induction h with
  | last hk hle hempty =>
    exact .last hk (Nat.add_le_add_right hle n) (congrArg (· + n) hempty)
  | cons hk hle hlt _ ih =>
    exact .cons hk (Nat.add_le_add_right hle n) (Nat.add_lt_add_right hlt n) ih

namespace Scanner

theorem token_shifted {offset : Nat} {d : Char} {r : List Char} (hblank : isBlank d = false)
    (hcomment : ∀ r', d :: r ≠ '-' :: '-' :: r')
    (hclean : (token ⟨offset, d :: r⟩ d r).1.diagnostics = []) :
    ∃ w t, r = w ++ (token ⟨offset, d :: r⟩ d r).2.rest ∧ t.span = ⟨0, Text.size (d :: w)⟩ ∧
      (token ⟨offset, d :: r⟩ d r).2.offset = offset + Text.size (d :: w) ∧
      (token ⟨offset, d :: r⟩ d r).1.token = Token.shift offset t ∧
      ∀ n rest, Severs (token ⟨offset, d :: r⟩ d r).2.rest rest →
        lex ⟨n, d :: (w ++ rest)⟩ = (⟨t.shift n, []⟩, ⟨n + Text.size (d :: w), rest⟩) := by
  have hgiven := gives_token ⟨offset, d :: r⟩ d r
  have hshorter : (token ⟨offset, d :: r⟩ d r).2.rest.length < r.length + 1 := length_token_lt rfl
  obtain ⟨word, hword, hafter⟩ := hgiven.reaches
  generalize hrest : (token ⟨offset, d :: r⟩ d r).2.rest = rest₀ at hword hshorter
  obtain ⟨w, rfl, rfl⟩ : ∃ w, word = d :: w ∧ r = w ++ rest₀ := by
    cases word with
    | nil =>
      rw [← show d :: r = rest₀ from hword] at hshorter
      exact absurd hshorter (Nat.lt_irrefl _)
    | cons e w =>
      obtain ⟨rfl, rfl⟩ := List.cons.inj hword
      exact ⟨w, rfl, rfl⟩
  have hspan := hgiven.span
  have hpresent := hgiven.present
  have hread (n : Nat) (rest : List Char) (h : Severs rest₀ rest) :=
    token_severed h hblank hcomment hclean hrest n
  generalize token ⟨offset, d :: (w ++ rest₀)⟩ d (w ++ rest₀) = out at hafter hspan hpresent hread
  obtain ⟨⟨⟨kind, span, value, missing⟩, ds⟩, after⟩ := out
  simp only at hafter hspan hpresent
  subst hpresent
  rw [hspan, hafter]
  refine ⟨w, ⟨kind, ⟨0, Text.size (d :: w)⟩, value, false⟩, rfl, rfl, rfl, ?_, fun n rest h => ?_⟩
  · rw [Token.shift, Nat.zero_add, Nat.add_comm offset]
  · rw [hread n rest h, lexeme, spanFrom, Token.shift, Nat.zero_add, Nat.add_comm n]

/-- A token that is read without a diagnostic is read again, wherever its characters stand. -/
theorem lex_severed {s : Scanner} (hkind : s.lex.1.token.kind ≠ .endOfFile)
    (hclean : s.lex.1.diagnostics = []) :
    ∃ bs word t, s.rest = Blank.texts bs ++ (word ++ s.lex.2.rest) ∧
      t.span = ⟨0, Text.size word⟩ ∧
      s.lex.2.offset = s.offset + Text.size (Blank.texts bs) + Text.size word ∧
      s.lex.1.token = Token.shift (s.offset + Text.size (Blank.texts bs)) t ∧
      ∀ n rest, Severs s.lex.2.rest rest →
        lex ⟨n, word ++ rest⟩ = (⟨t.shift n, []⟩, ⟨n + Text.size word, rest⟩) := by
  obtain ⟨gap, hgap, hoffset⟩ := reaches_skipBlanks s
  have hstart := skipBlanks_skipBlanks s
  have hblanks := skipBlanks_cases s
  generalize hplace : s.skipBlanks.2 = place at hgap hoffset hstart hblanks
  obtain ⟨offset, cs⟩ := place
  cases cs with
  | nil =>
    rw [lex_of_nil (by rw [hplace])] at hkind
    exact absurd rfl hkind
  | cons d r =>
    have hrest : s.skipBlanks.2.rest = d :: r := by rw [hplace]
    obtain ⟨bs, hbs⟩ : ∃ bs, s.rest = Blank.texts bs ++ d :: r := by
      rcases hblanks with hbs | ⟨hnil, -⟩
      · exact hbs
      · cases hnil
    obtain rfl : gap = Blank.texts bs := List.append_cancel_right (hgap.symm.trans hbs)
    obtain rfl : offset = s.offset + Text.size (Blank.texts bs) := hoffset
    obtain ⟨hblank, hcomment⟩ := start_of_skipBlanks (congrArg Prod.snd hstart)
    rw [lex_of_cons hrest, hplace] at hclean ⊢
    obtain ⟨w, t, hw, hspan, hafter, htoken, hread⟩ :=
      token_shifted hblank hcomment (List.append_eq_nil_iff.1 hclean).2
    refine ⟨bs, d :: w, t, ?_, hspan, hafter, htoken, hread⟩
    rw [hbs, List.cons_append, ← hw]

/-! ## Stretches of tokens -/

/-- From `s` to `s'` the tokens `ts` are read, without a diagnostic. -/
inductive Lexes : Scanner → List Token → Scanner → Prop where
  | nil (s : Scanner) : Lexes s [] s
  | cons {s s' : Scanner} {t : Token} {ts : List Token} : t.kind ≠ .endOfFile →
      s.lex.1 = ⟨t, []⟩ → Lexes s.lex.2 ts s' → Lexes s (t :: ts) s'

namespace Lexes

variable {s s' : Scanner} {ts : List Token}

theorem lexemes (h : Lexes s ts s') : s.lexemes = ts.map (⟨·, []⟩) ++ s'.lexemes := by
  induction h with
  | nil s => rfl
  | cons hkind hlex _ ih =>
    rw [Scanner.lexemes.eq_def]
    simp only [hlex, hkind, dite_false, ih]
    rfl

/-- Whatever precedes some token of a text is read up to there. -/
theorem of_lexemes {s : Scanner} {ts us : List Token} (hus : us ≠ [])
    (h : s.lexemes = (ts ++ us).map (⟨·, []⟩)) :
    ∃ s', Lexes s ts s' ∧ s'.lexemes = us.map (⟨·, []⟩) := by
  induction ts generalizing s with
  | nil => exact ⟨s, .nil s, h⟩
  | cons t ts ih =>
    rw [Scanner.lexemes.eq_def] at h
    simp only [List.cons_append, List.map_cons] at h
    split at h
    next hkind =>
      have hnil := (List.cons.inj h).2
      rw [eq_comm, List.map_eq_nil_iff] at hnil
      exact absurd (List.append_eq_nil_iff.1 hnil).2 hus
    next hkind =>
      obtain ⟨hlex, hrest⟩ := List.cons.inj h
      obtain ⟨s', hs', hls⟩ := ih hrest
      rw [hlex] at hkind
      exact ⟨s', .cons hkind hlex hs', hls⟩

/-- Blanks in front of tokens are passed over. -/
theorem blanks {n : Nat} {bs : List Blank} {cs : List Char} {t : Token}
    (h : Lexes ⟨n + Text.size (Blank.texts bs), cs⟩ (t :: ts) s') :
    Lexes ⟨n, Blank.texts bs ++ cs⟩ (t :: ts) s' := by
  have hlex : lex ⟨n, Blank.texts bs ++ cs⟩ = lex ⟨n + Text.size (Blank.texts bs), cs⟩ := by
    simp only [lex, skipBlanks_texts]
  cases h with
  | cons hkind htoken hrest =>
    rw [← hlex] at htoken hrest
    exact .cons hkind htoken hrest

theorem reaches (h : Lexes s ts s') : Reaches s s' := by
  induction h with
  | nil s => exact .refl s
  | cons hkind hlex _ ih =>
    obtain ⟨bs, word, -, hs, -, hoffset, -⟩ :=
      lex_severed (by rw [hlex]; exact hkind) (by rw [hlex])
    refine Reaches.trans ⟨Blank.texts bs ++ word, by rw [List.append_assoc, ← hs], ?_⟩ ih
    rw [hoffset, Text.size_append, Nat.add_assoc]

/-- Tokens that are read without a diagnostic are read again, wherever their text stands and
whatever may take the place of what follows it. -/
theorem severed (h : Lexes s ts s') (hne : ts ≠ []) :
    ∃ (bs : List Blank) (word : List Char) (ts₀ : List Token),
      s.rest = Blank.texts bs ++ (word ++ s'.rest) ∧
      s'.offset = s.offset + Text.size (Blank.texts bs) + Text.size word ∧
      ts₀.head?.map (·.span.start) = some 0 ∧
      ts₀.getLast?.map (·.span.stop) = some (Text.size word) ∧
      ts = ts₀.map (Token.shift (s.offset + Text.size (Blank.texts bs))) ∧
      ∀ n rest, Severs s'.rest rest →
        Lexes ⟨n, word ++ rest⟩ (ts₀.map (Token.shift n)) ⟨n + Text.size word, rest⟩ := by
  induction h with
  | nil s => exact absurd rfl hne
  | @cons s s' t ts hkind hlex hrest ih =>
    obtain ⟨bs, word, t₀, hs, hspan, hoffset, ht, hread⟩ :=
      lex_severed (by rw [hlex]; exact hkind) (by rw [hlex])
    rw [hlex] at ht
    simp only at ht
    have hkind₀ (n : Nat) : (t₀.shift n).kind ≠ .endOfFile := by
      rw [ht] at hkind
      exact hkind
    have hone (n : Nat) {rest : List Char} (h : Severs s.lex.2.rest rest) {ts₁ : List Token}
        {s₁ : Scanner} (hmore : Lexes ⟨n + Text.size word, rest⟩ ts₁ s₁) :
        Lexes ⟨n, word ++ rest⟩ (t₀.shift n :: ts₁) s₁ := by
      have hlex := hread n rest h
      refine .cons (hkind₀ n) (congrArg Prod.fst hlex) ?_
      rw [hlex]
      exact hmore
    cases ts with
    | nil =>
      cases hrest
      refine ⟨bs, word, [t₀], hs, hoffset, by simp [hspan], by simp [hspan], by rw [ht]; rfl,
        fun n rest h => hone n h (.nil _)⟩
    | cons u ts =>
      obtain ⟨bs', word', ts₀, hs', hoffset', -, hlast, hts, hread'⟩ := ih (by simp)
      obtain ⟨t₁, ts₁, rfl⟩ : ∃ t₁ ts₁, ts₀ = t₁ :: ts₁ :=
        List.exists_cons_of_ne_nil (by rintro rfl; cases hts)
      refine ⟨bs, word ++ (Blank.texts bs' ++ word'),
        t₀ :: (t₁ :: ts₁).map (Token.shift (Text.size word + Text.size (Blank.texts bs'))), ?_, ?_,
        by simp [hspan], ?_, ?_, fun n rest h => ?_⟩
      · rw [hs, hs']
        simp
      · rw [hoffset', hoffset]
        simp only [Text.size_append]
        omega
      · have hstop : (t₀ :: (t₁ :: ts₁).map (Token.shift
            (Text.size word + Text.size (Blank.texts bs')))).getLast?.map (·.span.stop) =
            ((t₁ :: ts₁).getLast?.map (·.span.stop)).map
              (· + (Text.size word + Text.size (Blank.texts bs'))) := by
          rw [List.getLast?_cons_of_ne_nil (by simp), List.getLast?_map, Option.map_map,
            Option.map_map]
          rfl
        rw [hstop, hlast, Option.map_some, Text.size_append, Text.size_append]
        congr 1
        omega
      · rw [List.map_cons, Token.map_shift_shift, hts, ht, hoffset]
        congr 3
        omega
      · have hmore := hread' (n + Text.size word + Text.size (Blank.texts bs')) rest h
        have hsevers : Severs s.lex.2.rest (Blank.texts bs' ++ (word' ++ rest)) := by
          rw [hs']
          exact (h.append word').append (Blank.texts bs')
        have hall := hone n hsevers hmore.blanks
        rw [List.map_cons, Token.map_shift_shift, List.append_assoc, List.append_assoc]
        simp only [Text.size_append]
        rw [show n + Text.size word + Text.size (Blank.texts bs') =
          Text.size word + Text.size (Blank.texts bs') + n by omega] at hall
        rwa [show n + (Text.size word + (Text.size (Blank.texts bs') + Text.size word')) =
          Text.size word + Text.size (Blank.texts bs') + n + Text.size word' by omega]

end Lexes
end Scanner

end LuaFront
