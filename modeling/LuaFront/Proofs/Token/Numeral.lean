import LuaFront.Proofs.Number.Grammar
import LuaFront.Proofs.Token.LineCut

/-!
# LuaFront.Proofs.Token.Numeral

How numerals are read.

* `Scanner.Run`: hexadecimal digits, points, and exponent marks with a sign or without. The longest
  such run is read, whatever its form (`Scanner.run_numeralRun`, `Scanner.Run.prefix_numeralRun`).
* `Scanner.Word`: a run with all that is left of the word behind it.
* `Scanner.lex_numeral`: a word is accepted just if it is a numeral of the grammar, and reported as
  malformed otherwise.
* `Scanner.lex_digits`: what numerals without point and exponent stand for, at every length.
-/

namespace LuaFront

open Numeral (Written Form letter isHexDigit)

namespace Scanner

/-! ## Runs -/

/-- Hexadecimal digits, points, and exponent marks that may have a sign, in any order. -/
inductive Run (isMark : Char → Bool) : List Char → Prop where
  | nil : Run isMark []
  | digit {c : Char} {r : List Char} : isHexDigit c = true → Run isMark r → Run isMark (c :: r)
  | point {r : List Char} : Run isMark r → Run isMark ('.' :: r)
  | mark {c : Char} {r : List Char} : isMark c = true → Run isMark r → Run isMark (c :: r)
  | signed {c sign : Char} {r : List Char} : isMark c = true → sign = '+' ∨ sign = '-' →
      Run isMark r → Run isMark (c :: sign :: r)

variable {isMark : Char → Bool}

theorem Run.append {u v : List Char} (hu : Run isMark u) (hv : Run isMark v) :
    Run isMark (u ++ v) := by
  induction hu with
  | nil => exact hv
  | digit hc _ ih => exact .digit hc ih
  | point _ ih => exact .point ih
  | mark hc _ ih => exact .mark hc ih
  | signed hc hsign _ ih => exact .signed hc hsign ih

/-- What is read is a run. -/
theorem run_numeralRun (cs : List Char) : Run isMark (numeralRun isMark cs) := by
  fun_induction numeralRun isMark cs with
  | case1 => exact .nil
  | case2 c hc r ih => exact .signed hc (.inl rfl) ih
  | case3 c hc r ih => exact .signed hc (.inr rfl) ih
  | case4 c hc r _ _ ih => exact .mark hc ih
  | case5 c r hc hdigit ih =>
    rw [Bool.or_eq_true, beq_iff_eq] at hdigit
    rcases hdigit with hdigit | rfl
    · exact .digit hdigit ih
    · exact .point ih
  | case6 => exact .nil

/-- A sign belongs to the mark in front of it. -/
theorem Run.not_sign (hmark : ∀ c, c = '+' ∨ c = '-' → isMark c = false) {c : Char} {r : List Char}
    (h : Run isMark (c :: r)) : (c == '+' || c == '-') = false := by
  have hsigns : isMark '+' = false ∧ isMark '-' = false :=
    ⟨hmark '+' (.inl rfl), hmark '-' (.inr rfl)⟩
  cases h with
  | digit hc _ => exact marks_of_class hc (by decide) (by decide)
  | point _ => rfl
  | mark hc _ => exact marks_of_class hc hsigns.1 hsigns.2
  | signed hc _ _ => exact marks_of_class hc hsigns.1 hsigns.2

/-- No longer run could be read. -/
theorem Run.prefix_numeralRun (hmark : ∀ c, c = '+' ∨ c = '-' → isMark c = false) {u : List Char}
    (h : Run isMark u) (rest : List Char) : u <+: numeralRun isMark (u ++ rest) := by
  have hstep {c : Char} {r : List Char} (hc : (isMark c || isHexDigit c || c == '.') = true)
      (hr : Run isMark r) (ih : r <+: numeralRun isMark (r ++ rest)) :
      c :: r <+: numeralRun isMark (c :: r ++ rest) := by
    by_cases hm : isMark c = true
    · cases r with
      | nil =>
        rw [List.singleton_append, numeralRun.eq_def]
        simp only [hm, if_true]
        split <;> exact List.cons_prefix_cons.2 ⟨rfl, List.nil_prefix⟩
      | cons d r =>
        have hnext : ∀ x, (d :: r ++ rest).head? = some x → (x == '+' || x == '-') = false := by
          intro x hx
          cases hx
          exact hr.not_sign hmark
        rw [List.cons_append, numeralRun_mark hm hnext]
        exact List.cons_prefix_cons.2 ⟨rfl, ih⟩
    · have hread : numeralRun isMark (c :: r ++ rest) = c :: numeralRun isMark (r ++ rest) := by
        rw [List.cons_append, numeralRun.eq_def]
        simp_all
      rw [hread]
      exact List.cons_prefix_cons.2 ⟨rfl, ih⟩
  induction h with
  | nil => exact List.nil_prefix
  | digit hc hr ih => exact hstep (by simp [hc]) hr ih
  | point hr ih => exact hstep (by simp) hr ih
  | mark hc hr ih => exact hstep (by simp [hc]) hr ih
  | @signed c sign r hc hsign _ ih =>
    have hread : numeralRun isMark (c :: sign :: r ++ rest) =
        c :: sign :: numeralRun isMark (r ++ rest) := by
      rcases hsign with rfl | rfl <;> simp [numeralRun, hc]
    rw [hread]
    exact List.cons_prefix_cons.2 ⟨rfl, List.cons_prefix_cons.2 ⟨rfl, ih⟩⟩

theorem Run.mem (hmark : ∀ c, c = '+' ∨ c = '-' → isMark c = false) {u : List Char}
    (h : Run isMark u) {c : Char} (hc : c ∈ u) :
    isMark c = true ∨ isHexDigit c = true ∨ c = '.' ∨ c = '+' ∨ c = '-' :=
  mem_numeralRun ((h.prefix_numeralRun hmark []).subset hc)

/-! ## Numerals are runs -/

theorem run_digits {Digit : Type} {char : Digit → Char} (hchar : ∀ d, isHexDigit (char d) = true)
    (ds : List Digit) : Run isMark (ds.map char) := by
  induction ds with
  | nil => exact .nil
  | cons d ds ih => exact .digit (hchar d) ih

theorem run_text {Digit : Type} {char : Digit → Char} (hchar : ∀ d, isHexDigit (char d) = true)
    {mark : Char} (hmark : ∀ capital, isMark (letter capital mark) = true) (x : Form Digit) :
    Run isMark (x.text char mark) := by
  have hpointed : Run isMark (Form.pointed char x.fraction) := by
    cases x.fraction with
    | none => exact .nil
    | some ds => exact .point (run_digits hchar ds)
  have hmarked : Run isMark (Form.marked mark x.power) := by
    rcases x.power with _ | ⟨capital, minus, digits, _⟩
    · exact .nil
    have hdigits : Run isMark (digits.map DecimalDigit.char) :=
      run_digits (fun d => isHexDigit_of_isDigit d.isDigit_char) digits
    rcases minus with _ | _ | _
    · exact .mark (hmark capital) hdigits
    · exact .signed (hmark capital) (.inl rfl) hdigits
    · exact .signed (hmark capital) (.inr rfl) hdigits
  exact (run_digits hchar x.whole).append (hpointed.append hmarked)

theorem not_mem_decimal (capital : Bool) (x : Form DecimalDigit) :
    letter capital 'x' ∉ x.text DecimalDigit.char 'e' := by
  have hrun : Run (fun c => c == 'e' || c == 'E') (x.text DecimalDigit.char 'e') := by
    refine run_text (fun d => isHexDigit_of_isDigit d.isDigit_char) (fun capital => ?_) x
    cases capital <;> rfl
  intro hmem
  have hclass := hrun.mem (by rintro c (rfl | rfl) <;> rfl) hmem
  revert hclass
  cases capital <;> decide

/-! ## What a numeral starts with -/

theorem isHexadecimal_iff {cs : List Char} :
    isHexadecimal cs = true ↔ ∃ capital r, cs = '0' :: letter capital 'x' :: r := by
  constructor
  · intro h
    unfold isHexadecimal at h
    split at h
    next c r =>
      rw [Bool.or_eq_true, beq_iff_eq, beq_iff_eq] at h
      rcases h with rfl | rfl
      · exact ⟨false, r, rfl⟩
      · exact ⟨true, r, rfl⟩
    next => cases h
  · rintro ⟨capital, r, rfl⟩
    cases capital <;> rfl

theorem numeralStart_hexadecimal (capital : Bool) (r : List Char) :
    numeralStart ('0' :: letter capital 'x' :: r) = ['0', letter capital 'x'] := by
  cases capital <;> rfl

theorem numeralStart_decimal {cs : List Char} (h : isHexadecimal cs = false) :
    numeralStart cs = [] := by
  rw [numeralStart, h]
  rfl

/-! ## Words -/

/-- How far a numeral is read in `cs`: behind `0x`, if that comes first, the longest run, and then
what is left of the word. -/
structure Word (cs run excess rest : List Char) : Prop where
  text : cs = numeralStart cs ++ (run ++ (excess ++ rest))
  isRun : Run (numeralMark cs) run
  longest : ∀ u v, run ++ (excess ++ rest) = u ++ v → Run (numeralMark cs) u → u <+: run
  chars : ∀ c ∈ excess, isNameChar c = true
  ends : EndsWord rest

theorem numeralMark_sign (cs : List Char) : ∀ c, c = '+' ∨ c = '-' → numeralMark cs c = false := by
  intro c hc
  unfold numeralMark
  rcases hc with rfl | rfl <;> split <;> rfl

/-- What starts as a numeral is read as a word, by the value of its run. -/
theorem exists_word (cs : List Char) : ∃ run excess rest, Word cs run excess rest ∧
    ∀ offset, numeral ⟨offset, cs⟩ =
      judged ⟨offset + Text.size (numeralStart cs ++ (run ++ excess)), rest⟩ offset
        (numeralValue (isHexadecimal cs) run) excess := by
  obtain ⟨run, excess, rest, hcs, hrun, hexcess, hrest⟩ := exists_numeralParts cs
  refine ⟨run, excess, rest, ⟨hcs, ?_, fun u v huv hu => ?_, hexcess, hrest⟩,
    numeral_of_parts hcs hrun hexcess hrest⟩
  · rw [← hrun]
    exact run_numeralRun _
  · have hlongest := hu.prefix_numeralRun (numeralMark_sign cs) v
    rwa [← huv, hrun] at hlongest

namespace Word

variable {cs run excess rest : List Char} (h : Word cs run excess rest)
include h

/-- A word that is a run has nothing left behind its run. -/
theorem excess_eq_nil (hrun : Run (numeralMark cs) (run ++ excess)) : excess = [] := by
  have hle := (h.longest (run ++ excess) rest (List.append_assoc ..).symm hrun).length_le
  rw [List.length_append] at hle
  exact List.length_eq_zero_iff.1 (by omega)

/-- A text that is a run is read whole. -/
theorem whole {u : List Char} (hcs : cs = numeralStart cs ++ u) (hu : Run (numeralMark cs) u) :
    run = u ∧ excess = [] ∧ rest = [] := by
  have hsame : run ++ (excess ++ rest) = u := List.append_cancel_left (h.text.symm.trans hcs)
  have hle := (h.longest u [] (hsame.trans (List.append_nil u).symm) hu).length_le
  rw [← hsame, List.length_append] at hle
  obtain ⟨rfl, rfl⟩ := List.append_eq_nil_iff.1 (List.length_eq_zero_iff.1 (show
    (excess ++ rest).length = 0 by omega))
  exact ⟨by rw [← hsame, List.append_nil, List.append_nil], rfl, rfl⟩

/-- A numeral is read to its end and stands for its value. -/
theorem value_text {w : Written} (hw : w.text = numeralStart cs ++ (run ++ excess)) :
    excess = [] ∧ numeralValue (isHexadecimal cs) run = some w.value := by
  have hcs : cs = w.text ++ rest := by
    rw [hw, List.append_assoc, List.append_assoc]
    exact h.text
  cases w with
  | decimal x =>
    have hdecimal : isHexadecimal cs = false := by
      rw [← Bool.not_eq_true, isHexadecimal_iff]
      rintro ⟨capital, r, rfl⟩
      refine not_mem_decimal capital x ?_
      rw [numeralStart_hexadecimal] at hw
      rw [show x.text DecimalDigit.char 'e' = _ from hw]
      simp
    rw [numeralStart_decimal hdecimal, List.nil_append] at hw
    have hrun : Run (numeralMark cs) (run ++ excess) := by
      rw [← hw]
      refine run_text (fun d => isHexDigit_of_isDigit d.isDigit_char) (fun capital => ?_) x
      rw [numeralMark, hdecimal]
      cases capital <;> rfl
    have hnil := h.excess_eq_nil hrun
    rw [hnil, List.append_nil] at hw
    refine ⟨hnil, ?_⟩
    rw [hdecimal, ← hw]
    exact Written.decimal?_text x
  | hexadecimal capital x =>
    have hhex : isHexadecimal cs = true := isHexadecimal_iff.2 ⟨capital, _, hcs⟩
    have htext : x.text HexDigit.char 'p' = run ++ excess := by
      have hstart : numeralStart cs = ['0', letter capital 'x'] := by
        rw [hcs]
        exact numeralStart_hexadecimal capital _
      rw [hstart] at hw
      exact List.append_cancel_left (show ['0', letter capital 'x'] ++ _ = _ from hw)
    have hrun : Run (numeralMark cs) (run ++ excess) := by
      rw [← htext]
      refine run_text HexDigit.isHexDigit_char (fun capital => ?_) x
      rw [numeralMark, hhex]
      cases capital <;> rfl
    have hnil := h.excess_eq_nil hrun
    rw [hnil, List.append_nil] at htext
    refine ⟨hnil, ?_⟩
    rw [hhex, ← htext]
    exact Written.hexadecimal?_text capital x

/-- What has a value is a numeral. -/
theorem exists_text {x : Number} (hx : numeralValue (isHexadecimal cs) run = some x) :
    ∃ w : Written, w.text = numeralStart cs ++ run := by
  cases hhex : isHexadecimal cs with
  | false =>
    rw [hhex] at hx
    obtain ⟨x, rfl⟩ := Written.exists_of_decimal? hx
    exact ⟨.decimal x, by rw [numeralStart_decimal hhex]; rfl⟩
  | true =>
    rw [hhex] at hx
    obtain ⟨capital, r, rfl⟩ := isHexadecimal_iff.1 hhex
    obtain ⟨x, rfl⟩ := Written.exists_of_hexadecimal? hx
    exact ⟨.hexadecimal capital x, by rw [numeralStart_hexadecimal]; rfl⟩

end Word

/-- What starts with a digit, or with a point and a digit, is a numeral. -/
theorem lex_of_startsNumeral {c : Char} {r : List Char} (h : startsNumeral c r = true)
    (offset : Nat) : lex ⟨offset, c :: r⟩ = numeral ⟨offset, c :: r⟩ := by
  by_cases hdigit : Numeral.isDigit c = true
  · exact lex_digit hdigit offset r
  · have hpoint : c = '.' := by
      simp only [startsNumeral, hdigit, Bool.false_or, Bool.and_eq_true, beq_iff_eq] at h
      exact h.1
    subst hpoint
    rw [lex_of_start (by decide) (by simp), token, if_neg (by decide), if_pos h]

theorem judged_malformed {value : Option Number} {excess : List Char}
    (h : excess = [] → value = none) (after : Scanner) (start : Nat) :
    judged after start value excess = after.lexeme start .integer (.number (.integer 0))
      [⟨after.spanFrom start, .malformedNumber⟩] := by
  cases excess with
  | nil => rw [h rfl]; rfl
  | cons c r => cases value <;> rfl

theorem kind_value (w : Written) : w.value.kind = if w.isInteger then .integer else .float := by
  cases w with
  | decimal x =>
    rw [Written.value]
    split <;> rfl
  | hexadecimal capital x =>
    obtain ⟨whole, _ | _, _ | _, nonempty⟩ := x <;> rfl

/-- A word that starts as a numeral is accepted, as what it stands for, just if it is written as one.
Otherwise it is reported, once and whole, and counts as an integer. -/
theorem lex_numeral {c : Char} {r : List Char} (h : startsNumeral c r = true) (offset : Nat) :
    ∃ run excess rest, Word (c :: r) run excess rest ∧
      ∃ word, word = numeralStart (c :: r) ++ (run ++ excess) ∧
        (∀ w : Written, w.text = word → lex ⟨offset, c :: r⟩ =
          lexeme ⟨offset + Text.size word, rest⟩ offset (if w.isInteger then .integer else .float)
            (.number w.value) []) ∧
        ((∀ w : Written, w.text ≠ word) → lex ⟨offset, c :: r⟩ =
          lexeme ⟨offset + Text.size word, rest⟩ offset .integer (.number (.integer 0))
            [⟨⟨offset, offset + Text.size word⟩, .malformedNumber⟩]) := by
  obtain ⟨run, excess, rest, hword, hread⟩ := exists_word (c :: r)
  refine ⟨run, excess, rest, hword, _, rfl, fun w hw => ?_, fun hnone => ?_⟩
  · obtain ⟨rfl, hvalue⟩ := hword.value_text hw
    rw [lex_of_startsNumeral h, hread, hvalue, judged, kind_value]
  · rw [lex_of_startsNumeral h, hread, judged_malformed]
    · rfl
    · rintro rfl
      rw [Option.eq_none_iff_forall_ne_some]
      intro x hx
      obtain ⟨w, hw⟩ := hword.exists_text hx
      exact hnone w (by rw [hw, List.append_nil])

/-- A second point is read but not accepted; an exponent with a sign is. -/
theorem lex_numeral_points :
    startsNumeral '1' ['.', '.', '2'] = true ∧
    (lex ⟨0, ['1', '.', '.', '2']⟩).1.diagnostics = [⟨⟨0, 4⟩, .malformedNumber⟩] ∧
    startsNumeral '.' ['5', 'e', '-', '3'] = true ∧
    (lex ⟨0, ['.', '5', 'e', '-', '3']⟩).1.token.kind = .float ∧
    (lex ⟨0, ['.', '5', 'e', '-', '3']⟩).1.diagnostics = [] := by
  refine ⟨rfl, ?_, rfl, ?_⟩
  · obtain ⟨run, excess, rest, hword, word, rfl, -, hmalformed⟩ :=
      lex_numeral (c := '1') (r := ['.', '.', '2']) rfl 0
    obtain ⟨rfl, rfl, rfl⟩ := hword.whole rfl
      (.digit rfl (.point (.point (.digit rfl .nil))))
    rw [hmalformed fun w hw => ?_]
    · rfl
    · have hvalue := (hword.value_text hw).2
      have hnone : numeralValue (isHexadecimal ['1', '.', '.', '2']) ['1', '.', '.', '2'] = none := rfl
      rw [hnone] at hvalue
      cases hvalue
  · obtain ⟨run, excess, rest, hword, word, rfl, haccepted, -⟩ :=
      lex_numeral (c := '.') (r := ['5', 'e', '-', '3']) rfl 0
    obtain ⟨rfl, rfl, rfl⟩ := hword.whole rfl
      (.point (.digit rfl (.signed rfl (.inr rfl) (.digit rfl .nil))))
    rw [haccepted (.decimal ⟨[], some [5], some ⟨false, some true, [3], by decide⟩, by decide⟩) rfl]
    exact ⟨rfl, rfl⟩

/-! ## Integers -/

section

variable {rest : List Char} (hrest : EndsNumeral rest) (offset : Nat)
include hrest

theorem lex_decimalDigits (d : DecimalDigit) (ds : List DecimalDigit) :
    lex ⟨offset, (d :: ds).map DecimalDigit.char ++ rest⟩ =
      lexeme ⟨offset + Text.size ((d :: ds).map DecimalDigit.char), rest⟩ offset
        (Written.decimal ⟨d :: ds, none, none, by simp⟩).value.kind
        (.number (Written.decimal ⟨d :: ds, none, none, by simp⟩).value) [] := by
  have hdigits : ∀ c ∈ (d :: ds).map DecimalDigit.char, Numeral.isDigit c = true := by
    simp [DecimalDigit.isDigit_char]
  have hvalue := Written.decimal?_text ⟨d :: ds, none, none, by simp⟩
  rw [Form.text_of_isWhole rfl] at hvalue
  exact lex_decimal (by simp) hdigits hvalue hrest offset

theorem lex_hexDigits (capital : Bool) (d : HexDigit) (ds : List HexDigit) :
    lex ⟨offset, '0' :: letter capital 'x' :: ((d :: ds).map HexDigit.char ++ rest)⟩ =
      lexeme ⟨offset + 2 + Text.size ((d :: ds).map HexDigit.char), rest⟩ offset .integer
        (.number (.integer (UInt64.ofNat (HexDigit.number (d :: ds))).toInt64)) [] := by
  have hdigits : ∀ c ∈ (d :: ds).map HexDigit.char, isHexDigit c = true := by
    simp [HexDigit.isHexDigit_char]
  rw [← Escape.hexValue_chars]
  exact lex_hexadecimal capital (by simp) hdigits hrest offset

/-- The digits of its bits give back an integer, with zeros in front or without. -/
theorem lex_hexBits (capital capital' : Bool) (zeros : Nat) (n : Int64) :
    lex ⟨offset, '0' :: letter capital 'x' ::
        (List.replicate zeros '0' ++ Numeral.hexDigits capital' n.toUInt64.toNat ++ rest)⟩ =
      lexeme ⟨offset + 2 + Text.size
          (List.replicate zeros '0' ++ Numeral.hexDigits capital' n.toUInt64.toNat), rest⟩ offset
        .integer (.number (.integer n)) [] := by
  have hdigits : ∀ c ∈ List.replicate zeros '0' ++ Numeral.hexDigits capital' n.toUInt64.toNat,
      isHexDigit c = true := by
    intro c hc
    rcases List.mem_append.1 hc with hc | hc
    · rw [(List.mem_replicate.1 hc).2]
      rfl
    · exact Numeral.isHexDigit_of_mem_hexDigits hc
  have hlex := lex_hexadecimal capital (by simp [Numeral.hexDigits_ne_nil]) hdigits hrest offset
  rw [Escape.hexValue_zeros, Numeral.hexValue_hexDigits, UInt64.ofNat_toNat,
    show n.toUInt64.toInt64 = n from rfl] at hlex
  exact hlex

end

/-- Numerals of digits only have the right value, whatever their length. Decimal digits are an
integer as long as it is in range, and a float from there on; hexadecimal ones wrap around modulo
`2^64`, by the multiplication and never by the addition of a digit, so that each integer is read from
the digits of its bits. -/
theorem lex_digits {rest : List Char} (hrest : EndsNumeral rest) (offset : Nat) :
    (∀ (d : DecimalDigit) (ds : List DecimalDigit),
      (DecimalDigit.number (d :: ds) < 0x8000000000000000 → ∃ n : Int64,
        n.toInt = DecimalDigit.number (d :: ds) ∧
        lex ⟨offset, (d :: ds).map DecimalDigit.char ++ rest⟩ =
          lexeme ⟨offset + Text.size ((d :: ds).map DecimalDigit.char), rest⟩ offset .integer
            (.number (.integer n)) []) ∧
      (0x8000000000000000 ≤ DecimalDigit.number (d :: ds) → ∃ x : Binary64,
        lex ⟨offset, (d :: ds).map DecimalDigit.char ++ rest⟩ =
          lexeme ⟨offset + Text.size ((d :: ds).map DecimalDigit.char), rest⟩ offset .float
            (.number (.float x)) [])) ∧
    (∀ (capital : Bool) (d : HexDigit) (ds : List HexDigit), ∃ n : Int64,
      n.toInt = Int.bmod (HexDigit.number (d :: ds)) UInt64.size ∧
      lex ⟨offset, '0' :: letter capital 'x' :: ((d :: ds).map HexDigit.char ++ rest)⟩ =
        lexeme ⟨offset + 2 + Text.size ((d :: ds).map HexDigit.char), rest⟩ offset .integer
          (.number (.integer n)) []) ∧
    (∀ (ds : List HexDigit) (d : HexDigit),
      (Numeral.Hexadecimal.word ((ds ++ [d]).map (·.value.val))).toNat =
        (Numeral.Hexadecimal.word (ds.map (·.value.val)) * 16).toNat + d.value) ∧
    ∀ (capital capital' : Bool) (zeros : Nat) (n : Int64),
      lex ⟨offset, '0' :: letter capital 'x' ::
          (List.replicate zeros '0' ++ Numeral.hexDigits capital' n.toUInt64.toNat ++ rest)⟩ =
        lexeme ⟨offset + 2 + Text.size
            (List.replicate zeros '0' ++ Numeral.hexDigits capital' n.toUInt64.toNat), rest⟩ offset
          .integer (.number (.integer n)) [] := by
  refine ⟨fun d ds => ⟨fun hlt => ?_, fun hle => ?_⟩, fun capital d ds => ?_, fun ds d => ?_,
    lex_hexBits hrest offset⟩
  · have hinteger : (Written.decimal ⟨d :: ds, none, none, by simp⟩).isInteger = true := by
      simpa [Written.isInteger, Form.isWhole] using hlt
    have hlex := lex_decimalDigits hrest offset d ds
    rw [Written.value, if_pos hinteger] at hlex
    exact ⟨_, Int64.toInt_ofNat_of_lt hlt, hlex⟩
  · have hfloat : ¬(Written.decimal ⟨d :: ds, none, none, by simp⟩).isInteger = true := by
      simpa [Written.isInteger, Form.isWhole] using hle
    have hlex := lex_decimalDigits hrest offset d ds
    rw [Written.value, if_neg hfloat] at hlex
    exact ⟨_, hlex⟩
  · exact ⟨_, Numeral.Hexadecimal.toInt_toInt64 _, lex_hexDigits hrest offset capital d ds⟩
  · rw [List.map_append]
    exact Numeral.Hexadecimal.toNat_word_append _ d.value.isLt

/-- The first decimal numeral out of range, and the digits of all bits with zeros in front. -/
theorem lex_digits_edges :
    EndsNumeral [';'] ∧
    (∃ x, (lex ⟨0, [9, 2, 2, 3, 3, 7, 2, 0, 3, 6, 8, 5, 4, 7, 7, 5, 8, 0, 8].map
      DecimalDigit.char ++ [';']⟩).1.token.value = .number (.float x)) ∧
    (lex ⟨0, '0' :: letter true 'x' :: (List.replicate 3 '0' ++
      Numeral.hexDigits false (-1 : Int64).toUInt64.toNat ++ [';'])⟩).1.token.value =
        .number (.integer (-1)) := by
  have hends : EndsNumeral [';'] := by
    intro c hc
    cases hc
    decide
  obtain ⟨x, hx⟩ := ((lex_digits hends 0).1 9
    [2, 2, 3, 3, 7, 2, 0, 3, 6, 8, 5, 4, 7, 7, 5, 8, 0, 8]).2 (by decide)
  have hbits := (lex_digits hends 0).2.2.2 true false 3 (-1)
  exact ⟨hends, ⟨x, congrArg (·.1.token.value) hx⟩, congrArg (·.1.token.value) hbits⟩

end Scanner
end LuaFront
