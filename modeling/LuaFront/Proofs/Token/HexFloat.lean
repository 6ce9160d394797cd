import LuaFront.Proofs.Number.HexFloat
import LuaFront.Proofs.Token.Numeral

/-!
# LuaFront.Proofs.Token.HexFloat

How hexadecimal floats are read.

* `Scanner.numeralRun_hexText`: a hexadecimal numeral is read to its end.
* `Scanner.lex_hexFloat`: which of those that stand for a number are read as that number.
* `Scanner.lex_hexFloat_lost`: zero times a power of two out of range, and the least number of all.
-/

namespace LuaFront

open Numeral (Written Form letter isHexDigit)

namespace Scanner

/-- Digits and points are passed as long as none of them marks an exponent. -/
theorem numeralRun_append {isMark : Char → Bool} {cs : List Char}
    (hcs : ∀ c ∈ cs, isMark c = false ∧ (isHexDigit c || c == '.') = true) (r : List Char) :
    numeralRun isMark (cs ++ r) = cs ++ numeralRun isMark r := by
  induction cs with
  | nil => rfl
  | cons c cs ih =>
    obtain ⟨hmark, hclass⟩ := hcs c (by simp)
    rw [List.cons_append, numeralRun.eq_def]
    simp only [hmark, hclass, Bool.false_eq_true, if_false, if_true]
    rw [ih fun d hd => hcs d (by simp [hd]), List.cons_append]

/-- A hexadecimal numeral is read to its end. -/
theorem numeralRun_hexText (x : Form HexDigit) {rest : List Char} (hrest : EndsNumeral rest) :
    numeralRun (fun c => c == 'p' || c == 'P') (x.text HexDigit.char 'p' ++ rest) =
      x.text HexDigit.char 'p' := by
  have hplain {c : Char} (hc : isHexDigit c = true) : (c == 'p' || c == 'P') = false :=
    marks_of_class hc (by decide) (by decide)
  have hnamed : ∀ c, (c == 'p' || c == 'P') = true → isNameChar c = true := by
    intro c hc
    rw [Bool.or_eq_true, beq_iff_eq, beq_iff_eq] at hc
    rcases hc with rfl | rfl <;> decide
  have hdecimal (ds : List DecimalDigit) : ∀ c ∈ ds.map DecimalDigit.char,
      (c == 'p' || c == 'P') = false ∧ isHexDigit c = true := by
    intro c hc
    obtain ⟨d, -, rfl⟩ := List.mem_map.1 hc
    have hhex := isHexDigit_of_isDigit d.isDigit_char
    exact ⟨hplain hhex, hhex⟩
  obtain ⟨whole, fraction, power, nonempty⟩ := x
  have hmantissa : ∀ c ∈ whole.map HexDigit.char ++ Form.pointed HexDigit.char fraction,
      (c == 'p' || c == 'P') = false ∧ (isHexDigit c || c == '.') = true := by
    intro c hc
    have hcases : c = '.' ∨ isHexDigit c = true := by
      rcases List.mem_append.1 hc with hc | hc
      · obtain ⟨d, -, rfl⟩ := List.mem_map.1 hc
        exact .inr d.isHexDigit_char
      · cases fraction with
        | none => cases hc
        | some ds =>
          rcases List.mem_cons.1 hc with rfl | hc
          · exact .inl rfl
          · obtain ⟨d, -, rfl⟩ := List.mem_map.1 hc
            exact .inr d.isHexDigit_char
    rcases hcases with rfl | hhex
    · decide
    · exact ⟨hplain hhex, by rw [hhex, Bool.true_or]⟩
  have hpower : numeralRun (fun c => c == 'p' || c == 'P') (Form.marked 'p' power ++ rest) =
      Form.marked 'p' power := by
    cases power with
    | none => exact numeralRun_digits (fun c hc => absurd hc List.not_mem_nil) hnamed hrest
    | some p =>
      obtain ⟨capital, minus, digits, hdigits⟩ := p
      have htail := numeralRun_digits (hdecimal digits) hnamed hrest
      have hmark : (letter capital 'p' == 'p' || letter capital 'p' == 'P') = true := by
        cases capital <;> rfl
      have hsigned {sign : Char} (hsign : sign = '+' ∨ sign = '-') (r : List Char) :
          numeralRun (fun c => c == 'p' || c == 'P') (letter capital 'p' :: sign :: r) =
            letter capital 'p' :: sign :: numeralRun (fun c => c == 'p' || c == 'P') r := by
        rcases hsign with rfl | rfl <;> simp [numeralRun, hmark]
      rcases minus with _ | _ | _
      · have hdigit : ∀ d, (digits.map DecimalDigit.char ++ rest).head? = some d →
            (d == '+' || d == '-') = false := by
          obtain ⟨d, ds, rfl⟩ := List.exists_cons_of_ne_nil hdigits
          intro c hc
          cases hc
          exact marks_of_class d.isDigit_char (by decide) (by decide)
        rw [Form.marked, Numeral.Power.tail, Numeral.Power.sign, List.nil_append, List.cons_append,
          numeralRun_mark hmark hdigit, htail]
      · rw [Form.marked, Numeral.Power.tail, Numeral.Power.sign, List.cons_append, List.cons_append,
          List.nil_append, List.cons_append, hsigned (.inl rfl), htail]
      · rw [Form.marked, Numeral.Power.tail, Numeral.Power.sign, List.cons_append, List.cons_append,
          List.nil_append, List.cons_append, hsigned (.inr rfl), htail]
  rw [Form.text, ← List.append_assoc, List.append_assoc _ _ rest, numeralRun_append hmantissa, hpower]

/-- A hexadecimal numeral with a point or an exponent is a float. -/
theorem lex_hexForm (capital : Bool) {x : Form HexDigit} (hfloat : x.isWhole = false)
    {rest : List Char} (hrest : EndsNumeral rest) (offset : Nat) :
    lex ⟨offset, (Written.hexadecimal capital x).text ++ rest⟩ =
      lexeme ⟨offset + Text.size (Written.hexadecimal capital x).text, rest⟩ offset .float
        (.number (.float x.parts.float)) [] := by
  have hcs : (Written.hexadecimal capital x).text ++ rest =
      '0' :: letter capital 'x' :: (x.text HexDigit.char 'p' ++ rest) := rfl
  have hhex : isHexadecimal ('0' :: letter capital 'x' :: (x.text HexDigit.char 'p' ++ rest)) = true :=
    isHexadecimal_iff.2 ⟨capital, _, rfl⟩
  have hrun : numeralRun (numeralMark ('0' :: letter capital 'x' :: (x.text HexDigit.char 'p' ++ rest)))
      (x.text HexDigit.char 'p' ++ ([] ++ rest)) = x.text HexDigit.char 'p' := by
    have hmark : numeralMark ('0' :: letter capital 'x' :: (x.text HexDigit.char 'p' ++ rest)) =
        fun c => c == 'p' || c == 'P' := by
      funext c
      rw [numeralMark, if_pos hhex]
    rw [hmark]
    exact numeralRun_hexText x hrest
  have hvalue : x.parts.value = .float x.parts.float := by
    obtain ⟨whole, _ | fraction, _ | power, nonempty⟩ := x
    · cases hfloat
    all_goals rfl
  rw [hcs, lex_digit (by decide), numeral_of_parts (by rw [numeralStart_hexadecimal]; rfl) hrun
    (fun c hc => absurd hc List.not_mem_nil) (fun c hc => (hrest c hc).1), hhex, numeralValue,
    if_pos rfl, Written.hexadecimal?_text capital x, Written.value, hvalue, numeralStart_hexadecimal,
    List.append_nil]
  rfl

/-- A hexadecimal numeral with a point or an exponent that stands for a number is read as that number
just if the power of two is in range: for zeros, below the first one that is infinite, and for other
digits, above the last one whose inverse is. Otherwise a zero is read as no number at all, and any
other number as zero. -/
theorem lex_hexFloat (capital : Bool) {x : Form HexDigit} (hfloat : x.isWhole = false)
    (hlength : x.digits.length < 0x8000000) {rest : List Char} (hrest : EndsNumeral rest)
    (offset : Nat) :
    ∃ z : Binary64,
      lex ⟨offset, (Written.hexadecimal capital x).text ++ rest⟩ =
        lexeme ⟨offset + Text.size (Written.hexadecimal capital x).text, rest⟩ offset .float
          (.number (.float z)) [] ∧
      ∀ y : Binary64, y.IsPlain → y.toRat = (x.number : ℚ) * 2 ^ x.scale →
        (z = y ↔ if x.number = 0 then x.scale < 1024 else -1024 < x.scale + 4 * x.excess) ∧
        (z ≠ y → z = if x.number = 0 then Binary64.nan else Binary64.zero) :=
  ⟨x.parts.float, lex_hexForm capital hfloat hrest offset,
    fun _ hy hvalue => x.float_eq_iff hlength hy hvalue⟩

/-- `0x1.0000000000000000p-960`: a power of two that is in range only because two of the digits are
in excess. -/
def longPower : Form HexDigit :=
  ⟨[⟨1, false⟩], some (List.replicate 16 ⟨0, false⟩), some ⟨false, some true, [9, 6, 0], by decide⟩,
    by decide⟩

/-- The number `2^(-960)`, read from more digits than a significand has. -/
theorem lex_hexFloat_long :
    longPower.isWhole = false ∧ longPower.digits.length < 0x8000000 ∧ EndsNumeral [';'] ∧
    (⟨0x03F0000000000000⟩ : Binary64).IsPlain ∧
    (⟨0x03F0000000000000⟩ : Binary64).toRat = (longPower.number : ℚ) * 2 ^ longPower.scale ∧
    (lex ⟨0, (Written.hexadecimal true longPower).text ++ [';']⟩).1.token.value =
      .number (.float ⟨0x03F0000000000000⟩) := by
  have hends : EndsNumeral [';'] := by
    intro c hc
    cases hc
    decide
  have hplain : (⟨0x03F0000000000000⟩ : Binary64).IsPlain := by decide
  have hnumber : longPower.number = 16 ^ 16 := by decide
  have hscale : longPower.scale = -1024 := by decide
  have hvalue : (⟨0x03F0000000000000⟩ : Binary64).toRat =
      (longPower.number : ℚ) * 2 ^ longPower.scale := by
    have hsignificand : (⟨0x03F0000000000000⟩ : Binary64).significand = 2 ^ 52 := by decide
    have hexponent : (⟨0x03F0000000000000⟩ : Binary64).exponent = -1012 := by decide
    rw [Binary64.toRat, hsignificand, hexponent, hnumber, hscale, Nat.cast_pow, Nat.cast_pow,
      Nat.cast_ofNat, Nat.cast_ofNat, Form.sixteen_pow, ← zpow_natCast, ← zpow_add₀ two_ne_zero,
      ← zpow_add₀ two_ne_zero]
    rfl
  have hexcess : longPower.excess = 2 := by
    rw [Form.excess, hnumber]
    norm_num
  obtain ⟨z, hlex, hexact⟩ := lex_hexFloat true (x := longPower) rfl (by decide) hends 0
  have hz : z = ⟨0x03F0000000000000⟩ := by
    rw [(hexact _ hplain hvalue).1, hnumber, hscale, hexcess]
    decide
  refine ⟨rfl, by decide, hends, hplain, hvalue, ?_⟩
  rw [hlex, hz]
  rfl

/-- `0x0p2000` -/
def zeroPower : Form HexDigit :=
  ⟨[⟨0, false⟩], none, some ⟨false, none, [2, 0, 0, 0], by decide⟩, by decide⟩

/-- `0x1p-1074` -/
def leastPower : Form HexDigit :=
  ⟨[⟨1, false⟩], none, some ⟨false, some true, [1, 0, 7, 4], by decide⟩, by decide⟩

/-- Zero with a large exponent is no number, and the least number of all is read as zero. -/
theorem lex_hexFloat_lost :
    (Written.hexadecimal false zeroPower).text = "0x0p2000".toList ∧
    Binary64.zero.toRat = (zeroPower.number : ℚ) * 2 ^ zeroPower.scale ∧
    (lex ⟨0, "0x0p2000".toList⟩).1.token.value = .number (.float Binary64.nan) ∧
    (Written.hexadecimal false leastPower).text = "0x1p-1074".toList ∧
    (⟨1⟩ : Binary64).IsPlain ∧
    (⟨1⟩ : Binary64).toRat = (leastPower.number : ℚ) * 2 ^ leastPower.scale ∧
    (lex ⟨0, "0x1p-1074".toList⟩).1.token.value = .number (.float Binary64.zero) := by
  have hends : EndsNumeral [] := fun c hc => by cases hc
  have hzero := lex_hexForm false (x := zeroPower) rfl hends 0
  have hleast := lex_hexForm false (x := leastPower) rfl hends 0
  refine ⟨rfl, ?_, ?_, rfl, by decide, ?_, ?_⟩
  · rw [Binary64.toRat_zero, show zeroPower.number = 0 by decide, Nat.cast_zero, zero_mul]
  · have hfloat : zeroPower.parts.float = Binary64.nan := by decide
    rw [List.append_nil, hfloat] at hzero
    exact congrArg (·.1.token.value) hzero
  · have hsignificand : (⟨1⟩ : Binary64).significand = 1 := by decide
    have hexponent : (⟨1⟩ : Binary64).exponent = -1074 := by decide
    rw [Binary64.toRat, hsignificand, hexponent, show leastPower.number = 1 by decide,
      show leastPower.scale = -1074 by decide]
  · have hfloat : leastPower.parts.float = Binary64.zero := by decide
    rw [List.append_nil, hfloat] at hleast
    exact congrArg (·.1.token.value) hleast

end Scanner
end LuaFront
