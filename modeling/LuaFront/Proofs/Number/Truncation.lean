import LuaFront.Proofs.Number.HexFloat

/-!
# LuaFront.Proofs.Number.Truncation

What is left of a hexadecimal float before it is multiplied with its power of two.

* `Numeral.Hexadecimal.after`: the significand and the scale when some of the digits have been added,
  and `Numeral.Hexadecimal.Words.after`, the same in words of 64 and 32 bits that wrap around.
* `HexDigit.beyond`: how many significant digits there are beyond the fifteenth.
* `Numeral.Form.after_eq`: after every digit, the significand is the number read so far without the
  digits beyond the fifteenth, and the scale makes up for these.
* `Numeral.Form.significandScale_truncates`: so the significand is what is left of the number when
  those digits are cut off, and nothing wraps around on the way.
-/

namespace LuaFront

/-! ## Significant digits -/

namespace HexDigit

/-- The number of significant digits beyond the fifteenth. -/
def beyond (ds : List HexDigit) : Nat := (ds.dropWhile (·.value.val = 0)).length - 15

/-- Leading zeros do not count. -/
theorem number_dropWhile (ds : List HexDigit) :
    number (ds.dropWhile (·.value.val = 0)) = number ds := by
  induction ds with
  | nil => rfl
  | cons d ds ih =>
    rw [List.dropWhile_cons]
    split
    next hzero =>
      have hd : d.value.val = 0 := of_decide_eq_true hzero
      rw [ih, number, number, List.map_cons, List.reverse_cons, Nat.ofDigits_append,
        Nat.ofDigits_singleton, hd, Nat.mul_zero, Nat.add_zero]
    next => rfl

/-- The significant digits are those of the number. -/
theorem length_digits_number (ds : List HexDigit) :
    (Nat.digits 16 (number ds)).length = (ds.dropWhile (·.value.val = 0)).length := by
  have hhead := List.head?_dropWhile_not (fun d : HexDigit => decide (d.value.val = 0)) ds
  rw [← number_dropWhile ds]
  generalize ds.dropWhile (fun d => decide (d.value.val = 0)) = significant at hhead
  rw [number, Nat.digits_ofDigits 16 (by decide)]
  · simp
  · intro n hn
    rw [List.mem_reverse, List.mem_map] at hn
    obtain ⟨d, -, rfl⟩ := hn
    exact d.value.isLt
  · intro hne
    cases significant with
    | nil => exact absurd rfl hne
    | cons d ds =>
      have hd : d.value.val ≠ 0 := of_decide_eq_false hhead
      rw [List.getLast_reverse]
      exact hd

end HexDigit

namespace Numeral
namespace Hexadecimal

/-! ## Digit after digit -/

/-- The significand and the scale when the first digits have been added. -/
def after (h : Hexadecimal) (n : Nat) : Nat × Int :=
  (h.digits.take n).foldl addDigit (0, h.startScale)

theorem after_length (h : Hexadecimal) : h.after h.digits.length = h.significandScale := by
  rw [after, List.take_length, significandScale]

theorem after_succ (h : Hexadecimal) {n : Nat} (hn : n < h.digits.length) :
    h.after (n + 1) = addDigit (h.after n) h.digits[n] := by
  rw [after, List.take_add_one, List.getElem?_eq_getElem hn, List.foldl_append]
  rfl

/-! ## Words -/

/-- A significand and a scale in words, which wrap around. -/
structure Words where
  significand : UInt64
  scale : Int32

namespace Words

/-- Adds one digit, unless the upper byte is in use. -/
def addDigit (w : Words) (digit : Nat) : Words :=
  if w.significand >>> 56 = 0 then { w with significand := w.significand * 16 + UInt64.ofNat digit }
  else { w with scale := w.scale + 4 }

/-- The words when the first digits have been added. -/
def after (h : Hexadecimal) (n : Nat) : Words :=
  (h.digits.take n).foldl addDigit
    ⟨0, Int32.ofInt ((h.exponent.map Exponent.scale).getD 0) -
      4 * Int32.ofNat (h.fraction.getD []).length⟩

theorem after_succ (h : Hexadecimal) {n : Nat} (hn : n < h.digits.length) :
    after h (n + 1) = (after h n).addDigit h.digits[n] := by
  rw [after, List.take_add_one, List.getElem?_eq_getElem hn, List.foldl_append]
  rfl

/-- Whether the words hold a significand and a scale as they are. -/
def Holds (w : Words) (s : Nat × Int) : Prop :=
  w.significand.toNat = s.1 ∧ w.scale.toInt = s.2

/-- A digit more does not wrap around, if the scale has room for it. -/
theorem Holds.addDigit {w : Words} {s : Nat × Int} (h : w.Holds s) {d : Nat} (hd : d < 16)
    (hlow : -0x80000000 ≤ s.2) (hroom : s.2 + 4 < 0x80000000) :
    (w.addDigit d).Holds (Hexadecimal.addDigit s d) := by
  obtain ⟨hsignificand, hscale⟩ := h
  have hupper : w.significand >>> 56 = 0 ↔ s.1 < 1 <<< 56 := by
    rw [← UInt64.toNat_inj, UInt64.toNat_shiftRight, hsignificand, Nat.shiftRight_eq_div_pow,
      Nat.shiftLeft_eq, Nat.one_mul]
    exact Nat.div_eq_zero_iff_lt (by decide)
  rw [Words.addDigit, Hexadecimal.addDigit]
  by_cases hfree : s.1 < 1 <<< 56
  · rw [if_pos (hupper.2 hfree), if_pos hfree]
    refine ⟨?_, hscale⟩
    rw [Nat.shiftLeft_eq] at hfree
    have hdigit : (UInt64.ofNat d).toNat = d :=
      UInt64.toNat_ofNat_of_lt' (Nat.lt_of_lt_of_le hd (by decide))
    rw [UInt64.toNat_add, UInt64.toNat_mul, hsignificand, hdigit, show (16 : UInt64).toNat = 16 from rfl]
    omega
  · rw [if_neg (mt hupper.1 hfree), if_neg hfree]
    refine ⟨hsignificand, ?_⟩
    rw [Int32.toInt_add, hscale, show (4 : Int32).toInt = 4 from rfl, saturate,
      Int.bmod_eq_of_le (by omega) (by omega)]
    omega

end Words
end Hexadecimal

/-! ## Numerals -/

namespace Form

/-- The exponent, or zero. -/
def exponent (x : Form HexDigit) : Int := (x.power.map Power.toInt).getD 0

/-- The number of digits behind the point. -/
def places (x : Form HexDigit) : Nat := (x.fraction.getD []).length

variable {x : Form HexDigit}

theorem places_parts : (x.parts.fraction.getD []).length = x.places := by
  rcases x with ⟨whole, _ | fraction, power, nonempty⟩ <;> simp [parts, places]

theorem places_le : x.places ≤ x.digits.length := by
  simp [places, Form.digits]

theorem quadruple_places (hdigits : x.digits.length < 2 ^ 27) :
    (4 * Int32.ofNat x.places).toInt = 4 * x.places := by
  have hplaces := x.places_le
  exact Hexadecimal.toInt_four_mul (by omega)

/-- An exponent of less than 31 bits is read as it is. -/
theorem exponent_parts (hlow : -2 ^ 30 < x.exponent) (hhigh : x.exponent < 2 ^ 30) :
    (x.parts.exponent.map Exponent.scale).getD 0 = x.exponent := by
  rcases x with ⟨whole, fraction, _ | p, nonempty⟩
  · rfl
  · have hscale := p.scale_cases
    have hexponent : exponent ⟨whole, fraction, some p, nonempty⟩ = p.toInt := rfl
    rw [hexponent] at hlow hhigh ⊢
    change p.exponent.scale = p.toInt
    omega

/-- After every digit, the significand is the number read so far without its digits beyond the
fifteenth, and the scale makes up for these. -/
theorem after_eq (hdigits : x.digits.length < 2 ^ 27) (hlow : -2 ^ 30 < x.exponent)
    (hhigh : x.exponent < 2 ^ 30) (n : Nat) :
    x.parts.after n =
      (HexDigit.number (x.digits.take n) / 16 ^ HexDigit.beyond (x.digits.take n),
        x.exponent - 4 * x.places + 4 * HexDigit.beyond (x.digits.take n)) ∧
    HexDigit.number (x.digits.take n) / 16 ^ HexDigit.beyond (x.digits.take n) < 2 ^ 60 := by
  have hsmall : ∀ d ∈ (x.digits.take n).map (·.value.val), d < 16 := by
    intro d hd
    obtain ⟨digit, -, rfl⟩ := List.mem_map.1 hd
    exact digit.value.isLt
  have hplaces := x.places_le
  have hstart : x.parts.startScale = x.exponent - 4 * x.places := by
    rw [Hexadecimal.startScale_eq (by rw [places_parts]; omega), exponent_parts hlow hhigh,
      places_parts, saturate]
    omega
  obtain ⟨k, hk, hfold, hlt, hfull⟩ :=
    Hexadecimal.foldl_addDigit hsmall (s := x.exponent - 4 * x.places) (by omega) (by omega)
  rw [foldl_digits] at hfold hlt hfull
  have hbeyond : HexDigit.beyond (x.digits.take n) = k := by
    rw [HexDigit.beyond, ← HexDigit.length_digits_number]
    exact Hexadecimal.length_digits_sub hlt hfull
  rw [List.length_map, List.length_take] at hk
  rw [hbeyond]
  refine ⟨?_, hlt⟩
  rw [Hexadecimal.after, digits_parts, hstart, ← List.map_take, hfold]
  congr 1
  omega

/-- No word wraps around. -/
theorem words_hold (hdigits : x.digits.length < 2 ^ 27) (hlow : -2 ^ 30 < x.exponent)
    (hhigh : x.exponent < 2 ^ 30) {n : Nat} (hn : n ≤ x.digits.length) :
    (Hexadecimal.Words.after x.parts n).Holds (x.parts.after n) := by
  have hplaces := x.places_le
  have hexponent := exponent_parts hlow hhigh
  induction n with
  | zero =>
    obtain ⟨hstart, -⟩ := after_eq hdigits hlow hhigh 0
    have hnumber : HexDigit.number [] = 0 := rfl
    rw [hstart, List.take_zero, hnumber, Nat.zero_div]
    refine ⟨rfl, ?_⟩
    rw [Hexadecimal.Words.after, hexponent, places_parts]
    change (Int32.ofInt x.exponent - 4 * Int32.ofNat x.places).toInt = x.exponent - 4 * x.places + 0
    rw [Int32.toInt_sub, quadruple_places hdigits, Int32.toInt_ofInt_of_le (by omega) (by omega),
      Int.bmod_eq_of_le (by omega) (by omega), Int.add_zero]
  | succ n ih =>
    have hlength : n < x.parts.digits.length := by
      rw [digits_parts, List.length_map]
      exact hn
    have hdigit : x.parts.digits[n] < 16 := by
      simp only [digits_parts, List.getElem_map]
      exact Fin.isLt _
    have hfew : HexDigit.beyond (x.digits.take n) ≤ n := by
      have := (List.dropWhile_sublist (·.value.val = 0) (l := x.digits.take n)).length_le
      rw [List.length_take] at this
      rw [HexDigit.beyond]
      omega
    rw [Hexadecimal.Words.after_succ _ hlength, Hexadecimal.after_succ _ hlength]
    refine (ih (by omega)).addDigit hdigit ?_ ?_ <;>
      (rw [(after_eq hdigits hlow hhigh n).1]; omega)

/-- What is cut off weighs less than one unit of what is left. -/
theorem truncation_bounds (n k : Nat) (e : Int) :
    ((n / 16 ^ k : Nat) : ℚ) * 2 ^ (e + 4 * k) ≤ n * 2 ^ e ∧
      (n : ℚ) * 2 ^ e < ((n / 16 ^ k : Nat) + 1) * 2 ^ (e + 4 * k) := by
  have hunit (m : ℚ) : m * 2 ^ (e + 4 * k) = m * 16 ^ k * 2 ^ e := by
    rw [zpow_add₀ two_ne_zero, ← sixteen_pow]
    ring
  rw [hunit]
  constructor
  · have hle : n / 16 ^ k * 16 ^ k ≤ n := Nat.div_mul_le_self n (16 ^ k)
    gcongr
    exact_mod_cast hle
  · rw [hunit]
    have hlt : n < 16 ^ k * (n / 16 ^ k + 1) := Nat.lt_mul_div_succ n (by positivity)
    rw [Nat.mul_comm] at hlt
    gcongr
    exact_mod_cast hlt

/-- A hexadecimal float is what is left of its number when the digits beyond the fifteenth are cut
off. The words in which this is computed never wrap around. -/
theorem significandScale_truncates (hfloat : x.isWhole = false) (hdigits : x.digits.length < 2 ^ 27)
    (hexponent : |x.exponent| < 2 ^ 30) :
    ∃ (m : Nat) (s : Int),
      hexadecimal? (x.text HexDigit.char 'p') =
        some (.float ((Binary64.ofNat m).mul (Binary64.twoPow s))) ∧
      x.parts.significandScale = (m, s) ∧
      m = x.number / 16 ^ HexDigit.beyond x.digits ∧
      s = x.exponent - 4 * x.places + 4 * HexDigit.beyond x.digits ∧
      m < 2 ^ 60 ∧
      (4 * Int32.ofNat x.places).toInt = 4 * x.places ∧
      (∀ n ≤ x.digits.length, (x.parts.after n).1 < 2 ^ 60 ∧
        (Hexadecimal.Words.after x.parts n).significand.toNat = (x.parts.after n).1 ∧
        (Hexadecimal.Words.after x.parts n).scale.toInt = (x.parts.after n).2) ∧
      (m : ℚ) * 2 ^ s ≤ x.number * 2 ^ (x.exponent - 4 * x.places) ∧
      (x.number : ℚ) * 2 ^ (x.exponent - 4 * x.places) < (m + 1) * 2 ^ s ∧
      (HexDigit.beyond x.digits = 0 →
        (m : ℚ) * 2 ^ s = x.number * 2 ^ (x.exponent - 4 * x.places)) := by
  obtain ⟨hlow, hhigh⟩ := abs_lt.1 hexponent
  obtain ⟨hstate, hlt⟩ := after_eq hdigits hlow hhigh x.digits.length
  rw [List.take_length] at hstate hlt
  have hscale : x.parts.significandScale = (x.number / 16 ^ HexDigit.beyond x.digits,
      x.exponent - 4 * x.places + 4 * HexDigit.beyond x.digits) := by
    rw [← Hexadecimal.after_length, digits_parts, List.length_map, hstate]
    rfl
  have hvalue : x.parts.value = .float x.parts.float := by
    obtain ⟨whole, _ | fraction, _ | power, nonempty⟩ := x
    · cases hfloat
    all_goals rfl
  obtain ⟨hbelow, habove⟩ :=
    truncation_bounds x.number (HexDigit.beyond x.digits) (x.exponent - 4 * x.places)
  refine ⟨_, _, ?_, hscale, rfl, rfl, hlt, quadruple_places hdigits, ?_, hbelow, habove, ?_⟩
  · rw [Written.hexadecimal?_text false, Written.value, hvalue, Hexadecimal.float, hscale]
  · intro n hn
    obtain ⟨hsignificand, hwords⟩ := words_hold hdigits hlow hhigh hn
    obtain ⟨hafter, hsmall⟩ := after_eq hdigits hlow hhigh n
    exact ⟨by rw [hafter]; exact hsmall, hsignificand, hwords⟩
  · intro hnone
    rw [hnone, pow_zero, Nat.div_one, Nat.cast_zero, mul_zero, add_zero]

/-- `0123456789ABCDEF.0123456789ABCDEFp+9`: the first digit is no significant one, and those behind
the point are beyond the fifteenth. -/
def ascending : Form HexDigit :=
  ⟨(List.finRange 16).map (⟨·, true⟩), some ((List.finRange 16).map (⟨·, true⟩)),
    some ⟨false, some false, [Fin.last 9], by decide⟩, by decide⟩

/-- The digits behind the point are cut off. -/
theorem significandScale_ascending :
    ascending.text HexDigit.char 'p' = "0123456789ABCDEF.0123456789ABCDEFp+9".toList ∧
    ascending.isWhole = false ∧ ascending.digits.length < 2 ^ 27 ∧ |ascending.exponent| < 2 ^ 30 ∧
    ascending.parts.significandScale = (0x123456789ABCDEF, 9) ∧
    ((0x123456789ABCDEF : Nat) : ℚ) * 2 ^ (9 : Int) ≤
      (0x123456789ABCDEF0123456789ABCDEF : Nat) * 2 ^ (-55 : Int) := by
  have hnumber : ascending.number = 0x123456789ABCDEF0123456789ABCDEF := by decide
  have hbeyond : HexDigit.beyond ascending.digits = 16 := by decide
  have hexponent : |ascending.exponent| < 2 ^ 30 := by decide
  obtain ⟨m, s, -, hscale, hm, hs, -, -, -, hbelow, -, -⟩ :=
    significandScale_truncates (x := ascending) rfl (by decide) hexponent
  rw [hnumber, hbeyond] at hm
  obtain rfl : m = 0x123456789ABCDEF := hm
  obtain rfl : s = 9 := hs.trans (by decide)
  rw [hnumber] at hbelow
  exact ⟨by decide, rfl, by decide, hexponent, hscale, hbelow⟩

end Form
end Numeral
end LuaFront
