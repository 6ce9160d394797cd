import LuaFront.Proofs.Number.Binary64
import LuaFront.Proofs.Number.Grammar
import Mathlib.Data.Nat.Digits.Lemmas

/-!
# LuaFront.Proofs.Number.HexFloat

Which hexadecimal floats are exact.

* `Numeral.Form.scale` and `Numeral.Form.excess`: the power of two that the digits are multiplied
  with, and how many of them have no place in a significand.
* `Numeral.Hexadecimal.startScale_eq`: the digits after the point are counted without wrapping around,
  if there are fewer than `2^29`.
* `Numeral.Form.significandScale_parts`: the significand is the digits without the last ones, and the
  scale is off only where it is far out of range.
* `Numeral.Form.float_eq_iff`: a numeral that stands for a number is read as that number, unless the
  power of two alone is out of range.
-/

namespace LuaFront
namespace Numeral

/-! ## Scales -/

/-- The exponent that is written, of any size. -/
def Power.toInt (p : Power) : Int :=
  if p.minus = some true then -(DecimalDigit.number p.digits : Int) else DecimalDigit.number p.digits

namespace Form

/-- The power of two by which the digits, taken as an integer, are scaled. -/
def scale (x : Form HexDigit) : Int :=
  (x.power.map Power.toInt).getD 0 - 4 * (x.fraction.getD []).length

/-- The number that all digits write. -/
def number (x : Form HexDigit) : Nat := HexDigit.number x.digits

/-- The number of significant digits beyond the fifteenth. -/
def excess (x : Form HexDigit) : Nat := (Nat.digits 16 x.number).length - 15

end Form

/-- An exponent counts as what it is, or as one that is out of range too. -/
theorem Power.scale_cases (p : Power) :
    p.exponent.scale = p.toInt ∨ (p.exponent.scale = 0x3FFFFFFF ∧ 0x80000000 ≤ p.toInt) ∨
      (p.exponent.scale = -0x3FFFFFFF ∧ p.toInt ≤ -0x80000000) := by
  simp only [Exponent.scale, Power.exponent, decimalValue_chars, Power.toInt, beq_iff_eq]
  split <;> split <;> omega

namespace Hexadecimal

/-- Four for each of fewer than `2^29` digits do not wrap around. -/
theorem toInt_four_mul {n : Nat} (hn : n < 2 ^ 29) : (4 * Int32.ofNat n).toInt = 4 * n := by
  rw [Int32.toInt_mul, Int32.toInt_ofNat_of_lt (by omega), show (4 : Int32).toInt = 4 from rfl]
  exact Int.bmod_eq_of_le (by omega) (by omega)

theorem startScale_eq {h : Hexadecimal} (hplaces : (h.fraction.getD []).length < 2 ^ 29) :
    h.startScale =
      saturate ((h.exponent.map Exponent.scale).getD 0 - 4 * (h.fraction.getD []).length) := by
  rw [startScale, toInt_four_mul hplaces]

theorem startScale_bounds (h : Hexadecimal) :
    -0x80000000 ≤ h.startScale ∧ h.startScale ≤ 0x7FFFFFFF := by
  rw [startScale, saturate]
  omega

/-- Digits fill the significand up to its fifteenth place. The others are left out, and each of them
adds to the scale. -/
theorem foldl_addDigit {ds : List Nat} (hds : ∀ d ∈ ds, d < 16) {s : Int} (hlow : -0x80000000 ≤ s)
    (hhigh : s ≤ 0x7FFFFFFF) :
    ∃ k, k ≤ ds.length ∧
      ds.foldl addDigit (0, s) =
        (ds.foldl (fun n d => n * 16 + d) 0 / 16 ^ k, min 0x7FFFFFFF (s + 4 * k)) ∧
      ds.foldl (fun n d => n * 16 + d) 0 / 16 ^ k < 16 ^ 15 ∧
      (k ≠ 0 → 16 ^ 14 ≤ ds.foldl (fun n d => n * 16 + d) 0 / 16 ^ k) := by
  induction ds using List.reverseRecOn with
  | nil => exact ⟨0, Nat.le_refl 0, by simp [hhigh], by simp, fun h => absurd rfl h⟩
  | append_singleton ds d ih =>
    obtain ⟨k, hk, hfold, hlt, hfull⟩ := ih fun d hd => hds d (by simp [hd])
    have hd : d < 16 := hds d (by simp)
    simp only [List.foldl_append, List.foldl_cons, List.foldl_nil, hfold, addDigit,
      List.length_append, List.length_singleton, Nat.shiftLeft_eq]
    generalize ds.foldl (fun n d => n * 16 + d) 0 = D at hlt hfull
    by_cases hroom : D / 16 ^ k < 1 * 2 ^ 56
    · obtain rfl : k = 0 := by
        by_contra hne
        have := hfull hne
        omega
      rw [if_pos hroom]
      rw [pow_zero, Nat.div_one] at hroom
      refine ⟨0, by omega, by simp, ?_, fun h => absurd rfl h⟩
      rw [pow_zero, Nat.div_one]
      omega
    · have hsame : (D * 16 + d) / 16 ^ (k + 1) = D / 16 ^ k := by
        rw [pow_succ', ← Nat.div_div_eq_div_mul, show (D * 16 + d) / 16 = D by omega]
      rw [if_neg hroom]
      refine ⟨k + 1, by omega, ?_, by rw [hsame]; exact hlt, fun _ => by rw [hsame]; omega⟩
      rw [hsame, saturate]
      congr 1
      omega

/-- How many digits a number has beyond the fifteenth, if it fills fifteen without its last ones. -/
theorem length_digits_sub {n k : Nat} (hlt : n / 16 ^ k < 16 ^ 15)
    (hfull : k ≠ 0 → 16 ^ 14 ≤ n / 16 ^ k) : (Nat.digits 16 n).length - 15 = k := by
  have hpos : 0 < 16 ^ k := by positivity
  rw [Nat.div_lt_iff_lt_mul hpos, ← pow_add] at hlt
  have hle : (Nat.digits 16 n).length ≤ 15 + k := (Nat.digits_length_le_iff (by decide) n).2 hlt
  by_cases hk : k = 0
  · omega
  · have hge := hfull hk
    rw [Nat.le_div_iff_mul_le hpos, ← pow_add] at hge
    have : 14 + k < (Nat.digits 16 n).length := (Nat.lt_digits_length_iff (by decide) n).2 hge
    omega

end Hexadecimal

namespace Form

variable (x : Form HexDigit)

theorem digits_parts : x.parts.digits = x.digits.map (·.value.val) := by
  rcases x with ⟨whole, _ | fraction, power, nonempty⟩ <;>
    simp [parts, Hexadecimal.digits, Form.digits]

theorem foldl_digits_parts :
    (x.digits.map (·.value.val)).foldl (fun n d => n * 16 + d) 0 = x.number := by
  rw [foldl_digits]
  rfl

/-- How many digits are left out, if those that are not fill the significand. -/
theorem excess_eq {k : Nat} (hlt : x.number / 16 ^ k < 16 ^ 15)
    (hfull : k ≠ 0 → 16 ^ 14 ≤ x.number / 16 ^ k) : x.excess = k :=
  Hexadecimal.length_digits_sub hlt hfull

/-- The significand is all digits but those in excess, and the scale is right unless it is far out of
range. -/
theorem significandScale_parts (hlength : x.digits.length < 0x8000000) :
    ∃ s, x.parts.significandScale = (x.number / 16 ^ x.excess, s) ∧
      x.number / 16 ^ x.excess < 16 ^ 15 ∧
      (x.excess ≠ 0 → 16 ^ 14 ≤ x.number / 16 ^ x.excess) ∧
      (s = x.scale + 4 * x.excess ∨
        (1024 ≤ s ∧ 1024 ≤ x.scale + 4 * x.excess) ∨
        (s ≤ -1024 ∧ x.scale + 4 * x.excess ≤ -1200)) := by
  have hdigits : ∀ d ∈ x.digits.map (·.value.val), d < 16 := by
    intro d hd
    obtain ⟨digit, -, rfl⟩ := List.mem_map.1 hd
    exact digit.value.isLt
  have hplaces : (x.parts.fraction.getD []).length = (x.fraction.getD []).length := by
    rcases x with ⟨whole, _ | fraction, power, nonempty⟩ <;> simp [parts]
  have hfew : (x.fraction.getD []).length ≤ x.digits.length := by
    simp [Form.digits]
  have hstart := Hexadecimal.startScale_eq (h := x.parts) (by omega)
  obtain ⟨k, hk, hfold, hlt, hfull⟩ := Hexadecimal.foldl_addDigit hdigits
    x.parts.startScale_bounds.1 x.parts.startScale_bounds.2
  rw [foldl_digits_parts] at hfold hlt hfull
  rw [List.length_map] at hk
  obtain rfl := x.excess_eq hlt hfull
  refine ⟨_, Eq.trans ?_ hfold, hlt, hfull, ?_⟩
  · rw [Hexadecimal.significandScale, digits_parts]
  · have hexponent : (x.parts.exponent.map Exponent.scale).getD 0 =
          (x.power.map Power.toInt).getD 0 ∨
        ((x.parts.exponent.map Exponent.scale).getD 0 = 0x3FFFFFFF ∧
          0x80000000 ≤ (x.power.map Power.toInt).getD 0) ∨
        ((x.parts.exponent.map Exponent.scale).getD 0 = -0x3FFFFFFF ∧
          (x.power.map Power.toInt).getD 0 ≤ -0x80000000) := by
      rcases x with ⟨whole, fraction, _ | p, nonempty⟩
      · exact .inl rfl
      · exact p.scale_cases
    rw [hstart, hplaces, scale, saturate]
    generalize (x.parts.exponent.map Exponent.scale).getD 0 = computed at hexponent
    generalize (x.power.map Power.toInt).getD 0 = written at hexponent
    generalize (x.fraction.getD []).length = places at hfew
    generalize x.excess = excess at hk
    omega

/-! ## Values -/

theorem sixteen_pow (k : Nat) : (16 : ℚ) ^ k = 2 ^ (4 * k : Int) := by
  rw [show (4 * k : Int) = ((4 * k : Nat) : Int) by omega, zpow_natCast, pow_mul]
  norm_num

/-- Digits that stand for a number have none in excess but zeros. -/
theorem excess_dvd {y : Binary64} (hy : y.IsPlain)
    (hvalue : y.toRat = (x.number : ℚ) * 2 ^ x.scale)
    (hfull : x.excess ≠ 0 → 16 ^ 14 ≤ x.number / 16 ^ x.excess) : 16 ^ x.excess ∣ x.number := by
  by_cases hk : x.excess = 0
  · rw [hk, pow_zero]
    exact Nat.one_dvd _
  obtain ⟨i, n, hunits, rfl⟩ := Binary64.exists_units hy
  rw [Binary64.toRat_ofUnits hunits] at hvalue
  have hge := hfull hk
  rw [Nat.le_div_iff_mul_le (by positivity), ← pow_add] at hge
  have hlow : (2 : ℚ) ^ (4 * ((14 + x.excess : Nat) : Int) + x.scale) ≤ n * 2 ^ ((i : Int) - 1074) := by
    rw [hvalue, zpow_add₀ two_ne_zero, ← sixteen_pow]
    gcongr
    exact_mod_cast hge
  have hgap := Binary64.lt_of_zpow_le (k := 53) hunits.2.1 hlow
  obtain ⟨c, hc⟩ := Int.eq_ofNat_of_zero_le
    (show 0 ≤ (i : Int) - 1074 - x.scale - 4 * x.excess by omega)
  have hnumber : x.number = n * 2 ^ c * 16 ^ x.excess := by
    have hcast : (x.number : ℚ) = n * 2 ^ c * 16 ^ x.excess := by
      rw [sixteen_pow, mul_assoc, ← zpow_natCast, ← zpow_add₀ two_ne_zero,
        show (c : Int) + 4 * x.excess = (i : Int) - 1074 + -x.scale by omega,
        zpow_add₀ two_ne_zero, ← mul_assoc, hvalue, mul_assoc, ← zpow_add₀ two_ne_zero,
        add_neg_cancel, zpow_zero, mul_one]
    exact_mod_cast hcast
  exact ⟨_, hnumber.trans (Nat.mul_comm ..)⟩

/-- Their significand is a number, and so is its product with the power of two. -/
theorem exists_significand {y : Binary64} (hy : y.IsPlain)
    (hvalue : y.toRat = (x.number : ℚ) * 2 ^ x.scale)
    (hlt : x.number / 16 ^ x.excess < 16 ^ 15)
    (hfull : x.excess ≠ 0 → 16 ^ 14 ≤ x.number / 16 ^ x.excess) :
    ∃ a : Binary64, a.IsPlain ∧ Binary64.ofNat (x.number / 16 ^ x.excess) = a ∧
      a.toRat = (x.number / 16 ^ x.excess : Nat) ∧
      a.toRat * 2 ^ (x.scale + 4 * x.excess) = y.toRat := by
  have hdvd := x.excess_dvd hy hvalue hfull
  generalize hm : x.number / 16 ^ x.excess = m at hlt
  have hnumber : (x.number : ℚ) = m * 2 ^ (4 * x.excess : Int) := by
    rw [← sixteen_pow, ← hm]
    exact_mod_cast (Nat.div_mul_cancel hdvd).symm
  have hproduct : (m : ℚ) * 2 ^ (x.scale + 4 * x.excess) = y.toRat := by
    rw [hvalue, hnumber, add_comm, zpow_add₀ two_ne_zero, mul_assoc]
  have hbound : (m : ℚ) < 2 ^ (1024 : Int) := by
    calc (m : ℚ) < 16 ^ 15 := by exact_mod_cast hlt
      _ = 2 ^ (60 : Int) := by norm_num
      _ < 2 ^ (1024 : Int) := zpow_lt_zpow_right₀ one_lt_two (by decide)
  obtain ⟨a, ha, hvalue⟩ : ∃ a : Binary64, a.IsPlain ∧ a.toRat = m := by
    obtain ⟨i, n, hunits, rfl⟩ := Binary64.exists_units hy
    rw [Binary64.toRat_ofUnits hunits] at hproduct
    have hsignificand : (m : ℚ) = n * 2 ^ ((i : Int) - 1074 - (x.scale + 4 * x.excess)) := by
      rw [zpow_sub₀ two_ne_zero, ← mul_div_assoc, ← hproduct, mul_div_assoc,
        div_self (Binary64.two_zpow_pos _).ne', mul_one]
    generalize (i : Int) - 1074 - (x.scale + 4 * x.excess) = c at hsignificand
    -- Either the units are moved up to the significand, or it has no more bits than they have.
    by_cases hc : 0 ≤ c
    · rw [hsignificand] at hbound ⊢
      exact Binary64.exists_toRat hunits.2.1 (by omega) hbound
    · have hsmall : m ≤ n := by
        have hle : (2 : ℚ) ^ c ≤ 1 := zpow_le_one_of_nonpos₀ one_le_two (by omega)
        have : (m : ℚ) ≤ n := by
          rw [hsignificand]
          exact mul_le_of_le_one_right (Nat.cast_nonneg n) hle
        exact_mod_cast this
      have hzero := Binary64.exists_toRat (n := m) (e := 0) (by have := hunits.2.1; omega)
        (by decide) (by rw [zpow_zero, mul_one]; exact hbound)
      rw [zpow_zero, mul_one] at hzero
      exact hzero
  refine ⟨a, ha, Binary64.ofScaled_eq ha ?_, hvalue, by rw [hvalue, hproduct]⟩
  rw [zpow_zero, mul_one, hvalue]

/-- Zero times a power of two is zero, if the power is in range. -/
theorem zero_mul_twoPow (s : Int) :
    Binary64.zero.mul (Binary64.twoPow s) = if s < 1024 then Binary64.zero else Binary64.nan := by
  by_cases hhigh : s < 1024
  · rw [if_pos hhigh]
    by_cases hlow : -1024 < s
    · obtain ⟨hplain, -⟩ := Binary64.twoPow_spec hlow hhigh
      refine Binary64.mul_eq Binary64.isPlain_zero hplain Binary64.isPlain_zero ?_
      rw [Binary64.toRat_zero, zero_mul]
    · rw [Binary64.twoPow, if_neg (by omega), if_pos (by omega)]
      exact Binary64.mul_zero_of_isPlain Binary64.isPlain_zero
  · rw [if_neg hhigh, Binary64.twoPow, if_pos (by omega)]
    exact Binary64.zero_mul_infinity

/-- A numeral that stands for a number is read as that number just if the power of two is in range
where it matters. Otherwise a zero has become no number at all, and any other number zero. -/
theorem float_eq_iff (hlength : x.digits.length < 0x8000000) {y : Binary64} (hy : y.IsPlain)
    (hvalue : y.toRat = (x.number : ℚ) * 2 ^ x.scale) :
    (x.parts.float = y ↔
      if x.number = 0 then x.scale < 1024 else -1024 < x.scale + 4 * x.excess) ∧
    (x.parts.float ≠ y → x.parts.float = if x.number = 0 then Binary64.nan else Binary64.zero) := by
  obtain ⟨s, hscale, hlt, hfull, hagree⟩ := x.significandScale_parts hlength
  obtain ⟨a, ha, hofNat, hsignificand, hproduct⟩ := x.exists_significand hy hvalue hlt hfull
  have hfloat : x.parts.float = a.mul (Binary64.twoPow s) := by
    simp only [Hexadecimal.float, hscale, hofNat]
  rw [hfloat]
  by_cases hzero : x.number = 0
  · have hexcess : x.excess = 0 := by simp [excess, hzero]
    obtain rfl : a = Binary64.zero := by
      refine Binary64.toRat_injective ha Binary64.isPlain_zero ?_
      rw [hsignificand, hzero, Nat.zero_div, Nat.cast_zero, Binary64.toRat_zero]
    obtain rfl : y = Binary64.zero := by
      refine Binary64.toRat_injective hy Binary64.isPlain_zero ?_
      rw [hvalue, hzero, Nat.cast_zero, zero_mul, Binary64.toRat_zero]
    have hrange : s < 1024 ↔ x.scale < 1024 := by omega
    have hnan : Binary64.nan ≠ Binary64.zero := by decide
    rw [zero_mul_twoPow, if_pos hzero, if_pos hzero, ← hrange]
    by_cases hs : s < 1024
    · simp [hs]
    · simp [hs, hnan]
  · have hpos : y.toRat ≠ 0 := by
      rw [hvalue]
      exact mul_ne_zero (by exact_mod_cast hzero) (Binary64.two_zpow_pos _).ne'
    have hone : 2 ^ 0 ≤ x.number / 16 ^ x.excess := by
      by_contra hnone
      have hnil : x.number / 16 ^ x.excess = 0 := Nat.lt_one_iff.1 (not_le.1 hnone)
      rw [hnil, Nat.cast_zero] at hsignificand
      rw [hsignificand, zero_mul] at hproduct
      exact hpos hproduct.symm
    have hhigh : x.scale + 4 * x.excess < 1024 := by
      have hfinite := Binary64.toRat_lt hy
      rw [← hproduct, hsignificand] at hfinite
      have := Binary64.lt_of_lt_zpow hone hfinite
      omega
    rw [if_neg hzero, if_neg hzero]
    by_cases hlow : -1024 < x.scale + 4 * x.excess
    · obtain rfl : s = x.scale + 4 * x.excess := by omega
      obtain ⟨hplain, htwo⟩ := Binary64.twoPow_spec hlow hhigh
      have hexact : a.mul (Binary64.twoPow (x.scale + 4 * x.excess)) = y :=
        Binary64.mul_eq ha hplain hy (by rw [htwo, hproduct])
      exact ⟨⟨fun _ => hlow, fun _ => hexact⟩, fun hne => absurd hexact hne⟩
    · have hlost : a.mul (Binary64.twoPow s) = Binary64.zero := by
        rw [Binary64.twoPow, if_neg (by omega), if_pos (by omega)]
        exact Binary64.mul_zero_of_isPlain ha
      have hne : Binary64.zero ≠ y := by
        rintro rfl
        exact hpos Binary64.toRat_zero
      rw [hlost]
      exact ⟨⟨fun h => absurd h hne, fun h => absurd h hlow⟩, fun _ => rfl⟩

end Form
end Numeral
end LuaFront
