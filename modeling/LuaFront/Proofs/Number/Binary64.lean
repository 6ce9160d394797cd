import LuaFront.Number.Binary64
import Mathlib.Algebra.Order.Field.Power
import Mathlib.Data.Rat.Cast.Order
import Mathlib.Tactic.FieldSimp
import Mathlib.Tactic.Linarith
import Mathlib.Tactic.NormNum
import Mathlib.Tactic.Positivity
import Mathlib.Tactic.Ring

/-!
# LuaFront.Proofs.Number.Binary64

Rounding changes nothing where there is nothing to round.

* `Binary64.toRat`: the rational number that a finite number without a sign stands for.
* `Binary64.ofRatio_eq`: the number nearest to a fraction that is one is that number.
* `Binary64.exists_toRat`: a product of 53 bits with a power of two is a number, if it is neither too
  small nor too large.
* `Binary64.mul_eq`: a product that is a number is computed exactly.
-/

namespace LuaFront
namespace Binary64

/-- The finite numbers without a sign. -/
def IsPlain (x : Binary64) : Prop := x.isNegative = false ∧ x.field < 2047

instance (x : Binary64) : Decidable x.IsPlain := inferInstanceAs (Decidable (_ ∧ _))

/-- What a finite number without a sign stands for. -/
def toRat (x : Binary64) : ℚ := x.significand * 2 ^ x.exponent

/-! ## Bits -/

/-- The number of significant units `n` at the `i`-th exponent. -/
def ofUnits (i n : Nat) : Binary64 := ofMagnitude false ((i <<< 52) + n)

/-- Below the least normal number the exponent is the first one, and no number has more than 53
bits. -/
def Units (i n : Nat) : Prop := i ≤ 2045 ∧ n < 0x20000000000000 ∧ (n < 0x10000000000000 → i = 0)

theorem parts_ofMagnitude {f g : Nat} (hf : f < 2048) (hg : g < 0x10000000000000) :
    (ofMagnitude false ((f <<< 52) + g)).isNegative = false ∧
      (ofMagnitude false ((f <<< 52) + g)).field = f ∧
      (ofMagnitude false ((f <<< 52) + g)).fraction = g := by
  have hbits : (ofMagnitude false ((f <<< 52) + g)).bits.toNat = f * 0x10000000000000 + g := by
    rw [ofMagnitude, Nat.shiftLeft_eq]
    simp only [Bool.false_eq_true, if_false, Nat.zero_add]
    rw [UInt64.toNat_ofNat']
    omega
  refine ⟨?_, ?_, ?_⟩
  · rw [isNegative, hbits, Nat.shiftRight_eq_div_pow, beq_eq_false_iff_ne]
    omega
  · rw [field, hbits, Nat.shiftRight_eq_div_pow]
    omega
  · rw [fraction, hbits, Nat.shiftLeft_eq]
    omega

theorem parts_ofUnits {i n : Nat} (h : Units i n) :
    (ofUnits i n).IsPlain ∧ (ofUnits i n).significand = n ∧
      (ofUnits i n).exponent = (i : Int) - 1074 := by
  obtain ⟨hi, hn, hsmall⟩ := h
  by_cases hlt : n < 0x10000000000000
  · obtain rfl := hsmall hlt
    obtain ⟨hsign, hfield, hfraction⟩ := parts_ofMagnitude (f := 0) (by decide) hlt
    refine ⟨⟨hsign, by rw [ofUnits, hfield]; decide⟩, ?_, ?_⟩
    · rw [ofUnits, significand, hfield, if_pos rfl, hfraction]
    · rw [ofUnits, exponent, hfield]
      rfl
  · have hcarry : (i <<< 52) + n = ((i + 1) <<< 52) + (n - 0x10000000000000) := by
      rw [Nat.shiftLeft_eq, Nat.shiftLeft_eq]
      omega
    obtain ⟨hsign, hfield, hfraction⟩ := parts_ofMagnitude (f := i + 1)
      (g := n - 0x10000000000000) (by omega) (by omega)
    rw [ofUnits, hcarry]
    refine ⟨⟨hsign, by rw [hfield]; omega⟩, ?_, ?_⟩
    · rw [significand, hfield, if_neg (by omega), hfraction, Nat.shiftLeft_eq]
      omega
    · rw [exponent, hfield]
      omega

theorem ofMagnitude_parts {x : Binary64} (hx : x.isNegative = false) :
    x.fraction < 0x10000000000000 ∧ x = ofMagnitude false ((x.field <<< 52) + x.fraction) := by
  have hbits := x.bits.toNat_lt
  rw [isNegative, Nat.shiftRight_eq_div_pow, beq_eq_false_iff_ne] at hx
  have hnat : x.field <<< 52 + x.fraction = x.bits.toNat := by
    rw [field, fraction, Nat.shiftRight_eq_div_pow, Nat.shiftLeft_eq, Nat.shiftLeft_eq]
    omega
  refine ⟨Nat.mod_lt _ (by decide), ?_⟩
  rw [hnat, ofMagnitude]
  simp

/-- Every finite number without a sign has its units. -/
theorem exists_units {x : Binary64} (hx : x.IsPlain) : ∃ i n, Units i n ∧ x = ofUnits i n := by
  obtain ⟨hsign, hfield⟩ := hx
  obtain ⟨hfraction, hparts⟩ := ofMagnitude_parts hsign
  by_cases hzero : x.field = 0
  · refine ⟨0, x.fraction, ⟨by decide, by omega, fun _ => rfl⟩, ?_⟩
    rw [hzero] at hparts
    exact hparts
  · refine ⟨x.field - 1, 0x10000000000000 + x.fraction, ⟨by omega, by omega, by omega⟩, ?_⟩
    have hcarry : ((x.field - 1) <<< 52) + (0x10000000000000 + x.fraction) =
        (x.field <<< 52) + x.fraction := by
      rw [Nat.shiftLeft_eq, Nat.shiftLeft_eq]
      omega
    rw [ofUnits, hcarry]
    exact hparts

theorem toRat_ofUnits {i n : Nat} (h : Units i n) :
    (ofUnits i n).toRat = n * 2 ^ ((i : Int) - 1074) := by
  obtain ⟨-, hsignificand, hexponent⟩ := parts_ofUnits h
  rw [toRat, hsignificand, hexponent]

/-! ## Fractions -/

theorem two_zpow_pos (e : Int) : (0 : ℚ) < 2 ^ e := by positivity

theorem scaleTwo_spec (num : Nat) {den : Nat} (hden : 0 < den) (e : Int) :
    0 < (scaleTwo num den e).2 ∧
      ((scaleTwo num den e).1 : ℚ) / (scaleTwo num den e).2 = num / den * 2 ^ e := by
  unfold scaleTwo
  split
  next he =>
    refine ⟨hden, ?_⟩
    obtain ⟨k, rfl⟩ := Int.eq_ofNat_of_zero_le he
    simp only [Int.toNat_natCast, Nat.shiftLeft_eq, Nat.cast_mul, Nat.cast_pow, Nat.cast_ofNat,
      zpow_natCast]
    ring
  next he =>
    obtain ⟨k, hk⟩ := Int.eq_ofNat_of_zero_le (show 0 ≤ -e by omega)
    obtain rfl : e = -(k : Int) := by omega
    simp only [neg_neg, Int.toNat_natCast, Nat.shiftLeft_eq, Nat.cast_mul, Nat.cast_pow,
      Nat.cast_ofNat, zpow_neg, zpow_natCast]
    refine ⟨by positivity, ?_⟩
    field_simp

theorem log2_spec {n : Nat} (hn : 0 < n) :
    (2 : ℚ) ^ (n.log2 : Int) ≤ n ∧ (n : ℚ) < 2 ^ ((n.log2 : Int) + 1) := by
  have hle : 2 ^ n.log2 ≤ n := Nat.log2_self_le (by omega)
  have hlt : n < 2 ^ (n.log2 + 1) := Nat.lt_log2_self
  rw [show ((n.log2 : Int) + 1) = ((n.log2 + 1 : Nat) : Int) by omega, zpow_natCast, zpow_natCast]
  exact ⟨by exact_mod_cast hle, by exact_mod_cast hlt⟩

/-- The power of two found is the highest one that is not above the fraction. -/
theorem floorLog_spec {num den : Nat} (hnum : 0 < num) (hden : 0 < den) :
    (2 : ℚ) ^ floorLog num den ≤ num / den ∧ (num / den : ℚ) < 2 ^ (floorLog num den + 1) := by
  obtain ⟨hnumle, hnumlt⟩ := log2_spec hnum
  obtain ⟨hdenle, hdenlt⟩ := log2_spec hden
  have hpos : (0 : ℚ) < den := by exact_mod_cast hden
  generalize hguess : (num.log2 : Int) - den.log2 = guess
  have hlower : (2 : ℚ) ^ (guess - 1) < num / den := by
    rw [lt_div_iff₀ hpos]
    calc (2 : ℚ) ^ (guess - 1) * den < 2 ^ (guess - 1) * 2 ^ ((den.log2 : Int) + 1) := by gcongr
      _ = 2 ^ (num.log2 : Int) := by
        rw [← zpow_add₀ two_ne_zero]
        congr 1
        omega
      _ ≤ num := hnumle
  have hupper : (num / den : ℚ) < 2 ^ (guess + 1) := by
    rw [div_lt_iff₀ hpos]
    calc (num : ℚ) < 2 ^ ((num.log2 : Int) + 1) := hnumlt
      _ = 2 ^ (guess + 1) * 2 ^ (den.log2 : Int) := by
        rw [← zpow_add₀ two_ne_zero]
        congr 1
        omega
      _ ≤ 2 ^ (guess + 1) * den := by gcongr
  obtain ⟨hscaled, hquotient⟩ := scaleTwo_spec num hden (-guess)
  -- The guess is right just if the fraction, scaled down by it, is not below one.
  have hguessed : (scaleTwo num den (-guess)).2 ≤ (scaleTwo num den (-guess)).1 ↔
      (2 : ℚ) ^ guess ≤ num / den := by
    rw [← Nat.cast_le (α := ℚ), ← one_le_div₀ (by exact_mod_cast hscaled), hquotient, zpow_neg,
      ← div_eq_mul_inv, one_le_div₀ (two_zpow_pos guess)]
  simp only [floorLog, hguess, hguessed]
  split
  next h => exact ⟨h, hupper⟩
  next h =>
    rw [sub_add_cancel]
    exact ⟨hlower.le, not_le.1 h⟩

theorem roundDiv_eq {n d q : Nat} (hd : 0 < d) (h : (n : ℚ) / d = q) : roundDiv n d = q := by
  have hn : n = q * d := by
    rw [div_eq_iff (by exact_mod_cast hd.ne')] at h
    exact_mod_cast h
  subst hn
  simp [roundDiv, Nat.mul_div_cancel _ hd, hd]

/-- What is below `2^53` units is below the power of two that they are multiplied with. -/
theorem lt_of_zpow_le {n : Nat} {a b : Int} {k : Nat} (hn : n < 2 ^ k)
    (h : (2 : ℚ) ^ a ≤ n * 2 ^ b) : a < b + k := by
  have hcast : (n : ℚ) < 2 ^ (k : Int) := by
    rw [zpow_natCast]
    exact_mod_cast hn
  have hlt : (2 : ℚ) ^ a < 2 ^ (b + k) := by
    calc (2 : ℚ) ^ a ≤ n * 2 ^ b := h
      _ < 2 ^ (k : Int) * 2 ^ b := by gcongr
      _ = 2 ^ (b + k) := by rw [← zpow_add₀ two_ne_zero, add_comm]
  exact (zpow_lt_zpow_iff_right₀ one_lt_two).1 hlt

theorem lt_of_lt_zpow {n : Nat} {a b : Int} {k : Nat} (hn : 2 ^ k ≤ n)
    (h : (n : ℚ) * 2 ^ b < 2 ^ a) : b + k < a := by
  have hcast : (2 : ℚ) ^ (k : Int) ≤ n := by
    rw [zpow_natCast]
    exact_mod_cast hn
  have hlt : (2 : ℚ) ^ (b + k) < 2 ^ a := by
    calc (2 : ℚ) ^ (b + k) = 2 ^ (k : Int) * 2 ^ b := by rw [← zpow_add₀ two_ne_zero, add_comm]
      _ ≤ n * 2 ^ b := by gcongr
      _ < 2 ^ a := h
  exact (zpow_lt_zpow_iff_right₀ one_lt_two).1 hlt

/-- The exponent found for a number is its own. -/
theorem floorLog_units {i n num den : Nat} (h : Units i n) (hnum : 0 < num) (hden : 0 < den)
    (hvalue : (num / den : ℚ) = n * 2 ^ ((i : Int) - 1074)) :
    max (floorLog num den - 52) (-1074) = (i : Int) - 1074 := by
  obtain ⟨hi, hlarge, hsmall⟩ := h
  obtain ⟨hle, hlt⟩ := floorLog_spec hnum hden
  rw [hvalue] at hle hlt
  have hbelow := lt_of_zpow_le (k := 53) hlarge hle
  by_cases hsub : n < 0x10000000000000
  · have := hsmall hsub
    omega
  · have habove := lt_of_lt_zpow (k := 52) (not_lt.1 hsub) hlt
    omega

theorem nearestMagnitude_eq {i n num den : Nat} (h : Units i n) (hden : 0 < den)
    (hvalue : (num / den : ℚ) = n * 2 ^ ((i : Int) - 1074)) :
    nearestMagnitude num den = (i <<< 52) + n := by
  unfold nearestMagnitude
  split
  next hzero =>
    have hn : n = 0 := by
      have hpos := two_zpow_pos ((i : Int) - 1074)
      rw [hzero, Nat.cast_zero, zero_div, eq_comm, mul_eq_zero] at hvalue
      exact_mod_cast hvalue.resolve_right hpos.ne'
    have hi := h.2.2 (by omega)
    rw [hn, hi]
    rfl
  next hnonzero =>
    obtain ⟨hscaled, hquotient⟩ := scaleTwo_spec num hden (-((i : Int) - 1074))
    have hunits : ((scaleTwo num den (-((i : Int) - 1074))).1 : ℚ) /
        (scaleTwo num den (-((i : Int) - 1074))).2 = n := by
      rw [hquotient, hvalue, mul_assoc, ← zpow_add₀ two_ne_zero, add_neg_cancel, zpow_zero, mul_one]
    have hbound : (i <<< 52) + n ≤ infinityMagnitude := by
      obtain ⟨hi, hlarge, -⟩ := h
      rw [infinityMagnitude, Nat.shiftLeft_eq, Nat.shiftLeft_eq]
      omega
    simp only [floorLog_units h (Nat.pos_of_ne_zero hnonzero) hden hvalue]
    rw [roundDiv_eq hscaled hunits, sub_add_cancel, Int.toNat_natCast, Nat.min_eq_left hbound]

/-- A fraction that is a number is rounded to that number. -/
theorem ofRatio_eq {x : Binary64} (hx : x.IsPlain) {num den : Nat} (hden : 0 < den)
    (hvalue : (num / den : ℚ) = x.toRat) : ofRatio false num den = x := by
  obtain ⟨i, n, hunits, rfl⟩ := exists_units hx
  rw [toRat_ofUnits hunits] at hvalue
  rw [ofRatio, nearestMagnitude_eq hunits hden hvalue, ofUnits]

theorem ofScaled_eq {x : Binary64} (hx : x.IsPlain) {m : Nat} {e : Int}
    (hvalue : (m : ℚ) * 2 ^ e = x.toRat) : ofScaled false m e = x := by
  obtain ⟨hden, hquotient⟩ := scaleTwo_spec m Nat.one_pos e
  rw [Nat.cast_one, div_one, hvalue] at hquotient
  exact ofRatio_eq hx hden hquotient

/-- A number is what it stands for. -/
theorem toRat_injective {x y : Binary64} (hx : x.IsPlain) (hy : y.IsPlain)
    (h : x.toRat = y.toRat) : x = y := by
  have hself {z : Binary64} (hz : z.IsPlain) : ofScaled false z.significand z.exponent = z :=
    ofScaled_eq hz rfl
  rw [← hself hx]
  exact ofScaled_eq hy h

/-- Up to 53 bits at any exponent from the first on are a number, unless they are too many. -/
theorem exists_toRat {n : Nat} {e : Int} (hn : n < 0x20000000000000) (he : -1074 ≤ e)
    (hlt : (n : ℚ) * 2 ^ e < 2 ^ (1024 : Int)) : ∃ x : Binary64, x.IsPlain ∧ x.toRat = n * 2 ^ e := by
  obtain ⟨i, hi⟩ := Int.eq_ofNat_of_zero_le (show 0 ≤ e + 1074 by omega)
  obtain rfl : e = (i : Int) - 1074 := by omega
  clear he hi
  -- Units that are too few for their exponent are doubled, at the exponent before it.
  induction i generalizing n with
  | zero =>
    have hunits : Units 0 n := ⟨by decide, hn, fun _ => rfl⟩
    exact ⟨ofUnits 0 n, (parts_ofUnits hunits).1, toRat_ofUnits hunits⟩
  | succ i ih =>
    by_cases hfew : n < 0x10000000000000
    · have hdouble : (n : ℚ) * 2 ^ (((i + 1 : Nat) : Int) - 1074) =
          (n * 2 : Nat) * 2 ^ ((i : Int) - 1074) := by
        rw [show ((i + 1 : Nat) : Int) - 1074 = 1 + ((i : Int) - 1074) by omega,
          zpow_add₀ two_ne_zero, zpow_one, Nat.cast_mul, Nat.cast_ofNat, mul_assoc]
      rw [hdouble] at hlt ⊢
      exact ih (by omega) hlt
    · have hhigh := lt_of_lt_zpow (k := 52) (not_lt.1 hfew) hlt
      have hunits : Units (i + 1) n := ⟨by omega, hn, fun h => absurd h hfew⟩
      exact ⟨ofUnits (i + 1) n, (parts_ofUnits hunits).1, toRat_ofUnits hunits⟩

theorem toRat_lt {x : Binary64} (hx : x.IsPlain) : x.toRat < 2 ^ (1024 : Int) := by
  obtain ⟨i, n, hunits, rfl⟩ := exists_units hx
  have hcast : (n : ℚ) < 2 ^ (53 : Int) := by
    have := hunits.2.1
    norm_cast
  rw [toRat_ofUnits hunits]
  calc (n : ℚ) * 2 ^ ((i : Int) - 1074) < 2 ^ (53 : Int) * 2 ^ ((i : Int) - 1074) := by gcongr
    _ = 2 ^ (53 + ((i : Int) - 1074)) := (zpow_add₀ two_ne_zero _ _).symm
    _ ≤ 2 ^ (1024 : Int) := by
      have := hunits.1
      exact zpow_le_zpow_right₀ one_le_two (by omega)

/-! ## Products -/

theorem not_isNaN {x : Binary64} (hx : x.IsPlain) : x.isNaN = false ∧ x.isInfinite = false := by
  have hfield : (x.field == 2047) = false := beq_eq_false_iff_ne.2 hx.2.ne
  simp [isNaN, isInfinite, hfield]

/-- A product that is a number is computed exactly. -/
theorem mul_eq {a b x : Binary64} (ha : a.IsPlain) (hb : b.IsPlain) (hx : x.IsPlain)
    (hvalue : a.toRat * b.toRat = x.toRat) : mul a b = x := by
  have hproduct : ((a.significand * b.significand : Nat) : ℚ) * 2 ^ (a.exponent + b.exponent) =
      x.toRat := by
    rw [← hvalue, toRat, toRat, Nat.cast_mul, zpow_add₀ two_ne_zero]
    ring
  simp only [mul, (not_isNaN ha).1, (not_isNaN hb).1, (not_isNaN ha).2, (not_isNaN hb).2, ha.1, hb.1]
  exact ofScaled_eq hx hproduct

theorem isPlain_zero : zero.IsPlain := by decide

theorem toRat_zero : zero.toRat = 0 := by
  have hsignificand : zero.significand = 0 := by decide
  rw [toRat, hsignificand, Nat.cast_zero, zero_mul]

theorem mul_zero_of_isPlain {a : Binary64} (ha : a.IsPlain) : mul a zero = zero :=
  mul_eq ha isPlain_zero isPlain_zero (by rw [toRat_zero, mul_zero])

theorem zero_mul_infinity : mul zero infinity = nan := by decide

/-- Two to a power is a number from the first exponent that its inverse has on. -/
theorem twoPow_spec {e : Int} (hlow : -1024 < e) (hhigh : e < 1024) :
    (twoPow e).IsPlain ∧ (twoPow e).toRat = 2 ^ e := by
  obtain ⟨x, hx, hvalue⟩ := exists_toRat (n := 1) (e := e) (by decide) (by omega) (by
    rw [Nat.cast_one, one_mul]
    exact zpow_lt_zpow_right₀ one_lt_two hhigh)
  rw [Nat.cast_one, one_mul] at hvalue
  have htwo : twoPow e = x := by
    rw [twoPow, if_neg (by omega), if_neg (by omega)]
    exact ofScaled_eq hx (by rw [Nat.cast_one, one_mul, hvalue])
  rw [htwo]
  exact ⟨hx, hvalue⟩

end Binary64
end LuaFront
