import LuaFront.Proofs.Number.Digits
import Mathlib.Data.Nat.Digits.Defs
import Mathlib.Data.Set.List

/-!
# LuaFront.Proofs.Number.Written

Digits as they are written, and the numbers that they write.

* `DecimalDigit` and `HexDigit`: a digit with the character that stands for it. Every character
  that passes for a digit is one of them (`DecimalDigit.exists_chars`, `HexDigit.exists_chars`).
* `Numeral.decimalValue_chars` and `Escape.hexValue_chars`: digits are added up to the number that
  they write, as `Nat.ofDigits` has it, least digit first.
* `Numeral.Hexadecimal.toNat_word_append`: adding a digit to a word of 64 bits does not carry out of
  it.
-/

namespace LuaFront

/-- A digit of base ten. -/
abbrev DecimalDigit := Fin 10

/-- A digit of base sixteen. From ten on it is a letter, a small one or a capital one. -/
structure HexDigit where
  value : Fin 16
  capital : Bool
deriving DecidableEq

def DecimalDigit.char (d : DecimalDigit) : Char := Nat.digitChar d

def HexDigit.char (d : HexDigit) : Char := Numeral.letter d.capital (Nat.digitChar d.value)

/-- The number that some digits write, of which the first one weighs most. -/
def DecimalDigit.number (ds : List DecimalDigit) : Nat := Nat.ofDigits 10 (ds.map Fin.val).reverse

def HexDigit.number (ds : List HexDigit) : Nat := Nat.ofDigits 16 (ds.map (·.value.val)).reverse

/-- Adding up digits from the first one on gives the number they write. -/
theorem foldl_digits (base : Nat) (ds : List Nat) :
    ds.foldl (fun n d => n * base + d) 0 = Nat.ofDigits base ds.reverse := by
  rw [Nat.ofDigits_eq_foldr, List.foldr_reverse]
  congr 1
  funext n d
  rw [Nat.mul_comm, Nat.add_comm]
  rfl

/-- A character between two others is one of those between them. -/
theorem exists_of_between {lo hi : Char} {c : Char} (h : (lo ≤ c && c ≤ hi) = true) :
    ∃ k, k ≤ hi.toNat - lo.toNat ∧ c.toNat = lo.toNat + k := by
  simp only [Bool.and_eq_true, decide_eq_true_eq, Char.le_def, UInt32.le_iff_toNat_le] at h
  obtain ⟨hlo, hhi⟩ := h
  have hlo' : lo.toNat ≤ c.toNat := hlo
  have hhi' : c.toNat ≤ hi.toNat := hhi
  exact ⟨c.toNat - lo.toNat, by omega, by omega⟩

/-! ## Base ten -/

namespace DecimalDigit

theorem isDigit_char (d : DecimalDigit) : Numeral.isDigit d.char = true := by
  revert d
  decide

theorem toNat_char (d : DecimalDigit) : d.char.toNat - '0'.toNat = d := by
  revert d
  decide

theorem exists_char {c : Char} (h : Numeral.isDigit c = true) : ∃ d : DecimalDigit, d.char = c := by
  obtain ⟨k, hk, hc⟩ := exists_of_between h
  have hlt : k < 10 := Nat.lt_succ_of_le hk
  refine ⟨⟨k, hlt⟩, Char.toNat_inj.1 ?_⟩
  rw [hc]
  clear hc hk h
  revert k
  decide

/-- Characters that pass for digits of base ten are such digits. -/
theorem exists_chars {cs : List Char} (h : ∀ c ∈ cs, Numeral.isDigit c = true) :
    ∃ ds : List DecimalDigit, ds.map char = cs :=
  (Set.range_list_map char).ge fun c hc => exists_char (h c hc)

end DecimalDigit

theorem Numeral.decimalValue_chars (ds : List DecimalDigit) :
    decimalValue (ds.map DecimalDigit.char) = DecimalDigit.number ds := by
  rw [DecimalDigit.number, ← foldl_digits, decimalValue, List.foldl_map, List.foldl_map]
  simp only [DecimalDigit.toNat_char]

/-! ## Base sixteen -/

namespace HexDigit

theorem hexDigit?_char (d : HexDigit) : Numeral.hexDigit? d.char = some d.value.val :=
  Numeral.hexDigit?_letter d.value.isLt

theorem isHexDigit_char (d : HexDigit) : Numeral.isHexDigit d.char = true := by
  rw [Numeral.isHexDigit, hexDigit?_char]
  rfl

theorem exists_char {c : Char} (h : Numeral.isHexDigit c = true) : ∃ d : HexDigit, d.char = c := by
  have hletter {lo hi : Char} (capital : Bool) (first : Nat) (hc : (lo ≤ c && c ≤ hi) = true)
      (hchars : ∀ k, k ≤ hi.toNat - lo.toNat → ∃ h : first + k < 16,
        (char ⟨⟨first + k, h⟩, capital⟩).toNat = lo.toNat + k) : ∃ d : HexDigit, d.char = c := by
    obtain ⟨k, hk, hk'⟩ := exists_of_between hc
    obtain ⟨hlt, heq⟩ := hchars k hk
    exact ⟨⟨⟨first + k, hlt⟩, capital⟩, Char.toNat_inj.1 (heq.trans hk'.symm)⟩
  unfold Numeral.isHexDigit Numeral.hexDigit? at h
  split at h
  next hc => exact hletter false 0 hc (by decide)
  split at h
  next hc => exact hletter false 10 hc (by decide)
  split at h
  next hc => exact hletter true 10 hc (by decide)
  next => cases h

/-- Characters that pass for digits of base sixteen are such digits. -/
theorem exists_chars {cs : List Char} (h : ∀ c ∈ cs, Numeral.isHexDigit c = true) :
    ∃ ds : List HexDigit, ds.map char = cs :=
  (Set.range_list_map char).ge fun c hc => exists_char (h c hc)

end HexDigit

theorem Escape.hexValue_chars (ds : List HexDigit) :
    hexValue (ds.map HexDigit.char) = HexDigit.number ds := by
  rw [HexDigit.number, ← foldl_digits, hexValue, List.foldl_map, List.foldl_map]
  simp only [HexDigit.hexDigit?_char, Option.getD_some]

/-! ## Words of 64 bits -/

namespace Numeral.Hexadecimal

/-- A product with sixteen has its last digit free. -/
theorem mul_add_lt (n : UInt64) {d : Nat} (hd : d < 16) : (n * 16).toNat + d < UInt64.size := by
  have hsize : UInt64.size = 0x10000000000000000 := rfl
  rw [UInt64.toNat_mul, hsize, show (16 : UInt64).toNat = 16 from rfl]
  omega

/-- Adding a digit does not carry out of a word: only the multiplication wraps around. -/
theorem toNat_word_append (ns : List Nat) {d : Nat} (hd : d < 16) :
    (word (ns ++ [d])).toNat = (word ns * 16).toNat + d := by
  have hlt := mul_add_lt (word ns) hd
  have hword : word (ns ++ [d]) = word ns * 16 + UInt64.ofNat d := by
    rw [word, List.foldl_append]
    rfl
  have hdigit : (UInt64.ofNat d).toNat = d := UInt64.toNat_ofNat_of_lt' (by omega)
  rw [hword, UInt64.toNat_add, hdigit]
  exact Nat.mod_eq_of_lt hlt

/-- Words are read as two's complements. -/
theorem toInt_toInt64 (n : Nat) : (UInt64.ofNat n).toInt64.toInt = Int.bmod n UInt64.size :=
  BitVec.toInt_ofNat n

end Numeral.Hexadecimal

theorem Escape.hexValue_zeros (n : Nat) (cs : List Char) :
    hexValue (List.replicate n '0' ++ cs) = hexValue cs := by
  induction n with
  | zero => rfl
  | succ n ih => exact ih

end LuaFront
