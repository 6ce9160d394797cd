import LuaFront.Token.Escape

/-!
# LuaFront.Proofs.Number.Digits

Numerals that are digits and nothing else, and how numbers are written as digits.

* `Numeral.decimal?_of_digits` and `Numeral.hexadecimal?_of_digits`: the value of a numeral of digits
  only, whatever their number.
* `Numeral.decimalValue_toDigits` and `Numeral.hexValue_hexDigits`: the digits of a number have its
  value.
-/

namespace LuaFront

/-- Two characters that a class tells apart are two. -/
theorem ne_of_class {p : Char → Bool} {c d : Char} (hc : p c = true) (hd : p d = false) : c ≠ d := by
  rintro rfl
  rw [hc] at hd
  cases hd

/-- A class without two marks has neither of them in it. -/
theorem marks_of_class {p : Char → Bool} {c x y : Char} (hc : p c = true) (hx : p x = false)
    (hy : p y = false) : (c == x || c == y) = false := by
  simp [ne_of_class hc hx, ne_of_class hc hy]

/-- Characters of a class are taken up to the first one that is not of it. -/
theorem takeWhile_of_stop {p : Char → Bool} {body rest : List Char} (hbody : ∀ c ∈ body, p c = true)
    (hrest : ∀ c, rest.head? = some c → p c = false) : (body ++ rest).takeWhile p = body := by
  rw [List.takeWhile_append_of_pos hbody]
  cases rest with
  | nil => simp
  | cons c r => simp [hrest c rfl]

theorem dropWhile_of_stop {p : Char → Bool} {body rest : List Char} (hbody : ∀ c ∈ body, p c = true)
    (hrest : ∀ c, rest.head? = some c → p c = false) : (body ++ rest).dropWhile p = rest := by
  rw [List.dropWhile_append_of_pos hbody]
  cases rest with
  | nil => rfl
  | cons c r => simp [hrest c rfl]

namespace Numeral

open Escape (hexValue)

/-! ## Decimal digits -/

theorem decimal?_of_digits {cs : List Char} (hne : cs ≠ []) (hcs : ∀ c ∈ cs, isDigit c = true)
    (hvalue : decimalValue cs < 0x8000000000000000) :
    decimal? cs = some (.integer (Int64.ofNat (decimalValue cs))) := by
  rw [decimal?, if_pos ⟨hne, List.all_eq_true.2 hcs, hvalue⟩]

theorem decimalValue_toDigits (n : Nat) : decimalValue (Nat.toDigits 10 n) = n := by
  have hstep : (fun (n : Nat) (c : Char) => n * 10 + (c.toNat - '0'.toNat)) =
      fun n c => 10 * n + (c.toNat - '0'.toNat) := by
    funext n c
    rw [Nat.mul_comm]
  rw [decimalValue, hstep]
  exact Nat.ofDigitChars_toDigits (by decide) (by decide)

theorem isDigit_of_mem_toDigits {n : Nat} {c : Char} (h : c ∈ Nat.toDigits 10 n) :
    isDigit c = true := by
  have := Nat.isDigit_of_mem_toDigits (by decide) (by decide) h
  simpa [isDigit, Char.isDigit, Char.le_def] using this

/-! ## Hexadecimal digits -/

/-- A digit with a small or with a capital letter. -/
def letter (capital : Bool) (c : Char) : Char := if capital then c.toUpper else c

/-- The digits of a number in base sixteen, with small or with capital letters. -/
def hexDigits (capital : Bool) (n : Nat) : List Char := (Nat.toDigits 16 n).map (letter capital)

theorem hexDigit?_letter {capital : Bool} {d : Nat} (h : d < 16) :
    hexDigit? (letter capital d.digitChar) = some d := by
  revert d capital
  decide

theorem hexDigits_eq_if (capital : Bool) (n : Nat) :
    hexDigits capital n =
      (if n < 16 then [] else hexDigits capital (n / 16)) ++
        [letter capital (n % 16).digitChar] := by
  rw [hexDigits, Nat.toDigits_eq_if (by decide)]
  split
  next h => simp [Nat.mod_eq_of_lt h]
  next => simp [hexDigits]

theorem hexDigits_ne_nil (capital : Bool) (n : Nat) : hexDigits capital n ≠ [] := by
  simp [hexDigits, Nat.toDigits_ne_nil]

theorem isHexDigit_of_mem_hexDigits {capital : Bool} {n : Nat} {c : Char}
    (h : c ∈ hexDigits capital n) : isHexDigit c = true := by
  induction n using Nat.strongRecOn with
  | ind n ih =>
    rw [hexDigits_eq_if] at h
    rcases List.mem_append.1 h with h | h
    · by_cases hlt : n < 16
      · rw [if_pos hlt] at h
        cases h
      · rw [if_neg hlt] at h
        exact ih (n / 16) (by omega) h
    · rw [List.mem_singleton.1 h, isHexDigit, hexDigit?_letter (Nat.mod_lt n (by decide))]
      rfl

theorem hexValue_hexDigits (capital : Bool) (n : Nat) : hexValue (hexDigits capital n) = n := by
  induction n using Nat.strongRecOn with
  | ind n ih =>
    rw [hexDigits_eq_if, hexValue, List.foldl_append, List.foldl_cons, List.foldl_nil, ← hexValue,
      hexDigit?_letter (Nat.mod_lt n (by decide)), Option.getD_some]
    by_cases hlt : n < 16
    · rw [if_pos hlt]
      simp [hexValue, Nat.mod_eq_of_lt hlt]
    · rw [if_neg hlt, ih (n / 16) (by omega)]
      omega

theorem mapM_hexDigit? {cs : List Char} (h : ∀ c ∈ cs, isHexDigit c = true) :
    cs.mapM hexDigit? = some (cs.map fun c => (hexDigit? c).getD 0) := by
  induction cs with
  | nil => rfl
  | cons c r ih =>
    rw [List.forall_mem_cons] at h
    obtain ⟨d, hd⟩ := Option.isSome_iff_exists.1 h.1
    simp [List.mapM_cons, hd, ih h.2]

/-- Digits are added up modulo `2^64` as they are without a bound. -/
theorem word_eq (ds : List Nat) :
    Hexadecimal.word ds = UInt64.ofNat (ds.foldl (fun n d => n * 16 + d) 0) := by
  have hfold (m : Nat) : ds.foldl (fun n d => n * 16 + UInt64.ofNat d) (UInt64.ofNat m) =
      UInt64.ofNat (ds.foldl (fun n d => n * 16 + d) m) := by
    induction ds generalizing m with
    | nil => rfl
    | cons d ds ih =>
      rw [List.foldl_cons, List.foldl_cons, ← ih, UInt64.ofNat_add, UInt64.ofNat_mul]
      rfl
  exact hfold 0

/-- A numeral of digits in base sixteen wraps around modulo `2^64`. -/
theorem hexadecimal?_of_digits {cs : List Char} (hne : cs ≠ [])
    (hcs : ∀ c ∈ cs, isHexDigit c = true) :
    hexadecimal? cs = some (.integer (UInt64.ofNat (hexValue cs)).toInt64) := by
  have hmark : ∀ c ∈ cs, (!(c == 'p' || c == 'P')) = true := by
    intro c hc
    rw [marks_of_class (hcs c hc) (by decide) (by decide)]
    rfl
  have hpoint : ∀ c ∈ cs, (c != '.') = true := by
    intro c hc
    have hpoint : c ≠ '.' := ne_of_class (hcs c hc) (by decide)
    simpa using hpoint
  have htake (p : Char → Bool) (h : ∀ c ∈ cs, p c = true) : cs.takeWhile p = cs := by
    have hstop : (cs ++ []).takeWhile p = cs := takeWhile_of_stop h (by simp)
    rwa [List.append_nil] at hstop
  have hdrop (p : Char → Bool) (h : ∀ c ∈ cs, p c = true) : cs.dropWhile p = [] := by
    have hstop : (cs ++ []).dropWhile p = [] := dropWhile_of_stop h (by simp)
    rwa [List.append_nil] at hstop
  have hread : Hexadecimal.read? cs = some ⟨cs.map fun c => (hexDigit? c).getD 0, none, none⟩ := by
    simp only [Hexadecimal.read?, htake _ hmark, hdrop _ hmark, htake _ hpoint, hdrop _ hpoint,
      mapM_hexDigit? hcs]
    simp [hne]
  rw [hexadecimal?, hread]
  simp only [Option.map_some, Hexadecimal.value, Hexadecimal.digits, word_eq, Option.getD_none,
    List.append_nil, List.foldl_map]
  rfl

end Numeral
end LuaFront
