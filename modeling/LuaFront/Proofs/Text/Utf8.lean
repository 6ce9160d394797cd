import LuaFront.Text.Utf8
import Mathlib.Tactic.IntervalCases

/-!
# LuaFront.Proofs.Text.Utf8

The scheme of one to six bytes for values below `2^31`.

* `Utf8.decodeValue?`: reads the value of one leading byte and the continuation bytes it announces,
  whether or not a shorter form would do. `Utf8.decodeValues?` reads values up to the end.
* `Utf8.decodeValues?_encodeValue`: values in a row are read back.
* `Utf8.length_encodeValue_le`: no form of a value is shorter than the one that is written.
* `Utf8.write_eq`: written from the last byte on, a value fits a buffer of six bytes.
* `Utf8.encodeValue_toNat`: a character is written as it is in UTF-8.
-/

namespace LuaFront
namespace Text
namespace Utf8

/-! ## Reading values -/

/-- The number of continuation bytes that a leading byte announces, and what it adds itself. -/
def leading? (b : UInt8) : Option (Nat × Nat) :=
  if b.toNat < 0x80 then some (0, b.toNat)
  else if b.toNat < 0xC0 then none
  else if b.toNat < 0xE0 then some (1, b.toNat - 0xC0)
  else if b.toNat < 0xF0 then some (2, b.toNat - 0xE0)
  else if b.toNat < 0xF8 then some (3, b.toNat - 0xF0)
  else if b.toNat < 0xFC then some (4, b.toNat - 0xF8)
  else if b.toNat < 0xFE then some (5, b.toNat - 0xFC)
  else none

/-- Adds the six bits of each of the next continuation bytes to a value. -/
def continued? : Nat → Nat → List UInt8 → Option (Nat × List UInt8)
  | 0, value, bytes => some (value, bytes)
  | _ + 1, _, [] => none
  | count + 1, value, b :: r =>
    if isContinuation b then continued? count (value * 64 + b.toNat % 64) r else none

/-- The next value and the bytes behind it. -/
def decodeValue? : List UInt8 → Option (Nat × List UInt8)
  | [] => none
  | b :: r => (leading? b).bind fun lead => continued? lead.1 lead.2 r

theorem length_continued? {count value v : Nat} {bytes rest : List UInt8}
    (h : continued? count value bytes = some (v, rest)) : bytes.length = count + rest.length := by
  induction count generalizing value bytes with
  | zero =>
    cases h
    simp
  | succ count ih =>
    cases bytes with
    | nil => cases h
    | cons b r =>
      rw [continued?] at h
      split at h
      · rw [List.length_cons, ih h]
        omega
      · cases h

theorem length_decodeValue? {v : Nat} {bytes rest : List UInt8}
    (h : decodeValue? bytes = some (v, rest)) : rest.length < bytes.length := by
  cases bytes with
  | nil => cases h
  | cons b r =>
    obtain ⟨lead, -, h⟩ := Option.bind_eq_some_iff.1 h
    rw [List.length_cons, length_continued? h]
    omega

/-- The values of a byte string, up to its end. -/
def decodeValues? (bytes : List UInt8) : Option (List Nat) :=
  if bytes = [] then some []
  else
    match _h : decodeValue? bytes with
    | none => none
    | some (v, rest) => (decodeValues? rest).map (v :: ·)
termination_by bytes.length
decreasing_by exact length_decodeValue? _h

/-! ## Forms -/

/-- The mark of a leading byte, by the number of continuation bytes behind it. -/
def mark : Nat → Nat
  | 0 => 0
  | 1 => 0xC0
  | 2 => 0xE0
  | 3 => 0xF0
  | 4 => 0xF8
  | _ => 0xFC

/-- The values that fit behind so many continuation bytes are those below this one. -/
def capacity : Nat → Nat
  | 0 => 0x80
  | 1 => 0x800
  | 2 => 0x10000
  | 3 => 0x200000
  | 4 => 0x4000000
  | 5 => 0x80000000
  | _ => 0

theorem lt_six_of_lt_capacity {v count : Nat} (h : v < capacity count) : count < 6 := by
  by_contra hle
  obtain ⟨n, rfl⟩ : ∃ n, count = n + 6 := ⟨count - 6, by omega⟩
  exact absurd h (Nat.not_lt_zero v)

theorem capacity_mono : ∀ n < 6, ∀ m ≤ n, capacity m ≤ capacity n := by decide

/-- A value is written with the least number of continuation bytes behind which it fits. -/
theorem encodeValue_cases {v : Nat} (h : v < 0x80000000) :
    ∃ count, encodeValue v = sequence (mark count) count v ∧ v < capacity count ∧
      ∀ n, v < capacity n → count ≤ n := by
  have hleast {count : Nat} (hcount : count < 6) (hle : ¬v < capacity count) (n : Nat)
      (hn : v < capacity n) : count + 1 ≤ n := by
    by_contra hlt
    have := capacity_mono count hcount n (by omega)
    omega
  unfold encodeValue
  split
  next h0 => exact ⟨0, rfl, h0, fun n _ => Nat.zero_le n⟩
  split
  next h0 h1 => exact ⟨1, rfl, h1, hleast (by decide) h0⟩
  split
  next h1 h2 => exact ⟨2, rfl, h2, hleast (by decide) h1⟩
  split
  next h2 h3 => exact ⟨3, rfl, h3, hleast (by decide) h2⟩
  split
  next h3 h4 => exact ⟨4, rfl, h4, hleast (by decide) h3⟩
  next h4 => exact ⟨5, rfl, h, hleast (by decide) h4⟩

theorem length_sequence (lead count v : Nat) : (sequence lead count v).length = count + 1 := by
  simp [sequence]

theorem encodeValue_ne_nil (v : Nat) : encodeValue v ≠ [] := by
  unfold encodeValue
  split_ifs <;> simp [sequence]

/-! ## Reading back -/

theorem isContinuation_continuation (v i : Nat) :
    isContinuation (continuation v i) = true ∧ (continuation v i).toNat % 64 = v >>> (6 * i) % 64 := by
  have hbyte : (continuation v i).toNat = 0x80 + v >>> (6 * i) % 64 := by
    rw [continuation, UInt8.toNat_ofNat']
    omega
  refine ⟨?_, by omega⟩
  simp only [isContinuation, Bool.and_eq_true, decide_eq_true_eq, UInt8.le_iff_toNat_le]
  exact ⟨by rw [hbyte]; simp, by rw [hbyte]; simp; omega⟩

/-- The continuation bytes of a value add what its leading bits leave out. -/
theorem continued?_sequence (count v : Nat) (rest : List UInt8) :
    continued? count (v >>> (6 * count))
      ((List.range count).reverse.map (continuation v) ++ rest) = some (v, rest) := by
  induction count with
  | zero => simp [continued?]
  | succ count ih =>
    obtain ⟨hcontinues, hbits⟩ := isContinuation_continuation v count
    have hvalue : v >>> (6 * (count + 1)) * 64 + v >>> (6 * count) % 64 = v >>> (6 * count) := by
      rw [show 6 * (count + 1) = 6 * count + 6 from rfl, Nat.shiftRight_add,
        Nat.shiftRight_eq_div_pow _ 6]
      exact Nat.div_add_mod' ..
    rw [List.range_succ, List.reverse_append]
    simp only [List.reverse_singleton, List.map_cons, List.cons_append,
      continued?, hcontinues, if_true, hbits, hvalue]
    exact ih

/-- The bits that a leading byte carries stay below its mark for one byte more. -/
theorem mark_add_capacity : ∀ count < 6, mark count + capacity count >>> (6 * count) < 256 := by
  decide

/-- What the leading byte of a form says. -/
theorem leading?_mark {v count : Nat} (h : v < capacity count) :
    leading? (UInt8.ofNat (mark count + v >>> (6 * count))) = some (count, v >>> (6 * count)) := by
  have hcount := lt_six_of_lt_capacity h
  have hbits : v >>> (6 * count) < capacity count >>> (6 * count) := by
    rw [Nat.shiftRight_eq_div_pow, Nat.shiftRight_eq_div_pow]
    interval_cases count <;> simp only [capacity] at h ⊢ <;> omega
  generalize v >>> (6 * count) = bits at hbits
  have hbyte : (UInt8.ofNat (mark count + bits)).toNat = mark count + bits := by
    have := mark_add_capacity count hcount
    rw [UInt8.toNat_ofNat']
    omega
  rw [leading?, hbyte]
  clear hbyte h
  interval_cases count <;> simp only [capacity, mark, Nat.reduceMul, Nat.reduceShiftRight] at hbits ⊢ <;>
    simp (disch := omega) only [if_pos, if_neg, Nat.add_sub_cancel_left, Nat.zero_add]

theorem decodeValue?_encodeValue {v : Nat} (h : v < 0x80000000) (rest : List UInt8) :
    decodeValue? (encodeValue v ++ rest) = some (v, rest) := by
  obtain ⟨count, hencode, hfits, -⟩ := encodeValue_cases h
  rw [hencode, sequence, List.cons_append, decodeValue?, leading?_mark hfits, Option.bind_some]
  exact continued?_sequence count v rest

/-- Values in a row are read back. -/
theorem decodeValues?_encodeValue {vs : List Nat} (h : ∀ v ∈ vs, v < 0x80000000) :
    decodeValues? (vs.flatMap encodeValue) = some vs := by
  induction vs with
  | nil => rw [List.flatMap_nil, decodeValues?, if_pos rfl]
  | cons v later ih =>
    rw [List.forall_mem_cons] at h
    have hread := decodeValue?_encodeValue h.1 (later.flatMap encodeValue)
    rw [List.flatMap_cons, decodeValues?, if_neg (by simp [encodeValue_ne_nil])]
    split
    next hnone => cases hnone.symm.trans hread
    next v' rest hsome =>
      cases hsome.symm.trans hread
      rw [ih h.2]
      rfl

/-! ## Shortest forms -/

theorem continued?_lt {count value v bound : Nat} {bytes rest : List UInt8}
    (h : continued? count value bytes = some (v, rest)) (hvalue : value < bound) :
    v < bound <<< (6 * count) := by
  induction count generalizing value bound bytes with
  | zero =>
    cases h
    exact hvalue
  | succ count ih =>
    cases bytes with
    | nil => cases h
    | cons b r =>
      rw [continued?] at h
      split at h
      · have hnext : value * 64 + b.toNat % 64 < bound <<< 6 := by
          rw [Nat.shiftLeft_eq]
          omega
        rw [show 6 * (count + 1) = 6 + 6 * count by omega, Nat.shiftLeft_add]
        exact ih h hnext
      · cases h

/-- What is read from a form fits behind its continuation bytes. -/
theorem lt_capacity_of_decodeValue? {v : Nat} {form rest : List UInt8}
    (h : decodeValue? form = some (v, rest)) :
    ∃ count, form.length = count + 1 + rest.length ∧ v < capacity count := by
  cases form with
  | nil => cases h
  | cons b r =>
    obtain ⟨⟨count, bits⟩, hlead, h⟩ := Option.bind_eq_some_iff.1 h
    have hlt (bound : Nat) (hbits : bits < bound) := continued?_lt h hbits
    refine ⟨count, by rw [List.length_cons, length_continued? h]; omega, ?_⟩
    have hb := b.toNat_lt
    unfold leading? at hlead
    split_ifs at hlead <;> cases hlead
    · exact hlt 0x80 (by omega)
    · exact hlt 0x20 (by omega)
    · exact hlt 0x10 (by omega)
    · exact hlt 0x8 (by omega)
    · exact hlt 0x4 (by omega)
    · exact hlt 0x2 (by omega)

/-- No form of a value is shorter than the one that is written. -/
theorem length_encodeValue_le {v : Nat} (h : v < 0x80000000) {form rest : List UInt8}
    (hform : decodeValue? (form ++ rest) = some (v, rest)) :
    (encodeValue v).length ≤ form.length := by
  obtain ⟨count, hencode, -, hleast⟩ := encodeValue_cases h
  obtain ⟨n, hlength, hfits⟩ := lt_capacity_of_decodeValue? hform
  have := hleast n hfits
  rw [List.length_append] at hlength
  rw [hencode, length_sequence]
  omega

/-! ## Characters -/

theorem toNat_lt (c : Char) : c.toNat < 0x110000 := by
  have hvalid := c.valid
  simp only [UInt32.isValidChar, Nat.isValidChar] at hvalid
  change c.val.toNat < 0x110000
  omega

/-- A character is written as it is in UTF-8. -/
theorem encodeValue_toNat (c : Char) : encodeValue c.toNat = String.utf8EncodeChar c := by
  have hlt := toNat_lt c
  have hvalue : c.val.toNat = c.toNat := rfl
  unfold encodeValue String.utf8EncodeChar
  simp only [hvalue]
  generalize c.toNat = v at hlt
  by_cases h0 : v < 0x80
  · simp (disch := omega) only [if_pos]
    simp [sequence]
  by_cases h1 : v < 0x800
  · have hlead : v / 64 % 32 = v / 64 := by omega
    simp (disch := omega) only [if_pos, if_neg, hlead]
    simp [sequence, continuation, List.range_succ, Nat.shiftRight_eq_div_pow, UInt8.add_comm]
  by_cases h2 : v < 0x10000
  · have hlead : v / 4096 % 16 = v / 4096 := by omega
    simp (disch := omega) only [if_pos, if_neg, hlead]
    simp [sequence, continuation, List.range_succ, Nat.shiftRight_eq_div_pow, UInt8.add_comm]
  have hlead : v / 262144 % 8 = v / 262144 := by omega
  simp (disch := omega) only [if_pos, if_neg, hlead]
  simp [sequence, continuation, List.range_succ, Nat.shiftRight_eq_div_pow, UInt8.add_comm]

/-! ## Writing from the last byte on -/

/-- Writes a value in front of some bytes, the last byte first, into what room is left. A leading
byte may carry what does not pass `limit`, half as much with each byte behind it. -/
def fill : Nat → UInt32 → UInt32 → List UInt8 → Option (List UInt8)
  | room + 2, limit, value, bytes =>
    if value >>> 6 ≤ limit >>> 1 then
      some ((~~~(limit >>> 1) <<< 1 ||| value >>> 6).toUInt8 ::
        (0x80 ||| (value &&& 0x3F).toUInt8) :: bytes)
    else fill (room + 1) (limit >>> 1) (value >>> 6) ((0x80 ||| (value &&& 0x3F).toUInt8) :: bytes)
  | _, _, _, _ => none

/-- Writes a value into a buffer of six bytes, if it fits. -/
def write (value : UInt32) : Option (List UInt8) :=
  if value < 0x80 then some [value.toUInt8] else fill 6 0x3F value []

/-- What a leading byte may carry in front of so many continuation bytes. -/
def limit (count : Nat) : UInt32 := 0x3F >>> UInt32.ofNat count

theorem limit_succ : ∀ count < 5, limit count >>> 1 = limit (count + 1) := by decide

theorem le_limit_iff {v count : Nat} (h : v < 0x80000000) (hcount : count < 5) :
    UInt32.ofNat (v >>> (6 * (count + 1))) ≤ limit (count + 1) ↔ v < capacity (count + 1) := by
  have hw : v >>> (6 * (count + 1)) < 0x80000000 :=
    Nat.lt_of_le_of_lt (Nat.shiftRight_le v _) h
  rw [UInt32.le_iff_toNat_le, UInt32.toNat_ofNat_of_lt' (by rw [UInt32.size]; omega),
    Nat.shiftRight_eq_div_pow]
  interval_cases count <;> simp [limit, capacity] <;> omega

theorem continuation_eq (v i : Nat) :
    (0x80 ||| (UInt32.ofNat (v >>> (6 * i)) &&& 0x3F).toUInt8 : UInt8) = continuation v i := by
  generalize hw : v >>> (6 * i) = w
  have hlow : w % 256 &&& 0x3F = w % 64 := by
    rw [show 0x3F = 2 ^ 6 - 1 from rfl, Nat.and_two_pow_sub_one_eq_mod]
    omega
  have hor : 0x80 ||| w % 64 = 0x80 + w % 64 :=
    (Nat.two_pow_add_eq_or_of_lt (i := 7) (by omega) 1).symm
  rw [continuation, hw, ← UInt8.toNat_inj]
  simp [hlow, hor]
  omega

theorem leading_eq : ∀ count < 5, ∀ w ≤ (limit (count + 1)).toNat,
    (~~~limit (count + 1) <<< 1 ||| UInt32.ofNat w).toUInt8 =
      UInt8.ofNat (mark (count + 1) + w) := by
  decide

theorem shiftRight_six {v : Nat} (h : v < 0x80000000) (i : Nat) :
    UInt32.ofNat (v >>> (6 * i)) >>> 6 = UInt32.ofNat (v >>> (6 * (i + 1))) := by
  have hw : v >>> (6 * i) < 0x80000000 := Nat.lt_of_le_of_lt (Nat.shiftRight_le v _) h
  rw [show 6 * (i + 1) = 6 * i + 6 from rfl, Nat.shiftRight_add]
  generalize v >>> (6 * i) = w at hw
  rw [← UInt32.toNat_inj]
  simp [Nat.shiftRight_eq_div_pow]
  omega

/-- When some continuation bytes are written, the others and the leading byte go in front. -/
theorem fill_sequence {v count : Nat} (h : v < 0x80000000) (hfits : v < capacity count)
    (hleast : ∀ n, v < capacity n → count ≤ n) {left written : Nat} (hleft : left + written = count)
    (hpos : 0 < left) :
    fill (6 - written) (limit written) (UInt32.ofNat (v >>> (6 * written)))
      ((List.range written).reverse.map (continuation v)) = some (sequence (mark count) count v) := by
  have hcount := lt_six_of_lt_capacity hfits
  have hnext : continuation v written :: (List.range written).reverse.map (continuation v) =
      (List.range (written + 1)).reverse.map (continuation v) := by
    simp [List.range_succ]
  induction left generalizing written with
  | zero => omega
  | succ left ih =>
    obtain ⟨room, hroom⟩ : ∃ room, 6 - written = room + 2 := ⟨4 - written, by omega⟩
    rw [hroom, fill, limit_succ written (by omega), shiftRight_six h, continuation_eq, hnext]
    split
    next hle =>
      obtain rfl : count = written + 1 := by
        have := hleast _ ((le_limit_iff h (by omega)).1 hle)
        omega
      have hbits : v >>> (6 * (written + 1)) < 0x80000000 :=
        Nat.lt_of_le_of_lt (Nat.shiftRight_le v _) h
      rw [UInt32.le_iff_toNat_le, UInt32.toNat_ofNat_of_lt' (by rw [UInt32.size]; omega)] at hle
      rw [leading_eq written (by omega) _ hle, sequence]
    next hnot =>
      have hmore : 0 < left := by
        by_contra hzero
        obtain rfl : count = written + 1 := by omega
        exact hnot ((le_limit_iff h (by omega)).2 hfits)
      rw [show room + 1 = 6 - (written + 1) by omega]
      exact ih (by omega) hmore (by simp [List.range_succ])

/-- A value fits a buffer of six bytes, and is written there in its shortest form. -/
theorem write_eq {v : UInt32} (h : v < 0x80000000) : write v = some (encodeValue v.toNat) := by
  rw [UInt32.lt_iff_toNat_lt] at h
  obtain ⟨count, hencode, hfits, hleast⟩ := encodeValue_cases h
  unfold write
  split
  next hsmall =>
    rw [UInt32.lt_iff_toNat_lt] at hsmall
    obtain rfl : count = 0 := Nat.le_zero.1 (hleast 0 hsmall)
    rw [hencode]
    simp [sequence, mark]
  next hlarge =>
    rw [UInt32.lt_iff_toNat_lt] at hlarge
    have hpos : 0 < count := by
      by_contra hzero
      obtain rfl : count = 0 := by omega
      exact hlarge hfits
    have hfill := fill_sequence h hfits hleast (Nat.add_zero count) hpos
    simpa [limit, hencode] using hfill

end Utf8
end Text
end LuaFront
