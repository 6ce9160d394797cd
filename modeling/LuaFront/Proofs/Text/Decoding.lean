import LuaFront.Proofs.Text.Slice
import Mathlib.Tactic.SplitIfs

/-!
# LuaFront.Proofs.Text.Decoding

Which byte strings are text.

* `Utf8.Form`: the well-formed sequences of bytes, each with the character it stands for. They are
  the bytes that characters are written as (`Utf8.Form.encode`, `Utf8.form_encodeChar`).
* `Utf8.Form.decode_append` and `Utf8.decode_cases`: where a form comes next, decoding passes over
  it and gives its character, and nowhere else does it give one.
* `Utf8.decode?_eq_some_iff`: a byte string is read as a text if and only if it encodes it.
-/

namespace LuaFront
namespace Text
namespace Utf8

/-! ## Classes of bytes -/

theorem isContinuation_iff (b : UInt8) :
    isContinuation b = true ↔ 0x80 ≤ b.toNat ∧ b.toNat ≤ 0xBF := by
  simp [isContinuation, UInt8.le_iff_toNat_le]

theorem secondOfThree_iff (a b : UInt8) :
    secondOfThree a b = true ↔ (0x80 ≤ b.toNat ∧ b.toNat ≤ 0xBF) ∧
      (a.toNat = 0xE0 → 0xA0 ≤ b.toNat) ∧ (a.toNat = 0xED → b.toNat ≤ 0x9F) := by
  simp only [secondOfThree, ← UInt8.toNat_inj, UInt8.reduceToNat]
  split_ifs <;> simp [isContinuation_iff, UInt8.le_iff_toNat_le, *] <;> omega

theorem secondOfFour_iff (a b : UInt8) :
    secondOfFour a b = true ↔ (0x80 ≤ b.toNat ∧ b.toNat ≤ 0xBF) ∧
      (a.toNat = 0xF0 → 0x90 ≤ b.toNat) ∧ (a.toNat = 0xF4 → b.toNat ≤ 0x8F) := by
  simp only [secondOfFour, ← UInt8.toNat_inj, UInt8.reduceToNat]
  split_ifs <;> simp [isContinuation_iff, UInt8.le_iff_toNat_le, *] <;> omega

/-! ## Forms -/

/-- The well-formed sequences of bytes and their characters. -/
inductive Form : List UInt8 → Char → Prop where
  | one {a : UInt8} : a < 0x80 → Form [a] (Char.ofNat a.toNat)
  | two {a b : UInt8} : 0xC2 ≤ a → a ≤ 0xDF → isContinuation b = true →
      Form [a, b] (assemble (a.toNat % 32) [b])
  | three {a b c : UInt8} : 0xE0 ≤ a → a ≤ 0xEF → secondOfThree a b = true →
      isContinuation c = true → Form [a, b, c] (assemble (a.toNat % 16) [b, c])
  | four {a b c d : UInt8} : 0xF0 ≤ a → a ≤ 0xF4 → secondOfFour a b = true →
      isContinuation c = true → isContinuation d = true →
      Form [a, b, c, d] (assemble (a.toNat % 8) [b, c, d])

theorem val_ofNat {v : Nat} (h : v.isValidChar) : (Char.ofNat v).val.toNat = v := by
  rw [Char.ofNat, dif_pos h]
  rfl

/-- A form is what its character is written as. That it is the shortest one, and no surrogate, is
due to the bounds of its first two bytes. -/
theorem Form.encode {form : List UInt8} {c : Char} (h : Form form c) :
    String.utf8EncodeChar c = form := by
  cases h with
  | @one a ha =>
    simp only [UInt8.lt_iff_toNat_lt, UInt8.reduceToNat] at ha
    have hv := val_ofNat (v := a.toNat) (.inl (by omega))
    unfold String.utf8EncodeChar
    simp (disch := omega) only [hv, if_pos, UInt8.ofNat_toNat]
  | @two a b ha ha' hb =>
    simp only [UInt8.le_iff_toNat_le, UInt8.reduceToNat, isContinuation_iff] at ha ha' hb
    have hv := val_ofNat (v := a.toNat % 32 * 64 + b.toNat % 64) (.inl (by omega))
    unfold String.utf8EncodeChar
    simp only [assemble, List.foldl_cons, List.foldl_nil, hv]
    simp (disch := omega) only [if_pos, if_neg]
    simp only [List.cons.injEq, ← UInt8.toNat_inj, UInt8.toNat_ofNat', and_true]
    omega
  | @three a b c ha ha' hb hc =>
    simp only [UInt8.le_iff_toNat_le, UInt8.reduceToNat, isContinuation_iff,
      secondOfThree_iff] at ha ha' hb hc
    obtain ⟨hb, hshort, hsurrogate⟩ := hb
    have hv := val_ofNat (v := (a.toNat % 16 * 64 + b.toNat % 64) * 64 + c.toNat % 64)
      (by rw [Nat.isValidChar]; omega)
    unfold String.utf8EncodeChar
    simp only [assemble, List.foldl_cons, List.foldl_nil, hv]
    simp (disch := omega) only [if_pos, if_neg]
    simp only [List.cons.injEq, ← UInt8.toNat_inj, UInt8.toNat_ofNat', and_true]
    omega
  | @four a b c d ha ha' hb hc hd =>
    simp only [UInt8.le_iff_toNat_le, UInt8.reduceToNat, isContinuation_iff,
      secondOfFour_iff] at ha ha' hb hc hd
    obtain ⟨hb, hshort, hlast⟩ := hb
    have hv := val_ofNat
      (v := ((a.toNat % 8 * 64 + b.toNat % 64) * 64 + c.toNat % 64) * 64 + d.toNat % 64)
      (.inr (by omega))
    unfold String.utf8EncodeChar
    simp only [assemble, List.foldl_cons, List.foldl_nil, hv]
    simp (disch := omega) only [if_neg]
    simp only [List.cons.injEq, ← UInt8.toNat_inj, UInt8.toNat_ofNat', and_true]
    omega

/-- Every character is written as a form. -/
theorem form_encodeChar (c : Char) : Form (String.utf8EncodeChar c) c := by
  have hvalid := c.valid
  simp only [UInt32.isValidChar, Nat.isValidChar] at hvalid
  have hc : Char.ofNat c.val.toNat = c := Char.ofNat_toNat c
  have hbyte {n : Nat} (h : n < 256) : (UInt8.ofNat n).toNat = n := UInt8.toNat_ofNat_of_lt' h
  unfold String.utf8EncodeChar
  dsimp only
  generalize c.val.toNat = v at hvalid hc
  subst hc
  -- In each case the bytes are named, and the value is written in terms of them.
  split_ifs with hone htwo hthree
  · have ha := hbyte (n := v) (by omega)
    generalize UInt8.ofNat v = a at ha
    rw [← ha]
    refine .one ?_
    simp only [UInt8.lt_iff_toNat_lt, UInt8.reduceToNat]
    omega
  · have ha := hbyte (n := v / 64 % 32 + 192) (by omega)
    have hb := hbyte (n := v % 64 + 128) (by omega)
    generalize UInt8.ofNat (v / 64 % 32 + 192) = a at ha
    generalize UInt8.ofNat (v % 64 + 128) = b at hb
    rw [show v = a.toNat % 32 * 64 + b.toNat % 64 by omega]
    refine .two ?_ ?_ ?_ <;>
      simp only [UInt8.le_iff_toNat_le, UInt8.reduceToNat, isContinuation_iff] <;> omega
  · have ha := hbyte (n := v / 4096 % 16 + 224) (by omega)
    have hb := hbyte (n := v / 64 % 64 + 128) (by omega)
    have hc := hbyte (n := v % 64 + 128) (by omega)
    generalize UInt8.ofNat (v / 4096 % 16 + 224) = a at ha
    generalize UInt8.ofNat (v / 64 % 64 + 128) = b at hb
    generalize UInt8.ofNat (v % 64 + 128) = c at hc
    rw [show v = (a.toNat % 16 * 64 + b.toNat % 64) * 64 + c.toNat % 64 by omega]
    refine .three ?_ ?_ ?_ ?_ <;>
      simp only [UInt8.le_iff_toNat_le, UInt8.reduceToNat, isContinuation_iff,
        secondOfThree_iff] <;> omega
  · have ha := hbyte (n := v / 262144 % 8 + 240) (by omega)
    have hb := hbyte (n := v / 4096 % 64 + 128) (by omega)
    have hc := hbyte (n := v / 64 % 64 + 128) (by omega)
    have hd := hbyte (n := v % 64 + 128) (by omega)
    generalize UInt8.ofNat (v / 262144 % 8 + 240) = a at ha
    generalize UInt8.ofNat (v / 4096 % 64 + 128) = b at hb
    generalize UInt8.ofNat (v / 64 % 64 + 128) = c at hc
    generalize UInt8.ofNat (v % 64 + 128) = d at hd
    rw [show v = ((a.toNat % 8 * 64 + b.toNat % 64) * 64 + c.toNat % 64) * 64 + d.toNat % 64 by
      omega]
    refine .four ?_ ?_ ?_ ?_ ?_ <;>
      simp only [UInt8.le_iff_toNat_le, UInt8.reduceToNat, isContinuation_iff,
        secondOfFour_iff] <;> omega

/-! ## Decoding -/

/-- Decoding passes over a form. -/
theorem Form.decode_append {form : List UInt8} {c : Char} (h : Form form c) (rest : List UInt8) :
    decode (form ++ rest) = some c :: decode rest := by
  cases h with
  | one ha =>
    rw [decode.eq_def]
    simp [ha]
  | @two a b ha ha' hb =>
    have hne : ¬a < 0x80 := UInt8.not_lt.2 (UInt8.le_trans (by decide) ha)
    rw [decode.eq_def]
    simp [hne, ha, ha', hb]
  | @three a b c ha ha' hb hc =>
    have hne : ¬a < 0x80 := UInt8.not_lt.2 (UInt8.le_trans (by decide) ha)
    have hne2 : ¬a ≤ 0xDF := UInt8.not_le.2 (UInt8.lt_of_lt_of_le (by decide) ha)
    rw [decode.eq_def]
    simp [hne, hne2, ha, ha', hb, hc]
  | @four a b c d ha ha' hb hc hd =>
    have hne : ¬a < 0x80 := UInt8.not_lt.2 (UInt8.le_trans (by decide) ha)
    have hne2 : ¬a ≤ 0xDF := UInt8.not_le.2 (UInt8.lt_of_lt_of_le (by decide) ha)
    have hne3 : ¬a ≤ 0xEF := UInt8.not_le.2 (UInt8.lt_of_lt_of_le (by decide) ha)
    rw [decode.eq_def]
    simp [hne, hne2, hne3, ha, ha', hb, hc, hd]

/-- A byte string starts with a form or with something ill-formed. -/
theorem decode_cases (a : UInt8) (r : List UInt8) :
    (∃ form c rest, Form form c ∧ a :: r = form ++ rest) ∨
      ∃ later, decode (a :: r) = none :: later := by
  rw [decode.eq_def]
  dsimp only
  simp only [Bool.and_eq_true, decide_eq_true_eq]
  -- A leading byte says how many bytes a form takes, which is one if they are all there and fit.
  split_ifs with hone htwo hthree hfour
  · exact .inl ⟨_, _, _, .one hone, rfl⟩
  · split
    · exact .inr ⟨_, rfl⟩
    · split_ifs with hb
      · exact .inl ⟨_, _, _, .two htwo.1 htwo.2 hb, rfl⟩
      · exact .inr ⟨_, rfl⟩
  · split
    · exact .inr ⟨_, rfl⟩
    · split_ifs <;> exact .inr ⟨_, rfl⟩
    · split_ifs with hb hc
      · exact .inr ⟨_, rfl⟩
      · exact .inr ⟨_, rfl⟩
      · simp only [Bool.not_eq_true', Bool.not_eq_false] at hb hc
        exact .inl ⟨_, _, _, .three hthree.1 hthree.2 hb hc, rfl⟩
  · split
    · exact .inr ⟨_, rfl⟩
    · split_ifs <;> exact .inr ⟨_, rfl⟩
    · split_ifs <;> exact .inr ⟨_, rfl⟩
    · split_ifs with hb hc hd
      · exact .inr ⟨_, rfl⟩
      · exact .inr ⟨_, rfl⟩
      · exact .inr ⟨_, rfl⟩
      · simp only [Bool.not_eq_true', Bool.not_eq_false] at hb hc hd
        exact .inl ⟨_, _, _, .four hfour.1 hfour.2 hb hc hd, rfl⟩
  · exact .inr ⟨_, rfl⟩

theorem encode_cons (c : Char) (r : List Char) :
    encode (c :: r) = String.utf8EncodeChar c ++ encode r := rfl

/-- What a text is encoded as is decoded to its characters. -/
theorem decode_encode (text : List Char) : decode (encode text) = text.map some := by
  induction text with
  | nil => rfl
  | cons c r ih => rw [encode_cons, (form_encodeChar c).decode_append, ih, List.map_cons]

theorem decode_cons_ne_nil (a : UInt8) (r : List UInt8) : decode (a :: r) ≠ [] := by
  rcases decode_cases a r with ⟨form, c, rest, hform, hbytes⟩ | ⟨later, hlater⟩
  · rw [hbytes, hform.decode_append]
    exact List.cons_ne_nil _ _
  · rw [hlater]
    exact List.cons_ne_nil _ _

/-- A character is decoded from a form of it. -/
theorem exists_form_of_decode {c : Char} {later : List (Option Char)} {bytes : List UInt8}
    (h : decode bytes = some c :: later) :
    ∃ form rest, Form form c ∧ bytes = form ++ rest ∧ decode rest = later := by
  cases bytes with
  | nil => cases h
  | cons a r =>
    rcases decode_cases a r with ⟨form, d, rest, hform, hbytes⟩ | ⟨others, hothers⟩
    · rw [hbytes, hform.decode_append] at h
      obtain ⟨hd, hrest⟩ := List.cons.inj h
      cases hd
      exact ⟨form, rest, hform, hbytes, hrest⟩
    · cases hothers.symm.trans h

/-- Only what encodes a text is decoded to its characters. -/
theorem encode_of_decode {text : List Char} {bytes : List UInt8}
    (h : decode bytes = text.map some) : encode text = bytes := by
  induction text generalizing bytes with
  | nil =>
    cases bytes with
    | nil => rfl
    | cons a r => exact absurd h (decode_cons_ne_nil a r)
  | cons c text ih =>
    obtain ⟨form, rest, hform, hbytes, hrest⟩ := exists_form_of_decode h
    rw [encode_cons, hform.encode, ih hrest, hbytes]

/-- Nothing is ill-formed just if there is a character for each part. -/
theorem mapM_id_eq_some {parts : List (Option Char)} {text : List Char} :
    parts.mapM id = some text ↔ parts = text.map some := by
  induction parts generalizing text with
  | nil => cases text <;> simp
  | cons x parts ih =>
    cases x with
    | none => cases text <;> simp
    | some c =>
      cases text with
      | nil => simp [Option.bind_eq_some_iff]
      | cons d text => simpa [Option.bind_eq_some_iff, ih] using and_comm

/-- A byte string is read as a text if and only if it encodes it. -/
theorem decode?_eq_some_iff {bytes : List UInt8} {text : List Char} :
    decode? bytes = some text ↔ encode text = bytes := by
  rw [decode?, mapM_id_eq_some]
  constructor
  · exact encode_of_decode
  · rintro rfl
    exact decode_encode text

theorem decodeLossy_encode (text : List Char) : decodeLossy (encode text) = text := by
  rw [decodeLossy, decode_encode, List.map_map]
  exact List.map_id text

/-! ## Characters of one byte -/

theorem encodeChar_of_lt {c : Char} (h : c.toNat < 0x80) :
    String.utf8EncodeChar c = [UInt8.ofNat c.toNat] := by
  have hle : c.val.toNat ≤ 127 := Nat.le_of_lt_succ h
  simp only [String.utf8EncodeChar, hle, if_true]
  rfl

/-- The bytes of any other character are no characters of their own. -/
theorem le_of_mem_encodeChar {c : Char} (h : 0x80 ≤ c.toNat) {b : UInt8}
    (hb : b ∈ String.utf8EncodeChar c) : 0x80 ≤ b := by
  have hle : ¬c.val.toNat ≤ 127 := Nat.not_le_of_lt h
  simp only [UInt8.le_iff_toNat_le, UInt8.reduceToNat]
  simp only [String.utf8EncodeChar, hle, if_false] at hb
  split_ifs at hb <;> simp only [List.mem_cons, List.not_mem_nil, or_false] at hb
  · rcases hb with rfl | rfl <;> rw [UInt8.toNat_ofNat'] <;> omega
  · rcases hb with rfl | rfl | rfl <;> rw [UInt8.toNat_ofNat'] <;> omega
  · rcases hb with rfl | rfl | rfl | rfl <;> rw [UInt8.toNat_ofNat'] <;> omega

end Utf8
end Text
end LuaFront
