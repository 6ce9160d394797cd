import LuaFront.Proofs.Text.Decoding
import LuaFront.Proofs.Token.RoundTrip
import LuaFront.Resolved.Printer

/-!
# LuaFront.Proofs.Resolved.Identifier

The keys that are printed behind a point.

* `Resolved.isIdentifier_iff`: the byte strings that pass for an identifier are those of a name,
  which is a word other than a keyword. No byte of a character that takes more than one passes, so
  testing the bytes of a text says what testing its characters does.
* `Scanner.readsAsName_iff`: the byte strings that are read as one name, and as nothing else, are
  those of a name too.
* `Resolved.isIdentifier_iff_readsAsName`: a key passes for an identifier, and is printed behind a
  point, if and only if it is read as one name.
-/

namespace LuaFront

open Scanner (isNameStart isNameChar)
open Text (Span)
open Text.Utf8 (encode)

/-- A word other than a keyword. -/
def IsName (word : List Char) : Prop := IsWord word ∧ ∀ k : Keyword, k.spelling ≠ String.ofList word

theorem isWord_iff {word : List Char} :
    IsWord word ↔ word.head?.any isNameStart = true ∧ word.all isNameChar = true := by
  rw [List.all_eq_true]
  constructor
  · rintro ⟨⟨c, r, rfl, hc⟩, hchars⟩
    exact ⟨hc, hchars⟩
  · rintro ⟨hstart, hchars⟩
    cases word with
    | nil => cases hstart
    | cons c r => exact ⟨⟨c, r, rfl, hstart⟩, hchars⟩

namespace Resolved

/-! ## Bytes -/

theorem isIdentifierStart_ofNat :
    ∀ v < 0x80, isIdentifierStart (UInt8.ofNat v) = isNameStart (Char.ofNat v) := by
  decide

theorem isIdentifierByte_ofNat :
    ∀ v < 0x80, isIdentifierByte (UInt8.ofNat v) = isNameChar (Char.ofNat v) := by
  decide

theorem isIdentifierByte_of_le {b : UInt8} (h : 0x80 ≤ b) : isIdentifierByte b = false := by
  have hgt {n : UInt8} (hn : n < 0x80) : ¬b ≤ n := UInt8.not_le.2 (UInt8.lt_of_lt_of_le hn h)
  have hne : b ≠ '_'.toUInt8 := by
    rintro rfl
    exact absurd h (by decide)
  simp [isIdentifierByte, isIdentifierStart, hne, hgt (n := 'z'.toUInt8) (by decide),
    hgt (n := 'Z'.toUInt8) (by decide), hgt (n := '9'.toUInt8) (by decide)]

theorem isNameChar_of_le {c : Char} (h : 0x80 ≤ c.toNat) : isNameChar c = false := by
  have hgt {d : Char} (hd : d.toNat < 0x80) : ¬c ≤ d := fun hle =>
    absurd (UInt32.le_iff_toNat_le.1 hle) (Nat.not_le.2 (Nat.lt_of_lt_of_le hd h))
  have hne : c ≠ '_' := by
    rintro rfl
    exact absurd h (by decide)
  simp [isNameChar, isNameStart, hne, hgt (d := 'z') (by decide), hgt (d := 'Z') (by decide),
    hgt (d := '9') (by decide)]

theorem exists_encodeChar_of_le {c : Char} (h : 0x80 ≤ c.toNat) :
    ∃ b r, String.utf8EncodeChar c = b :: r ∧ isIdentifierByte b = false := by
  obtain ⟨b, r, hbytes⟩ := List.exists_cons_of_ne_nil (String.utf8EncodeChar_ne_nil (c := c))
  refine ⟨b, r, hbytes, isIdentifierByte_of_le (Text.Utf8.le_of_mem_encodeChar h ?_)⟩
  rw [hbytes]
  exact List.mem_cons_self

/-- The bytes of a character pass just if it may stand in a name. -/
theorem all_encodeChar (c : Char) :
    (String.utf8EncodeChar c).all isIdentifierByte = isNameChar c := by
  by_cases h : c.toNat < 0x80
  · rw [Text.Utf8.encodeChar_of_lt h, List.all_cons, List.all_nil, Bool.and_true,
      isIdentifierByte_ofNat _ h, Char.ofNat_toNat]
  · obtain ⟨b, r, hbytes, hb⟩ := exists_encodeChar_of_le (Nat.not_lt.1 h)
    rw [hbytes, List.all_cons, hb, Bool.false_and, isNameChar_of_le (Nat.not_lt.1 h)]

/-- The first byte of a character passes as that of an identifier just if a name may start with the
character. -/
theorem any_head?_encodeChar (c : Char) :
    (String.utf8EncodeChar c).head?.any isIdentifierStart = isNameStart c := by
  by_cases h : c.toNat < 0x80
  · rw [Text.Utf8.encodeChar_of_lt h, List.head?_cons, Option.any_some,
      isIdentifierStart_ofNat _ h, Char.ofNat_toNat]
  · obtain ⟨b, r, hbytes, hb⟩ := exists_encodeChar_of_le (Nat.not_lt.1 h)
    have hc := isNameChar_of_le (Nat.not_lt.1 h)
    rw [isIdentifierByte, Bool.or_eq_false_iff] at hb
    rw [isNameChar, Bool.or_eq_false_iff] at hc
    rw [hbytes, List.head?_cons, Option.any_some, hb.1, hc.1]

theorem all_encode (text : List Char) :
    (encode text).all isIdentifierByte = text.all isNameChar := by
  simp only [encode, List.all_flatMap, all_encodeChar]

theorem any_head?_encode (text : List Char) :
    (encode text).head?.any isIdentifierStart = text.head?.any isNameStart := by
  cases text with
  | nil => rfl
  | cons c r =>
    obtain ⟨b, later, hbytes⟩ := List.exists_cons_of_ne_nil (String.utf8EncodeChar_ne_nil (c := c))
    have hc := any_head?_encodeChar c
    rw [hbytes] at hc
    rw [Text.Utf8.encode_cons, hbytes]
    exact hc

theorem isIdentifier_encode (text : List Char) :
    isIdentifier (encode text) = true ↔ IsName text := by
  rw [isIdentifier, any_head?_encode, all_encode, Text.Utf8.decode?_eq_some_iff.2 rfl,
    Option.any_some, Bool.and_eq_true, Bool.and_eq_true, ← isWord_iff, Option.isNone_iff_eq_none,
    Keyword.ofWord?_eq_none, IsName]

/-- The byte strings that pass for an identifier are those of a name. -/
theorem isIdentifier_iff {key : List UInt8} :
    isIdentifier key = true ↔ ∃ text, encode text = key ∧ IsName text := by
  constructor
  · intro h
    have hkeyword := h
    rw [isIdentifier, Bool.and_eq_true, Option.any_eq_true] at hkeyword
    obtain ⟨-, text, htext, -⟩ := hkeyword
    obtain rfl := Text.Utf8.decode?_eq_some_iff.1 htext
    exact ⟨text, rfl, (isIdentifier_encode text).1 h⟩
  · rintro ⟨text, rfl, hname⟩
    exact (isIdentifier_encode text).2 hname

end Resolved

/-! ## Reading -/

namespace Scanner

/-- Where a name is read, a name is written. -/
theorem isName_of_mem_lexemes {source : Text.Source} {l : Lexeme} {text : List Char}
    (hl : l ∈ (ofSource source).lexemes) (hkind : l.token.kind = .name)
    (hvalue : l.token.value = .name (String.ofList text)) : IsName text := by
  have htiles := tiles_lexemes (ofSource source) [] rfl
  obtain ⟨start, word, rest, -, -, -, hwritten⟩ := htiles.slice rfl (List.mem_map_of_mem hl)
  rw [Token.Written, hkind] at hwritten
  obtain ⟨hword, hisWord, -, hfree⟩ := hwritten
  rw [hvalue, Value.name.injEq, String.ofList_inj] at hword
  subst hword
  exact ⟨hisWord, hfree⟩

/-- A byte string is a text, and reading it alone gives one token in front of the end of file, a
name that is spelled by the whole of it. Nothing is reported. -/
def ReadsAsName (key : List UInt8) : Prop :=
  ∃ text, encode text = key ∧ (ofSource (.ofChars text)).lexemes =
    [⟨⟨.name, ⟨0, key.length⟩, .name (String.ofList text), false⟩, []⟩,
      ⟨⟨.endOfFile, Span.empty key.length, .none, false⟩, []⟩]

theorem readsAsName_iff {key : List UInt8} :
    ReadsAsName key ↔ ∃ text, encode text = key ∧ IsName text := by
  constructor
  · rintro ⟨text, hkey, hlexemes⟩
    have hmem := hlexemes.symm ▸ List.mem_cons_self
    exact ⟨text, hkey, isName_of_mem_lexemes hmem rfl rfl⟩
  · rintro ⟨text, rfl, hword, hfree⟩
    have hends : EndsWord [] := fun c hc => by cases hc
    have hlex := lex_name hword hends hfree 0
    rw [List.append_nil, Nat.zero_add] at hlex
    refine ⟨text, rfl, ?_⟩
    rw [Text.Utf8.length_encode]
    exact lexemes_of_whole (by decide) hlex

end Scanner

/-! ## Printing -/

namespace Resolved

open Scanner (ReadsAsName)

theorem renderAt_index (target : Expression) (key : List UInt8) (depth : Nat) :
    (Expression.index target (.literal (.string key))).renderAt depth = target.renderAt depth ++
      (if isIdentifier key then "." ++ String.ofList (Text.Utf8.decodeLossy key)
        else "[" ++ Text.Quoted.bytes key ++ "]") :=
  rfl

/-- A key is printed behind a point just if it passes for an identifier. -/
theorem renderAt_index_eq_iff (target : Expression) (key : List UInt8) (depth : Nat) :
    (∃ text, encode text = key ∧ (Expression.index target (.literal (.string key))).renderAt depth =
        target.renderAt depth ++ "." ++ String.ofList text) ↔ isIdentifier key = true := by
  rw [renderAt_index]
  constructor
  · rintro ⟨text, -, h⟩
    cases hkey : isIdentifier key with
    | true => rfl
    | false =>
      -- Between brackets, what follows the target starts with one.
      rw [hkey, if_neg Bool.false_ne_true] at h
      have hsame := (String.append_right_inj _).1 (h.trans String.append_assoc)
      have hchars := congrArg String.toList hsame
      simp at hchars
  · intro h
    obtain ⟨text, rfl, -⟩ := isIdentifier_iff.1 h
    refine ⟨text, rfl, ?_⟩
    rw [if_pos h, Text.Utf8.decodeLossy_encode, String.append_assoc]

/-- A key passes for an identifier if and only if it is read as one name, and just then an index
with this key is printed with a point and the key behind it. -/
theorem isIdentifier_iff_readsAsName (key : List UInt8) :
    (isIdentifier key = true ↔ ReadsAsName key) ∧
      ∀ (target : Expression) (depth : Nat),
        (∃ text, encode text = key ∧
          (Expression.index target (.literal (.string key))).renderAt depth =
            target.renderAt depth ++ "." ++ String.ofList text) ↔ ReadsAsName key := by
  have hreads : isIdentifier key = true ↔ ReadsAsName key :=
    isIdentifier_iff.trans Scanner.readsAsName_iff.symm
  exact ⟨hreads, fun target depth => (renderAt_index_eq_iff target key depth).trans hreads⟩

example : isIdentifier (encode ['e', 'n', 'd']) = false ∧
    isIdentifier (encode ['e', 'n', 'd', 's']) = true := by
  decide

end Resolved
end LuaFront
