import LuaFront.Proofs.Text.Utf8
import LuaFront.Proofs.Token.LongString
import LuaFront.Proofs.Token.QuotedString

/-!
# LuaFront.Proofs.Token.Utf8Escape

Values between braces, of any size.

* `Utf8Escape`: a value by any number of digits of base sixteen. From `2^31` on it stands for
  nothing, and is reported.
* `Utf8Escape.saturated_eq`: a sum of digits that stops at the largest word tells the values below
  `2^31` apart from the others.
* `QuotedString.read_escape` and `QuotedString.read_escapes`: an escape puts its bytes in front of
  what follows, or its report, and so do escapes in a row.
* `Scanner.lex_utf8Escapes`: the values of the escapes in a string can be read back from its bytes.
-/

namespace LuaFront

open Text (Utf8.encodeValue Utf8.decodeValue? Utf8.decodeValues? Utf8.write)

/-- A value as it is written between braces. -/
structure Utf8Escape where
  digits : List HexDigit
  nonempty : digits ≠ []
deriving DecidableEq

namespace Utf8Escape

def text (e : Utf8Escape) : List Char :=
  '\\' :: 'u' :: '{' :: (e.digits.map HexDigit.char ++ ['}'])

def value (e : Utf8Escape) : Nat := HexDigit.number e.digits

/-- The bytes that the escape stands for. -/
def bytes (e : Utf8Escape) : List UInt8 :=
  if e.value < 0x80000000 then Utf8.encodeValue e.value else []

/-- What is wrong with the escape at a place. -/
def reports (offset : Nat) (e : Utf8Escape) : List Diagnostic :=
  if e.value < 0x80000000 then []
  else [⟨⟨offset, offset + Text.size e.text⟩, .utf8ValueTooLarge⟩]

/-- What is wrong with escapes in a row. -/
def allReports : Nat → List Utf8Escape → List Diagnostic
  | _, [] => []
  | offset, e :: later => e.reports offset ++ allReports (offset + Text.size e.text) later

/-- The digits added up as far as a word of 32 bits goes. -/
def saturated (e : Utf8Escape) : Nat :=
  e.digits.foldl (fun n d => min (n * 16 + d.value.val) 0xFFFFFFFF) 0

section

-- What literals of digits rest on.
local instance neZero_base : NeZero 16 := ⟨by decide⟩

/-- The last value that has a form, behind a zero. -/
def last : Utf8Escape :=
  ⟨⟨0, false⟩ :: ⟨7, false⟩ :: List.replicate 7 ⟨15, true⟩, List.cons_ne_nil _ _⟩

/-- The first value that has none. -/
def tooLarge : Utf8Escape := ⟨⟨8, false⟩ :: List.replicate 7 ⟨0, false⟩, List.cons_ne_nil _ _⟩

/-- The value of a letter with an accent. -/
def accented : Utf8Escape := ⟨[⟨14, false⟩, ⟨9, false⟩], List.cons_ne_nil _ _⟩

end

theorem foldl_saturated (ds : List HexDigit) (n : Nat) :
    ds.foldl (fun n d => min (n * 16 + d.value.val) 0xFFFFFFFF) (min n 0xFFFFFFFF) =
      min ((ds.map (·.value.val)).foldl (fun n d => n * 16 + d) n) 0xFFFFFFFF := by
  induction ds generalizing n with
  | nil => rfl
  | cons d ds ih =>
    have hstep : min (min n 0xFFFFFFFF * 16 + d.value.val) 0xFFFFFFFF =
        min (n * 16 + d.value.val) 0xFFFFFFFF := by omega
    rw [List.foldl_cons, hstep, ih]
    rfl

theorem saturated_eq (e : Utf8Escape) : e.saturated = min e.value 0xFFFFFFFF := by
  have hfold := foldl_saturated e.digits 0
  rw [foldl_digits] at hfold
  exact hfold

theorem bytes_of_lt {e : Utf8Escape} (h : e.value < 0x80000000) :
    e.bytes = Utf8.encodeValue e.value := if_pos h

theorem allReports_of_lt {es : List Utf8Escape} (h : ∀ e ∈ es, e.value < 0x80000000)
    (offset : Nat) : allReports offset es = [] := by
  induction es generalizing offset with
  | nil => rfl
  | cons e later ih =>
    rw [List.forall_mem_cons] at h
    rw [allReports, reports, if_pos h.1, ih h.2, List.nil_append]

/-- The values can be read back. -/
theorem decodeValues?_bytes {es : List Utf8Escape} (h : ∀ e ∈ es, e.value < 0x80000000) :
    Utf8.decodeValues? (es.flatMap bytes) = some (es.map value) := by
  have hbytes : es.flatMap bytes = (es.map value).flatMap Utf8.encodeValue := by
    rw [List.flatMap_map]
    exact List.flatMap_congr fun e he => bytes_of_lt (h e he)
  rw [hbytes]
  refine Text.Utf8.decodeValues?_encodeValue fun v hv => ?_
  obtain ⟨e, he, rfl⟩ := List.mem_map.1 hv
  exact h e he

/-- The bytes fill no more than a buffer of six, and no form of the value has fewer. -/
theorem write_saturated {e : Utf8Escape} (h : e.value < 0x80000000) :
    Utf8.write (UInt32.ofNat e.saturated) = some e.bytes ∧ e.bytes.length ≤ 6 ∧
      ∀ form rest, Utf8.decodeValue? (form ++ rest) = some (e.value, rest) →
        e.bytes.length ≤ form.length := by
  have hword : (UInt32.ofNat e.value).toNat = e.value :=
    UInt32.toNat_ofNat_of_lt' (by rw [UInt32.size]; omega)
  have hlt : UInt32.ofNat e.value < 0x80000000 := by
    rw [UInt32.lt_iff_toNat_lt, hword]
    exact h
  rw [saturated_eq, Nat.min_eq_left (by omega), bytes_of_lt h, Text.Utf8.write_eq hlt, hword]
  refine ⟨rfl, ?_, fun form rest hform => Text.Utf8.length_encodeValue_le h hform⟩
  obtain ⟨count, hencode, hfits, -⟩ := Text.Utf8.encodeValue_cases h
  rw [hencode, Text.Utf8.length_sequence]
  exact Text.Utf8.lt_six_of_lt_capacity hfits

/-- The bytes of a character are those it has in UTF-8. -/
theorem bytes_of_toNat {e : Utf8Escape} {c : Char} (h : e.value = c.toNat) :
    e.bytes = String.utf8EncodeChar c := by
  have hlt : c.toNat < 0x80000000 := by
    have := Text.Utf8.toNat_lt c
    omega
  rw [bytes_of_lt (by omega), h, Text.Utf8.encodeValue_toNat]

end Utf8Escape

namespace QuotedString

variable {quote : Char} (hquote : quote = '"' ∨ quote = '\'')
include hquote

/-- An escape puts its bytes in front of what follows, or its report. -/
theorem read_escape (e : Utf8Escape) (start offset : Nat) (rest : List Char) :
    read quote start ⟨offset, e.text ++ rest⟩ =
      { read quote start ⟨offset + Text.size e.text, rest⟩ with
        bytes := e.bytes ++ (read quote start ⟨offset + Text.size e.text, rest⟩).bytes
        diagnostics := e.reports offset ++
          (read quote start ⟨offset + Text.size e.text, rest⟩).diagnostics } := by
  have hchars : ∀ c ∈ e.digits.map HexDigit.char, Numeral.isHexDigit c = true := by
    simp [HexDigit.isHexDigit_char]
  have hbraces := Escape.utf8Value_braces (by simpa using e.nonempty) hchars (offset + 2) rest
  have hread : Escape.read ⟨offset + 1, 'u' :: '{' :: (e.digits.map HexDigit.char ++ '}' :: rest)⟩ =
      Escape.utf8Value ⟨offset + 2, '{' :: (e.digits.map HexDigit.char ++ '}' :: rest)⟩ := rfl
  have htext : e.text ++ rest =
      '\\' :: 'u' :: '{' :: (e.digits.map HexDigit.char ++ '}' :: rest) := by
    simp [Utf8Escape.text]
  have hsize : offset + 2 + Text.size ('{' :: (e.digits.map HexDigit.char ++ ['}'])) =
      offset + Text.size e.text := by
    rw [Utf8Escape.text, Text.size_cons '\\', Text.size_cons 'u', show '\\'.utf8Size = 1 from rfl,
      show 'u'.utf8Size = 1 from rfl]
    omega
  rw [Escape.hexValue_chars, hsize] at hbraces
  rw [htext, Scanner.read_backslash hquote, hread, hbraces, Utf8Escape.bytes, Utf8Escape.reports,
    Utf8Escape.value]
  by_cases h : HexDigit.number e.digits < 0x80000000
  · simp only [h, if_true, Body.escape, List.nil_append]
  · simp only [h, if_false, Body.escape, List.nil_append, Scanner.spanFrom, List.singleton_append]

/-- Escapes are read one after the other up to the closing quote. -/
theorem read_escapes (es : List Utf8Escape) (start offset : Nat) (rest : List Char) :
    read quote start ⟨offset, es.flatMap Utf8Escape.text ++ quote :: rest⟩ =
      ⟨es.flatMap Utf8Escape.bytes, Utf8Escape.allReports offset es,
        ⟨offset + Text.size (es.flatMap Utf8Escape.text) + 1, rest⟩⟩ := by
  induction es generalizing offset with
  | nil => exact Scanner.read_quote hquote start offset rest
  | cons e later ih =>
    rw [List.flatMap_cons, List.append_assoc, read_escape hquote, ih, List.flatMap_cons,
      Text.size_append, ← Nat.add_assoc, Utf8Escape.allReports]

end QuotedString

namespace Scanner

/-- A string of escapes is read whole. -/
theorem lex_escapes {quote : Char} (hquote : quote = '"' ∨ quote = '\'') (es : List Utf8Escape)
    (offset : Nat) (rest : List Char) :
    lex ⟨offset, quote :: (es.flatMap Utf8Escape.text ++ quote :: rest)⟩ =
      lexeme ⟨offset + Text.size (es.flatMap Utf8Escape.text) + 2, rest⟩ offset .string
        (.string (es.flatMap Utf8Escape.bytes)) (Utf8Escape.allReports (offset + 1) es) := by
  have hskip (r : List Char) : (Scanner.mk offset (quote :: r)).skip 1 = ⟨offset + 1, r⟩ := by
    rcases hquote with rfl | rfl <;> rfl
  rw [lex_of_quote hquote, quotedString, hskip, QuotedString.read_escapes hquote,
    show offset + 1 + Text.size (es.flatMap Utf8Escape.text) + 1 =
      offset + Text.size (es.flatMap Utf8Escape.text) + 2 by omega]

/-- A character that stands for itself between quotes. -/
theorem lex_raw {quote c : Char} (hquote : quote = '"' ∨ quote = '\'') (hne : c ≠ quote)
    (hplain : c ≠ '\\') (hline : c ≠ '\r' ∧ c ≠ '\n') (offset : Nat) (rest : List Char) :
    lex ⟨offset, quote :: c :: quote :: rest⟩ =
      lexeme ⟨offset + (c.utf8Size + 2), rest⟩ offset .string (.string (String.utf8EncodeChar c))
        [] := by
  have hlex := lex_quoted ⟨quote, hquote, [.raw c hne hplain hline], List.isChain_singleton _⟩
    offset rest
  have hsize : quote.utf8Size + (c.utf8Size + quote.utf8Size) = c.utf8Size + 2 := by
    have hone : quote.utf8Size = 1 := by rcases hquote with rfl | rfl <;> rfl
    omega
  simpa [QuotedString.Literal.text, QuotedString.Literal.bytes, QuotedString.Piece.text,
    QuotedString.Piece.meaning, hsize] using hlex

/-- A character that stands for itself between long brackets, behind a line feed that is left
out. -/
theorem lexemes_raw {c : Char} (hline : c ≠ '\r') (offset : Nat) (rest : List Char) :
    lexemes ⟨offset, LongBracket.enclosed 1 ['\n', c] ++ rest⟩ =
      ⟨⟨.string, ⟨offset, offset + Text.size (LongBracket.enclosed 1 ['\n', c])⟩,
        .string (String.utf8EncodeChar c), false⟩, []⟩ ::
          lexemes ⟨offset + Text.size (LongBracket.enclosed 1 ['\n', c]), rest⟩ := by
  have hfirst : LongBracket.First 1 [c] := by
    rw [LongBracket.first_cons]
    refine ⟨?_, LongBracket.first_nil 1⟩
    by_cases hc : c = ']'
    · rw [hc]
      decide
    · exact LongBracket.closes_cons_of_ne hc _
  have hcontent : LongBracket.content ['\n', c] = [c] :=
    LongBracket.content_of_lineFeed (by simpa using hline.symm)
  rw [lexemes_long hfirst.lineFeed, hcontent]
  simp [Text.Utf8.encode]

/-- A string made of escapes holds one sequence of bytes for each value below `2^31`, from which the
values can be read back. It is the shortest one for its value and at most six bytes long, and for a
character it is what the character stands for when it is written as itself. A value from `2^31` on,
wherever in a string it stands, is reported and adds nothing. -/
theorem lex_utf8Escapes {quote : Char} (hquote : quote = '"' ∨ quote = '\'') :
    (∀ (es : List Utf8Escape) (offset : Nat) (rest : List Char),
      lex ⟨offset, quote :: (es.flatMap Utf8Escape.text ++ quote :: rest)⟩ =
          lexeme ⟨offset + Text.size (es.flatMap Utf8Escape.text) + 2, rest⟩ offset .string
            (.string (es.flatMap Utf8Escape.bytes)) (Utf8Escape.allReports (offset + 1) es) ∧
        ((∀ e ∈ es, e.value < 0x80000000) →
          Utf8.decodeValues? (es.flatMap Utf8Escape.bytes) = some (es.map Utf8Escape.value) ∧
            Utf8Escape.allReports (offset + 1) es = [])) ∧
    (∀ e : Utf8Escape, e.value < 0x80000000 →
      Utf8.write (UInt32.ofNat e.saturated) = some e.bytes ∧ e.bytes.length ≤ 6 ∧
        ∀ form rest, Utf8.decodeValue? (form ++ rest) = some (e.value, rest) →
          e.bytes.length ≤ form.length) ∧
    (∀ (e : Utf8Escape) (c : Char), e.value = c.toNat → ∀ (offset : Nat) (rest : List Char),
      (c ≠ quote → c ≠ '\\' → c ≠ '\r' ∧ c ≠ '\n' →
        lex ⟨offset, quote :: c :: quote :: rest⟩ =
          lexeme ⟨offset + (c.utf8Size + 2), rest⟩ offset .string (.string e.bytes) []) ∧
      (c ≠ '\r' →
        lexemes ⟨offset, LongBracket.enclosed 1 ['\n', c] ++ rest⟩ =
          ⟨⟨.string, ⟨offset, offset + Text.size (LongBracket.enclosed 1 ['\n', c])⟩,
            .string e.bytes, false⟩, []⟩ ::
              lexemes ⟨offset + Text.size (LongBracket.enclosed 1 ['\n', c]), rest⟩)) ∧
    ∀ e : Utf8Escape, 0x80000000 ≤ e.value →
      0x80000000 ≤ e.saturated ∧ e.bytes = [] ∧
        ∀ (start offset : Nat) (rest : List Char),
          QuotedString.read quote start ⟨offset, e.text ++ rest⟩ =
            { QuotedString.read quote start ⟨offset + Text.size e.text, rest⟩ with
              diagnostics := ⟨⟨offset, offset + Text.size e.text⟩, .utf8ValueTooLarge⟩ ::
                (QuotedString.read quote start
                  ⟨offset + Text.size e.text, rest⟩).diagnostics } := by
  refine ⟨?_, fun e h => Utf8Escape.write_saturated h, ?_, ?_⟩
  · intro es offset rest
    refine ⟨lex_escapes hquote es offset rest, fun h => ?_⟩
    exact ⟨Utf8Escape.decodeValues?_bytes h, Utf8Escape.allReports_of_lt h _⟩
  · intro e c hvalue offset rest
    rw [Utf8Escape.bytes_of_toNat hvalue]
    refine ⟨fun hne hplain hline => ?_, fun hline => lexemes_raw hline offset rest⟩
    exact lex_raw hquote hne hplain hline offset rest
  · intro e hlarge
    have hnot : ¬e.value < 0x80000000 := by omega
    have hbytes : e.bytes = [] := if_neg hnot
    refine ⟨by rw [Utf8Escape.saturated_eq]; omega, hbytes, fun start offset rest => ?_⟩
    rw [QuotedString.read_escape hquote, hbytes, Utf8Escape.reports, if_neg hnot]
    rfl

/-- The last value that has a form, with a zero in front, the first one that has none, and a
character of two bytes. -/
theorem lex_utf8Escapes_limit :
    ('"' = '"' ∨ '"' = '\'') ∧ (∀ e ∈ [Utf8Escape.last, Utf8Escape.last], e.value < 0x80000000) ∧
    lex ⟨0, '"' :: ([Utf8Escape.last, Utf8Escape.last].flatMap Utf8Escape.text ++ ['"'])⟩ =
      lexeme ⟨28, []⟩ 0 .string
        (.string [0xFD, 0xBF, 0xBF, 0xBF, 0xBF, 0xBF, 0xFD, 0xBF, 0xBF, 0xBF, 0xBF, 0xBF]) [] ∧
    Utf8.decodeValues? [0xFD, 0xBF, 0xBF, 0xBF, 0xBF, 0xBF, 0xFD, 0xBF, 0xBF, 0xBF, 0xBF, 0xBF] =
      some [0x7FFFFFFF, 0x7FFFFFFF] ∧
    0x80000000 ≤ Utf8Escape.tooLarge.value ∧
    QuotedString.read '"' 0 ⟨1, Utf8Escape.tooLarge.text ++ ['"']⟩ =
      ⟨[], [⟨⟨1, 13⟩, .utf8ValueTooLarge⟩], ⟨14, []⟩⟩ ∧
    Utf8Escape.accented.value = 'é'.toNat ∧
    lex ⟨0, ['"', 'é', '"']⟩ =
      lexeme ⟨4, []⟩ 0 .string (.string Utf8Escape.accented.bytes) [] := by
  have hlast : Utf8Escape.last.value = 0x7FFFFFFF := by decide
  have hlarge : 0x80000000 ≤ Utf8Escape.tooLarge.value := by decide
  have hsmall : ∀ e ∈ [Utf8Escape.last, Utf8Escape.last], e.value < 0x80000000 := by simp [hlast]
  have haccented : Utf8Escape.accented.value = 'é'.toNat := by decide
  obtain ⟨hround, -, hraw, hpast⟩ := @lex_utf8Escapes '"' (.inl rfl)
  obtain ⟨hlex, hback⟩ := hround [Utf8Escape.last, Utf8Escape.last] 0 []
  obtain ⟨hdecode, hquiet⟩ := hback hsmall
  rw [hquiet] at hlex
  refine ⟨.inl rfl, hsmall, hlex, hdecode, hlarge, ?_, haccented, ?_⟩
  · rw [(hpast _ hlarge).2.2 0 1 ['"'], read_quote (.inl rfl)]
    rfl
  · exact (hraw _ 'é' haccented 0 []).1 (by decide) (by decide) (by decide)

end Scanner
end LuaFront
