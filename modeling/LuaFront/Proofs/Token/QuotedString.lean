import LuaFront.Proofs.Number.Written
import LuaFront.Proofs.Token.Cutting
import Mathlib.Data.List.Chain

/-!
# LuaFront.Proofs.Token.QuotedString

What may be written between quotes, and what it stands for.

* `QuotedString.Piece`: a character that stands for itself, or an escape. `Piece.text` is how it is
  written and `Piece.meaning` the bytes it stands for.
* `QuotedString.Literal`: pieces between quotes, none of which reads on into the next one.
* `QuotedString.Piece.read_text` and `QuotedString.Piece.exists_text`: an escape is read as what it
  stands for, and one in which nothing is wrong is a piece.
* `QuotedString.read_pieces` and `QuotedString.exists_pieces`: the same of pieces in a row.
* `Scanner.lex_literal`: the literals are the strings between quotes in which nothing is wrong, and
  each is read as the bytes of its pieces.
-/

namespace LuaFront

open Text (Span)
open Numeral (isDigit isHexDigit)
open Scanner (isBlank isLineBreak)

/-- A carriage return, a line feed, or the two of them in either order. -/
inductive LineEnding where
  | cr
  | lf
  | crlf
  | lfcr
deriving DecidableEq

namespace LineEnding

def text : LineEnding → List Char
  | .cr => ['\r']
  | .lf => ['\n']
  | .crlf => ['\r', '\n']
  | .lfcr => ['\n', '\r']

/-- Whether a character right behind is read as a part of the line ending. -/
def takes : LineEnding → Char → Bool
  | .cr, c => c == '\n'
  | .lf, c => c == '\r'
  | _, _ => false

theorem lineEnding_text {e : LineEnding} {rest : List Char}
    (hrest : ∀ c, rest.head? = some c → e.takes c = false) :
    Scanner.lineEnding (e.text ++ rest) = e.text.length := by
  cases rest with
  | nil => cases e <;> rfl
  | cons c r =>
    have hc := hrest c rfl
    cases e <;> simp_all [text, takes, Escape.lineEnding_cons_cons, isLineBreak]

/-- Where a line breaks there is a line ending, and all of it is taken. -/
theorem exists_text {c : Char} (hc : isLineBreak c = true) (r : List Char) :
    ∃ (e : LineEnding) (rest : List Char), c :: r = e.text ++ rest ∧
      ∀ d, rest.head? = some d → e.takes d = false := by
  simp only [isLineBreak, Bool.or_eq_true, beq_iff_eq] at hc
  by_cases hlong : ∃ (e : LineEnding) (rest : List Char),
      e.text.length = 2 ∧ c :: r = e.text ++ rest
  · obtain ⟨e, rest, htwo, heq⟩ := hlong
    refine ⟨e, rest, heq, fun d _ => ?_⟩
    cases e <;> first | rfl | cases htwo
  · rcases hc with rfl | rfl
    · refine ⟨.lf, r, rfl, fun d hd => ?_⟩
      obtain ⟨r, rfl⟩ := List.head?_eq_some_iff.1 hd
      have hne : d ≠ '\r' := fun h => hlong ⟨.lfcr, r, rfl, by rw [h]; rfl⟩
      simpa [takes] using hne
    · refine ⟨.cr, r, rfl, fun d hd => ?_⟩
      obtain ⟨r, rfl⟩ := List.head?_eq_some_iff.1 hd
      have hne : d ≠ '\n' := fun h => hlong ⟨.crlf, r, rfl, by rw [h]; rfl⟩
      simpa [takes] using hne

end LineEnding

namespace QuotedString

/-! ## Pieces -/

/-- The escapes that are a backslash and one character, with the bytes they stand for. -/
def named : List (Char × UInt8) :=
  [('a', 7), ('b', 8), ('f', 12), ('n', 10), ('r', 13), ('t', 9), ('v', 11), ('\\', 92), ('"', 34),
    ('\'', 39)]

/-- What a string between quotes is made of. -/
inductive Piece (quote : Char) where
  /-- A character that stands for itself. -/
  | raw (c : Char) (notQuote : c ≠ quote) (notBackslash : c ≠ '\\') (unbroken : c ≠ '\r' ∧ c ≠ '\n')
  | named (c : Char) (byte : UInt8) (listed : (c, byte) ∈ named)
  /-- A byte by its two digits of base sixteen. -/
  | hex (high low : HexDigit)
  /-- A byte by one to three decimal digits. -/
  | decimal (digits : List DecimalDigit) (width : 1 ≤ digits.length ∧ digits.length ≤ 3)
    (bound : DecimalDigit.number digits ≤ 255)
  /-- A value below `2^31` by any number of digits of base sixteen. -/
  | utf8 (digits : List HexDigit) (nonempty : digits ≠ [])
    (bound : HexDigit.number digits < 0x80000000)
  /-- Blanks that do not belong to the string. -/
  | gap (blanks : List Char) (blank : ∀ c ∈ blanks, isBlank c = true)
  | line (ending : LineEnding)

namespace Piece

variable {quote : Char}

def text : Piece quote → List Char
  | .raw c .. => [c]
  | .named c _ _ => ['\\', c]
  | .hex high low => ['\\', 'x', high.char, low.char]
  | .decimal digits _ _ => '\\' :: digits.map DecimalDigit.char
  | .utf8 digits _ _ => '\\' :: 'u' :: '{' :: (digits.map HexDigit.char ++ ['}'])
  | .gap blanks _ => '\\' :: 'z' :: blanks
  | .line ending => '\\' :: ending.text

def meaning : Piece quote → List UInt8
  | .raw c .. => String.utf8EncodeChar c
  | .named _ byte _ => [byte]
  | .hex high low => [UInt8.ofNat (16 * high.value + low.value)]
  | .decimal digits _ _ => [UInt8.ofNat (DecimalDigit.number digits)]
  | .utf8 digits _ _ => Text.Utf8.encodeValue (HexDigit.number digits)
  | .gap .. => []
  | .line _ => [10]

/-- Which piece may stand in front of which: fewer than three decimal digits not in front of a
digit, and blanks that are left out not in front of one that is not. -/
def MayPrecede : Piece quote → Piece quote → Prop
  | .decimal digits _ _, .raw c .. => digits.length < 3 → isDigit c = false
  | .gap .., .raw c .. => isBlank c = false
  | _, _ => True

/-- Whether a character right behind is read as a part of the piece. -/
def takes : Piece quote → Char → Bool
  | .decimal digits _ _, c => decide (digits.length < 3) && isDigit c
  | .gap .., c => isBlank c
  | .line ending, c => ending.takes c
  | _, _ => false

end Piece

/-- A string between quotes. -/
structure Literal where
  quote : Char
  isQuote : quote = '"' ∨ quote = '\''
  pieces : List (Piece quote)
  joined : pieces.IsChain Piece.MayPrecede

namespace Literal

def text (x : Literal) : List Char := x.quote :: (x.pieces.flatMap Piece.text ++ [x.quote])

def bytes (x : Literal) : List UInt8 := x.pieces.flatMap Piece.meaning

end Literal

/-! ## Where a piece ends -/

section

variable {quote : Char} (hquote : quote = '"' ∨ quote = '\'')

theorem Piece.text_ne_nil (p : Piece quote) : p.text ≠ [] := by
  cases p <;> simp [text]

/-- Neither a quote nor a backslash is taken. -/
theorem Piece.takes_mark (p : Piece quote) {c : Char} (hc : c = '"' ∨ c = '\'' ∨ c = '\\') :
    p.takes c = false := by
  cases p with
  | line ending => rcases hc with rfl | rfl | rfl <;> cases ending <;> rfl
  | decimal digits width bound =>
    have hdigit : isDigit c = false := by rcases hc with rfl | rfl | rfl <;> decide
    simp [takes, hdigit]
  | gap blanks blank => rcases hc with rfl | rfl | rfl <;> rfl
  | _ => rfl

/-- A piece may stand in front of another one just if it takes nothing of it. -/
theorem Piece.mayPrecede_iff (p q : Piece quote) :
    p.MayPrecede q ↔ ∀ c, q.text.head? = some c → p.takes c = false := by
  cases q with
  | raw c notQuote notBackslash unbroken =>
    have hline (e : LineEnding) : e.takes c = false := by
      cases e <;> simp [LineEnding.takes, unbroken]
    cases p <;> simp [MayPrecede, takes, text, hline]
  | _ =>
    refine ⟨fun _ c hc => ?_, fun _ => by cases p <;> trivial⟩
    cases hc
    exact p.takes_mark (.inr (.inr rfl))

include hquote in
/-- The same in front of all pieces that follow, up to the closing quote. -/
theorem Piece.takes_pieces_iff (p : Piece quote) (ps : List (Piece quote)) (rest : List Char) :
    (∀ c, (ps.flatMap text ++ quote :: rest).head? = some c → p.takes c = false) ↔
      ∀ q ∈ ps.head?, p.MayPrecede q := by
  cases ps with
  | nil =>
    have hmark : p.takes quote = false := p.takes_mark (by rcases hquote with rfl | rfl <;> simp)
    simp [hmark]
  | cons q ps =>
    obtain ⟨c, r, hq⟩ := List.exists_cons_of_ne_nil q.text_ne_nil
    simp [mayPrecede_iff, hq]

end

/-! ## Reading a piece -/

end QuotedString

namespace Escape

/-- How many of the next `n` characters are of a class. -/
theorem takeWhile_take_eq_iff {p : Char → Bool} {digits rest : List Char} {n : Nat} :
    ((digits ++ rest).take n).takeWhile p = digits ↔ digits.length ≤ n ∧
      (∀ c ∈ digits, p c = true) ∧
      (digits.length < n → ∀ c, rest.head? = some c → p c = false) := by
  induction digits generalizing n with
  | nil =>
    rcases n with _ | n
    · simp
    · rcases rest with _ | ⟨c, r⟩
      · simp
      · by_cases hc : p c = true <;> simp [hc]
  | cons d digits ih =>
    rcases n with _ | n
    · simp
    · by_cases hd : p d = true
      · simp [hd, ih]
      · simp [hd]

theorem named?_eq_some {c : Char} {byte : UInt8} :
    named? c = some byte ↔ (c, byte) ∈ QuotedString.named := by
  constructor
  · intro h
    unfold named? at h
    split at h <;> cases h <;> decide
  · intro h
    simp only [QuotedString.named, List.mem_cons, Prod.mk.injEq, List.not_mem_nil, or_false] at h
    rcases h with ⟨rfl, rfl⟩ | ⟨rfl, rfl⟩ | ⟨rfl, rfl⟩ | ⟨rfl, rfl⟩ | ⟨rfl, rfl⟩ | ⟨rfl, rfl⟩ |
      ⟨rfl, rfl⟩ | ⟨rfl, rfl⟩ | ⟨rfl, rfl⟩ | ⟨rfl, rfl⟩ <;> rfl

/-- What is made of the digits of base sixteen that come next. -/
theorem hexByte_of_digits {digits rest : List Char}
    (h : ((digits ++ rest).take 2).takeWhile isHexDigit = digits) (offset : Nat) :
    hexByte ⟨offset, digits ++ rest⟩ =
      ⟨if digits.length = 2 then .ok [UInt8.ofNat (hexValue digits)] else .error .incompleteEscape,
        ⟨offset + Text.size digits, rest⟩⟩ := by
  simp only [hexByte, h, Scanner.skip_append]

/-- What is made of the decimal digits that come next. -/
theorem decimalByte_of_digits {digits rest : List Char}
    (h : ((digits ++ rest).take 3).takeWhile isDigit = digits) (offset : Nat) :
    decimalByte ⟨offset, digits ++ rest⟩ =
      ⟨if Numeral.decimalValue digits < 256 then .ok [UInt8.ofNat (Numeral.decimalValue digits)]
        else .error .decimalEscapeTooLarge,
        ⟨offset + Text.size digits, rest⟩⟩ := by
  simp only [decimalByte, h, Scanner.skip_append]

theorem read_of_isDigit {c : Char} (hc : isDigit c = true) (offset : Nat) (r : List Char) :
    read ⟨offset, c :: r⟩ = decimalByte ⟨offset, c :: r⟩ := by
  obtain ⟨d, rfl⟩ := DecimalDigit.exists_char hc
  obtain ⟨-, hnamed, hbreak, hz, hx, -⟩ := Scanner.digitChar_class d.isLt
  rw [← DecimalDigit.char] at hnamed hbreak hz hx
  simp [read, hnamed, hbreak, hz, hx, hc]

theorem read_of_lineBreak {c : Char} (hc : isLineBreak c = true) (offset : Nat) (r : List Char) :
    read ⟨offset, c :: r⟩ =
      ⟨.ok [10], (Scanner.mk offset (c :: r)).skip (Scanner.lineEnding (c :: r))⟩ := by
  have hnamed : named? c = none := by
    simp only [isLineBreak, Bool.or_eq_true, beq_iff_eq] at hc
    rcases hc with rfl | rfl <;> rfl
  simp [read, hnamed, hc]

/-- Without two digits of base sixteen there is no byte. -/
theorem exists_of_hexByte {offset : Nat} {cs : List Char} {bytes : List UInt8}
    (hok : (hexByte ⟨offset, cs⟩).meaning = .ok bytes) :
    ∃ (high low : HexDigit) (rest : List Char), cs = high.char :: low.char :: rest := by
  obtain ⟨rest, hcs⟩ := takeWhile_take_prefix isHexDigit 2 cs
  generalize hdigits : (cs.take 2).takeWhile isHexDigit = digits at hcs
  subst hcs
  rw [hexByte_of_digits hdigits] at hok
  obtain ⟨ds, rfl⟩ := HexDigit.exists_chars (takeWhile_take_eq_iff.1 hdigits).2.1
  split at hok
  next htwo =>
    obtain ⟨high, low, rfl⟩ := List.length_eq_two.1 ((List.length_map _).symm.trans htwo)
    exact ⟨high, low, rest, rfl⟩
  next => cases hok

/-- A byte in decimal digits has no more than three of them, and all that there are up to three. -/
theorem exists_of_decimalByte {offset : Nat} {cs : List Char} {bytes : List UInt8}
    (hok : (decimalByte ⟨offset, cs⟩).meaning = .ok bytes) :
    ∃ (ds : List DecimalDigit) (rest : List Char), cs = ds.map DecimalDigit.char ++ rest ∧
      ds.length ≤ 3 ∧ DecimalDigit.number ds ≤ 255 ∧
      (ds.length < 3 → ∀ c, rest.head? = some c → isDigit c = false) := by
  obtain ⟨rest, hcs⟩ := takeWhile_take_prefix isDigit 3 cs
  generalize hdigits : (cs.take 3).takeWhile isDigit = digits at hcs
  subst hcs
  obtain ⟨hlength, hall, hstop⟩ := takeWhile_take_eq_iff.1 hdigits
  rw [decimalByte_of_digits hdigits] at hok
  obtain ⟨ds, rfl⟩ := DecimalDigit.exists_chars hall
  rw [List.length_map] at hlength hstop
  rw [Numeral.decimalValue_chars] at hok
  split at hok
  next hbound => exact ⟨ds, rest, rfl, hlength, Nat.le_of_lt_succ hbound, hstop⟩
  next => cases hok

/-- A value in braces has digits, and is below `2^31`. -/
theorem exists_of_utf8Value {offset : Nat} {cs : List Char} {bytes : List UInt8}
    (hok : (utf8Value ⟨offset, cs⟩).meaning = .ok bytes) :
    ∃ (ds : List HexDigit) (rest : List Char),
      cs = '{' :: (ds.map HexDigit.char ++ '}' :: rest) ∧ ds ≠ [] ∧
      HexDigit.number ds < 0x80000000 := by
  obtain ⟨digits, rest, rfl, hne, hdigits⟩ := utf8Value_cases hok
  rw [utf8Value_braces hne hdigits] at hok
  obtain ⟨ds, rfl⟩ := HexDigit.exists_chars hdigits
  rw [hexValue_chars] at hok
  split at hok
  next hbound => exact ⟨ds, rest, rfl, fun h => hne (by rw [h]; rfl), hbound⟩
  next => cases hok

end Escape

namespace QuotedString

variable {quote : Char}

/-- An escape is read up to its end, as what it stands for. -/
theorem Piece.read_text (p : Piece quote) {w rest : List Char} (hw : p.text = '\\' :: w)
    (hrest : ∀ c, rest.head? = some c → p.takes c = false) (offset : Nat) :
    Escape.read ⟨offset, w ++ rest⟩ = ⟨.ok p.meaning, ⟨offset + Text.size w, rest⟩⟩ := by
  cases p with
  | raw c notQuote notBackslash unbroken => exact absurd (List.cons.inj hw).1 notBackslash
  | named c byte listed =>
    cases hw
    simp [Escape.read, Escape.named?_eq_some.2 listed, Scanner.skip, meaning]
  | hex high low =>
    cases hw
    have hdigits : (([high.char, low.char] ++ rest).take 2).takeWhile isHexDigit =
        [high.char, low.char] :=
      Escape.takeWhile_take_eq_iff.2 ⟨Nat.le_refl 2, by simp [HexDigit.isHexDigit_char], by simp⟩
    have hvalue : Escape.hexValue [high.char, low.char] = 16 * high.value + low.value := by
      simp [Escape.hexValue, HexDigit.hexDigit?_char, Nat.mul_comm]
    have hread := Escape.hexByte_of_digits hdigits (offset + 1)
    rw [if_pos (by rfl), hvalue, Nat.add_assoc] at hread
    exact hread
  | decimal digits width bound =>
    cases hw
    have hdigits : ((digits.map DecimalDigit.char ++ rest).take 3).takeWhile isDigit =
        digits.map DecimalDigit.char := by
      refine Escape.takeWhile_take_eq_iff.2 ⟨by simpa using width.2, ?_, fun hshort c hc => ?_⟩
      · simp [DecimalDigit.isDigit_char]
      · have hstop := hrest c hc
        rw [List.length_map] at hshort
        simpa [takes, hshort] using hstop
    have hread := Escape.decimalByte_of_digits hdigits offset
    rw [Numeral.decimalValue_chars, if_pos (by omega)] at hread
    obtain ⟨d, ds, rfl⟩ := List.exists_cons_of_length_pos width.1
    rw [List.map_cons, List.cons_append] at hread ⊢
    rw [Escape.read_of_isDigit d.isDigit_char, hread]
    rfl
  | utf8 digits nonempty bound =>
    cases hw
    have hchars : ∀ c ∈ digits.map HexDigit.char, isHexDigit c = true := by
      simp [HexDigit.isHexDigit_char]
    have hread := Escape.utf8Value_braces (by simpa using nonempty) hchars (offset + 1) rest
    rw [Escape.hexValue_chars, if_pos bound, Nat.add_assoc] at hread
    have htext : 'u' :: '{' :: (digits.map HexDigit.char ++ ['}']) ++ rest =
        'u' :: '{' :: (digits.map HexDigit.char ++ '}' :: rest) := by simp
    rw [htext]
    exact hread
  | gap blanks blank =>
    cases hw
    have hread := Scanner.takeWhile_append blank hrest (offset + 1)
    rw [Nat.add_assoc] at hread
    exact congrArg (fun out => Escape.Outcome.mk (.ok []) out.2) hread
  | line ending =>
    cases hw
    have hend := LineEnding.lineEnding_text hrest
    have hskip := Scanner.skip_append ending.text offset rest
    obtain ⟨c, r, hc, hbreak⟩ : ∃ c r, ending.text = c :: r ∧ isLineBreak c = true := by
      cases ending <;> exact ⟨_, _, rfl, rfl⟩
    rw [← hend, hc] at hskip
    rw [hc, List.cons_append, Escape.read_of_lineBreak hbreak, ← List.cons_append, hskip]
    rfl

/-- An escape in which nothing is wrong is a piece, and is read to its end. -/
theorem Piece.exists_text (quote : Char) {offset : Nat} {cs : List Char} {bytes : List UInt8}
    (hok : (Escape.read ⟨offset, cs⟩).meaning = .ok bytes) :
    ∃ (p : Piece quote) (w rest : List Char), p.text = '\\' :: w ∧ cs = w ++ rest ∧
      ∀ c, rest.head? = some c → p.takes c = false := by
  rcases cs with _ | ⟨c, r⟩
  · cases hok
  cases hnamed : Escape.named? c with
  | some byte =>
    exact ⟨.named c byte (Escape.named?_eq_some.1 hnamed), [c], r, rfl, rfl, fun _ _ => rfl⟩
  | none =>
    by_cases hbreak : isLineBreak c = true
    · obtain ⟨e, rest, heq, htakes⟩ := LineEnding.exists_text hbreak r
      exact ⟨.line e, e.text, rest, rfl, heq, htakes⟩
    by_cases hz : c = 'z'
    · subst hz
      refine ⟨.gap (r.takeWhile isBlank) (List.all_eq_true.1 List.all_takeWhile), _,
        r.dropWhile isBlank, rfl, ?_, fun d hd => ?_⟩
      · rw [List.cons_append, List.takeWhile_append_dropWhile]
      · have hnot := List.head?_dropWhile_not isBlank r
        rw [hd] at hnot
        simpa [takes] using hnot
    by_cases hx : c = 'x'
    · subst hx
      obtain ⟨high, low, rest, rfl⟩ := Escape.exists_of_hexByte hok
      exact ⟨.hex high low, _, rest, rfl, rfl, fun _ _ => rfl⟩
    by_cases hdigit : isDigit c = true
    · rw [Escape.read_of_isDigit hdigit] at hok
      obtain ⟨ds, rest, hcs, hlength, hbound, hstop⟩ := Escape.exists_of_decimalByte hok
      have hpos : 1 ≤ ds.length := by
        by_contra hnone
        obtain rfl : ds = [] := List.length_eq_zero_iff.1 (by omega)
        have hc := hstop (by decide) c (congrArg List.head? hcs).symm
        rw [hdigit] at hc
        cases hc
      refine ⟨.decimal ds ⟨hpos, hlength⟩ hbound, _, rest, rfl, hcs, fun d hd => ?_⟩
      by_cases hshort : ds.length < 3
      · simp [takes, hstop hshort d hd]
      · simp [takes, hshort]
    by_cases hu : c = 'u'
    · subst hu
      obtain ⟨ds, rest, rfl, hne, hbound⟩ := Escape.exists_of_utf8Value hok
      exact ⟨.utf8 ds hne hbound, _, rest, rfl, by simp, fun _ _ => rfl⟩
    · simp [Escape.read, hnamed, hbreak, hz, hx, hdigit, hu] at hok

/-! ## Reading pieces in a row -/

section

variable (hquote : quote = '"' ∨ quote = '\'')
include hquote

/-- A piece is read up to its end, and what it stands for comes in front of all that follows. -/
theorem read_piece (p : Piece quote) {rest : List Char}
    (hrest : ∀ c, rest.head? = some c → p.takes c = false) (start offset : Nat) :
    read quote start ⟨offset, p.text ++ rest⟩ =
      { read quote start ⟨offset + Text.size p.text, rest⟩ with
        bytes := p.meaning ++ (read quote start ⟨offset + Text.size p.text, rest⟩).bytes } := by
  have hescape {w : List Char} (hw : p.text = '\\' :: w) :
      read quote start ⟨offset, p.text ++ rest⟩ =
        { read quote start ⟨offset + Text.size p.text, rest⟩ with
          bytes := p.meaning ++ (read quote start ⟨offset + Text.size p.text, rest⟩).bytes } := by
    rw [hw, List.cons_append, Scanner.read_backslash hquote, p.read_text hw hrest, Text.size_cons,
      show '\\'.utf8Size = 1 from rfl, ← Nat.add_assoc]
    rfl
  cases p with
  | raw c notQuote notBackslash unbroken =>
    have hbreak : isLineBreak c = false := by simp [isLineBreak, unbroken]
    exact read_plain hbreak notQuote notBackslash start offset rest
  | _ => exact hescape rfl

/-- Pieces are read one after the other up to the closing quote. -/
theorem read_pieces {ps : List (Piece quote)} (hps : ps.IsChain Piece.MayPrecede)
    (start offset : Nat) (rest : List Char) :
    read quote start ⟨offset, ps.flatMap Piece.text ++ quote :: rest⟩ =
      ⟨ps.flatMap Piece.meaning, [], ⟨offset + Text.size (ps.flatMap Piece.text) + 1, rest⟩⟩ := by
  induction ps generalizing offset with
  | nil => exact Scanner.read_quote hquote start offset rest
  | cons p ps ih =>
    obtain ⟨hnext, hps⟩ := List.isChain_cons.1 hps
    have hrest := (p.takes_pieces_iff hquote ps rest).2 hnext
    rw [List.flatMap_cons, List.append_assoc, read_piece hquote p hrest, ih hps, List.flatMap_cons,
      Text.size_append, ← Nat.add_assoc]

/-- A string in which nothing is wrong consists of pieces up to its closing quote. -/
theorem exists_pieces {start : Nat} {s : Scanner} (hclean : (read quote start s).diagnostics = []) :
    ∃ ps : List (Piece quote), ps.IsChain Piece.MayPrecede ∧
      s.rest = ps.flatMap Piece.text ++ quote :: (read quote start s).after.rest := by
  fun_induction read quote start s with
  | case1 s h => cases hclean
  | case2 s c r h hbreak => cases hclean
  | case3 s r hcs hbreak => exact ⟨[], .nil, by simp [hcs]⟩
  | case4 s r shorter hcs hbreak hne ih =>
    obtain ⟨bytes, hok, hlater⟩ := escape_clean hclean
    obtain ⟨ps, hps, hrest⟩ := ih hlater
    obtain ⟨p, w, rest, hw, hr, htakes⟩ := Piece.exists_text quote hok
    have hafter : (Escape.read (s.skip 1)).after.rest = rest := by
      have hread := p.read_text hw htakes (s.skip 1).offset
      rw [← hr] at hread
      exact congrArg (·.after.rest) hread
    rw [hafter] at hrest
    rw [after_escape]
    rw [hrest] at htakes
    refine ⟨p :: ps, List.isChain_cons.2 ⟨(p.takes_pieces_iff hquote ps _).1 htakes, hps⟩, ?_⟩
    have hr' : r = w ++ rest := (congrArg (List.drop 1) hcs).symm.trans hr
    rw [hcs, hr', List.flatMap_cons, hw, List.append_assoc, List.cons_append, ← hrest]
  | case5 s c r hcs hbreak hne hplain later ih =>
    obtain ⟨ps, hps, hrest⟩ := ih hclean
    have hr : r = (s.skip 1).rest := by rw [Scanner.rest_skip, hcs, List.drop_one, List.tail_cons]
    have hunbroken : c ≠ '\r' ∧ c ≠ '\n' := by
      simp only [isLineBreak, Bool.or_eq_true, beq_iff_eq, not_or] at hbreak
      exact hbreak.symm
    refine ⟨.raw c hne hplain hunbroken :: ps, List.isChain_cons.2 ⟨?_, hps⟩, ?_⟩
    · exact (Piece.takes_pieces_iff hquote _ ps (later.after.rest)).1 fun _ _ => rfl
    · rw [hcs, hr, hrest]
      rfl

end

end QuotedString

namespace Scanner

theorem lex_of_quote {quote : Char} (hquote : quote = '"' ∨ quote = '\'') (offset : Nat)
    (r : List Char) : lex ⟨offset, quote :: r⟩ = quotedString ⟨offset, quote :: r⟩ quote := by
  have hstart : isBlank quote = false ∧ quote ≠ '-' := by rcases hquote with rfl | rfl <;> decide
  rw [lex_of_start hstart.1 (fun r' h => hstart.2 (List.cons.inj h).1), token_of_quote hquote]

/-- A string between quotes is read whole. -/
theorem lex_quoted (x : QuotedString.Literal) (offset : Nat) (rest : List Char) :
    lex ⟨offset, x.text ++ rest⟩ =
      lexeme ⟨offset + Text.size x.text, rest⟩ offset .string (.string x.bytes) [] := by
  obtain ⟨quote, hquote, ps, hps⟩ := x
  have hone : quote.utf8Size = 1 := by rcases hquote with rfl | rfl <;> rfl
  have htext : QuotedString.Literal.text ⟨quote, hquote, ps, hps⟩ ++ rest =
      quote :: (ps.flatMap QuotedString.Piece.text ++ quote :: rest) := by
    simp [QuotedString.Literal.text]
  have hskip (r : List Char) : (Scanner.mk offset (quote :: r)).skip 1 = ⟨offset + 1, r⟩ := by
    simp [skip, hone]
  have hsize : Text.size (QuotedString.Literal.text ⟨quote, hquote, ps, hps⟩) =
      1 + (Text.size (ps.flatMap QuotedString.Piece.text) + 1) := by
    simp only [QuotedString.Literal.text, Text.size_cons, Text.size_append, Text.size_nil, hone]
  rw [htext, hsize, lex_of_quote hquote, quotedString, hskip, QuotedString.read_pieces hquote hps,
    show offset + 1 + Text.size (ps.flatMap QuotedString.Piece.text) + 1 =
      offset + (1 + (Text.size (ps.flatMap QuotedString.Piece.text) + 1)) by omega]
  rfl

/-- What starts with a quote and has nothing wrong in it is a string between quotes. -/
theorem exists_literal {s : Scanner} {quote : Char} (hquote : quote = '"' ∨ quote = '\'')
    (hstart : s.rest.head? = some quote) (hclean : s.lex.1.diagnostics = []) :
    ∃ x : QuotedString.Literal, x.quote = quote ∧ s.rest = x.text ++ s.lex.2.rest := by
  obtain ⟨offset, cs⟩ := s
  obtain ⟨r, rfl⟩ := List.head?_eq_some_iff.1 hstart
  rw [lex_of_quote hquote] at hclean ⊢
  obtain ⟨ps, hps, hr⟩ := QuotedString.exists_pieces hquote hclean
  refine ⟨⟨quote, hquote, ps, hps⟩, rfl, ?_⟩
  calc quote :: r
      = quote :: (ps.flatMap QuotedString.Piece.text ++
          quote :: (quotedString ⟨offset, quote :: r⟩ quote).2.rest) := congrArg (quote :: ·) hr
    _ = _ := by simp [QuotedString.Literal.text]

/-- Strings between quotes are read whole, as the bytes of their pieces, and alone in a text they are
its only token. Nothing else that starts with a quote is read without a diagnostic. -/
theorem lex_literal :
    (∀ (x : QuotedString.Literal) (offset : Nat) (rest : List Char),
      lex ⟨offset, x.text ++ rest⟩ =
        lexeme ⟨offset + Text.size x.text, rest⟩ offset .string (.string x.bytes) []) ∧
    (∀ x : QuotedString.Literal, (ofSource (Text.Source.ofChars x.text)).lexemes =
      [⟨⟨.string, ⟨0, Text.size x.text⟩, .string x.bytes, false⟩, []⟩,
        ⟨⟨.endOfFile, Span.empty (Text.size x.text), .none, false⟩, []⟩]) ∧
    ∀ (s : Scanner) (quote : Char), quote = '"' ∨ quote = '\'' → s.rest.head? = some quote →
      s.lex.1.diagnostics = [] →
        ∃ x : QuotedString.Literal, x.quote = quote ∧ s.rest = x.text ++ s.lex.2.rest := by
  refine ⟨lex_quoted, fun x => lexemes_of_whole (by simp) ?_, fun s quote hquote hstart hclean =>
    exists_literal hquote hstart hclean⟩
  have hlex := lex_quoted x 0 []
  rwa [List.append_nil, Nat.zero_add] at hlex

/-- Three digits in front of a fourth, one in front of a letter, and blanks over a line break. -/
theorem lex_literal_mixed :
    ∃ x : QuotedString.Literal,
      x.text = ['"', '\\', '6', 'x', '\\', '0', '6', '5', '5', '\\', 'z', ' ', '\n', '\\', '\r', '\n',
        '\\', 'u', '{', '0', 'e', '9', '}', '\\', 'x', '4', 'A', '\\', '"', '\'', '"'] ∧
      x.bytes = [6, 120, 65, 53, 10, 0xC3, 0xA9, 74, 34, 39] ∧
      (lex ⟨0, x.text⟩).1.diagnostics = [] ∧
      ∃ y : QuotedString.Literal, y.quote = '"' ∧ x.text = y.text ++ (lex ⟨0, x.text⟩).2.rest := by
  have hmixed : List.IsChain QuotedString.Piece.MayPrecede [
      .decimal [6] (by decide) (by decide), .raw 'x' (by decide) (by decide) (by decide),
      .decimal [0, 6, 5] (by decide) (by decide), .raw '5' (by decide) (by decide) (by decide),
      .gap [' ', '\n'] (by simp [isBlank]), .line .crlf,
      .utf8 [⟨0, false⟩, ⟨14, false⟩, ⟨9, false⟩] (by decide) (by decide),
      .hex ⟨4, false⟩ ⟨10, true⟩, .named '"' 34 (by decide),
      (.raw '\'' (by decide) (by decide) (by decide) : QuotedString.Piece '"')] := by
    simp [QuotedString.Piece.MayPrecede, show isDigit 'x' = false by decide]
  have hclean (x : QuotedString.Literal) : (lex ⟨0, x.text⟩).1.diagnostics = [] := by
    have hlex := lex_literal.1 x 0 []
    rw [List.append_nil] at hlex
    rw [hlex]
    rfl
  exact ⟨⟨'"', .inl rfl, _, hmixed⟩, rfl, rfl, hclean _,
    lex_literal.2.2 _ '"' (.inl rfl) rfl (hclean _)⟩

end Scanner
end LuaFront
