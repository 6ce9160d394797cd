import LuaFront.Proofs.Number.Digits
import LuaFront.Proofs.Token.Tiling

/-!
# LuaFront.Proofs.Token.RoundTrip

Reading what was written.

* `Item`: what can be written down as a token, and `Item.text`, how it is written.
* `Scanner.lex_text`: an item with a blank behind it is read as one token, up to the blank.
* `Scanner.lexemes_text`: items with blanks between them, of whatever kind, are read as these items
  where they stand, and nothing is reported.
-/

namespace LuaFront

open Text (Span)
open Scanner (Blank isNameStart isNameChar isBlank)

/-- The kind of token that writes a number. -/
def Number.kind : Number → Kind
  | .integer _ => .integer
  | .float _ => .float

/-! ## Writing -/

/-- Something that can be written down as one token. -/
inductive Item where
  | keyword (k : Keyword)
  | sign (σ : Sign)
  | name (word : List Char) (isWord : IsWord word) (free : ∀ k : Keyword, k.spelling ≠ String.ofList word)
  | decimal (n : Int64) (nonneg : 0 ≤ n)
  | hexadecimal (capital : Bool) (n : Int64)
  | string (quote : Char) (isQuote : quote = '"' ∨ quote = '\'') (bytes : List UInt8)

namespace Item

/-- A byte as a backslash and three decimal digits. -/
def escape (b : UInt8) : List Char :=
  ['\\', (b.toNat / 100).digitChar, (b.toNat / 10 % 10).digitChar, (b.toNat % 10).digitChar]

def text : Item → List Char
  | .keyword k => k.spelling.toList
  | .sign σ => σ.spelling.toList
  | .name word _ _ => word
  | .decimal n _ => Nat.toDigits 10 n.toInt.toNat
  | .hexadecimal capital n => '0' :: 'x' :: Numeral.hexDigits capital n.toUInt64.toNat
  | .string quote _ bytes => quote :: (bytes.flatMap escape ++ [quote])

def kind : Item → Kind
  | .keyword k => .keyword k
  | .sign σ => .sign σ
  | .name .. => .name
  | .decimal .. => .integer
  | .hexadecimal .. => .integer
  | .string .. => .string

def value : Item → Value
  | .keyword _ => .none
  | .sign _ => .none
  | .name word _ _ => .name (String.ofList word)
  | .decimal n _ => .number (.integer n)
  | .hexadecimal _ n => .number (.integer n)
  | .string _ _ bytes => .string bytes

/-- The token of an item that is written at an offset. -/
def token (offset : Nat) (x : Item) : Token :=
  ⟨x.kind, ⟨offset, offset + Text.size x.text⟩, x.value, false⟩

end Item

namespace Scanner

/-! ## Reading one item -/

theorem not_isNameChar_of_isBlank {c : Char} (h : isBlank c = true) : isNameChar c = false := by
  simp only [isBlank, Bool.or_eq_true, beq_iff_eq] at h
  rcases h with ((((rfl | rfl) | rfl) | rfl) | rfl) | rfl <;> decide

/-- Reading from a place where no blank and no comment starts. -/
theorem lex_of_start {c : Char} {r : List Char} (hblank : isBlank c = false)
    (hcomment : ∀ r', c :: r ≠ '-' :: '-' :: r') (offset : Nat) :
    lex ⟨offset, c :: r⟩ = token ⟨offset, c :: r⟩ c r := by
  have hskip := skipBlanks_of_start hblank hcomment offset
  rw [lex_of_cons (c := c) (r := r) (by rw [hskip]), hskip]
  rfl

/-- The properties of a name's first character that tell which reader it belongs to. -/
theorem lex_word {word : List Char} (hword : IsWord word) (offset : Nat) (rest : List Char) :
    lex ⟨offset, word ++ rest⟩ = Scanner.word ⟨offset, word ++ rest⟩ := by
  obtain ⟨c, r, rfl, hc⟩ := hword.start
  have hblank : isBlank c = false := by
    cases h : isBlank c with
    | false => rfl
    | true =>
      have := not_isNameChar_of_isBlank h
      simp [isNameChar, hc] at this
  have hcomment : ∀ r', c :: (r ++ rest) ≠ '-' :: '-' :: r' := by
    intro r' h
    obtain ⟨rfl, -⟩ := List.cons.inj h
    exact absurd hc (by decide)
  rw [List.cons_append, lex_of_start hblank hcomment, token, if_pos hc]

theorem lex_name {word : List Char} (hword : IsWord word) {rest : List Char}
    (hrest : EndsWord rest) (free : ∀ k : Keyword, k.spelling ≠ String.ofList word) (offset : Nat) :
    lex ⟨offset, word ++ rest⟩ = lexeme ⟨offset + Text.size word, rest⟩ offset .name
      (.name (String.ofList word)) [] := by
  have hnone : Keyword.ofWord? (String.ofList word) = none := Keyword.ofWord?_eq_none.2 free
  rw [lex_word hword]
  simp only [Scanner.word, takeWhile_append hword.chars hrest, hnone]

theorem isWord_spelling (k : Keyword) : IsWord k.spelling.toList := by
  constructor
  · cases k <;> exact ⟨_, _, rfl, by decide⟩
  · have hall : k.spelling.toList.all isNameChar = true := by cases k <;> decide
    exact List.all_eq_true.1 hall

theorem lex_keyword (k : Keyword) {rest : List Char} (hrest : EndsWord rest) (offset : Nat) :
    lex ⟨offset, k.spelling.toList ++ rest⟩ =
      lexeme ⟨offset + Text.size k.spelling.toList, rest⟩ offset (.keyword k) .none [] := by
  have hsome : Keyword.ofWord? (String.ofList k.spelling.toList) = some k := by
    rw [Keyword.ofWord?_eq_some, String.ofList_toList]
  rw [lex_word (isWord_spelling k)]
  simp only [Scanner.word, takeWhile_append (isWord_spelling k).chars hrest, hsome]

/-! ## Signs -/

theorem not_isDigit_of_isBlank {c : Char} (hc : isBlank c = true) : Numeral.isDigit c = false := by
  have := not_isNameChar_of_isBlank hc
  rw [isNameChar, Bool.or_eq_false_iff] at this
  exact this.2

/-- A blank ends a sign. -/
theorem ofChars?_spelling (σ : Sign) {c : Char} (hc : isBlank c = true) (rest : List Char) :
    Sign.ofChars? (σ.spelling.toList ++ c :: rest) = some σ := by
  have hequals : c ≠ '=' := ne_of_class hc (by decide)
  have hdot : c ≠ '.' := ne_of_class hc (by decide)
  have hcolon : c ≠ ':' := ne_of_class hc (by decide)
  have hless : c ≠ '<' := ne_of_class hc (by decide)
  have hgreater : c ≠ '>' := ne_of_class hc (by decide)
  have hslash : c ≠ '/' := ne_of_class hc (by decide)
  cases σ <;> simp [Sign.spelling, Sign.ofChars?, *]

/-- A sign in front of a blank is neither a comment nor the start of a numeral or a string. -/
theorem token_spelling (σ : Sign) {c d : Char} {rest r : List Char} (hc : isBlank c = true)
    (h : σ.spelling.toList ++ c :: rest = d :: r) :
    isBlank d = false ∧ (∀ r', d :: r ≠ '-' :: '-' :: r') ∧
      ∀ s : Scanner, s.token d r = s.sign d := by
  have hdigit := not_isDigit_of_isBlank hc
  have hminus : c ≠ '-' := ne_of_class hc (by decide)
  have hopen : c ≠ '[' := ne_of_class hc (by decide)
  have hequals : c ≠ '=' := ne_of_class hc (by decide)
  have hdot (s : Scanner) : s.token '.' (c :: rest) = s.sign '.' := by
    have hstart : startsNumeral '.' (c :: rest) = false := by
      simp [startsNumeral, hdigit, show Numeral.isDigit '.' = false by decide]
    simp [token, hstart, startsLongString, isNameStart]
  have hbracket (s : Scanner) : s.token '[' (c :: rest) = s.sign '[' := by
    have hstart : startsLongString '[' (c :: rest) = false := by
      simp [startsLongString, hopen, hequals]
    simp [token, startsNumeral, Numeral.isDigit, hstart, isNameStart]
  cases σ <;> simp [Sign.spelling] at h <;> obtain ⟨rfl, rfl⟩ := h <;>
    refine ⟨by decide, by simp [hminus], fun s => ?_⟩ <;>
    first | rfl | exact hdot s | exact hbracket s

theorem lex_sign (σ : Sign) {c : Char} (hc : isBlank c = true) (offset : Nat) (rest : List Char) :
    lex ⟨offset, σ.spelling.toList ++ c :: rest⟩ =
      lexeme ⟨offset + Text.size σ.spelling.toList, c :: rest⟩ offset (.sign σ) .none [] := by
  have hsign := ofChars?_spelling σ hc rest
  have hskip := skip_append σ.spelling.toList offset (c :: rest)
  rw [String.length_toList] at hskip
  obtain ⟨d, r, hstart⟩ : ∃ d r, σ.spelling.toList ++ c :: rest = d :: r :=
    List.exists_cons_of_ne_nil (by simp)
  obtain ⟨hblank, hcomment, htoken⟩ := token_spelling σ hc hstart
  rw [hstart] at hsign hskip ⊢
  rw [lex_of_start hblank hcomment, htoken, sign]
  simp only [hsign, hskip]

/-! ## Numerals -/

theorem isHexDigit_of_isDigit {c : Char} (h : Numeral.isDigit c = true) :
    Numeral.isHexDigit c = true := by
  rw [Numeral.isDigit] at h
  simp [Numeral.isHexDigit, Numeral.hexDigit?, h]

theorem not_isHexDigit_of_isBlank {c : Char} (hc : isBlank c = true) :
    Numeral.isHexDigit c = false := by
  simp only [isBlank, Bool.or_eq_true, beq_iff_eq] at hc
  rcases hc with ((((rfl | rfl) | rfl) | rfl) | rfl) | rfl <;> decide

/-- What starts with a digit is a numeral. -/
theorem lex_digit {c : Char} (hc : Numeral.isDigit c = true) (offset : Nat) (r : List Char) :
    lex ⟨offset, c :: r⟩ = numeral ⟨offset, c :: r⟩ := by
  have hblank : isBlank c = false := by
    cases h : isBlank c with
    | false => rfl
    | true =>
      rw [not_isDigit_of_isBlank h] at hc
      cases hc
  have hcomment : ∀ r', c :: r ≠ '-' :: '-' :: r' := by
    intro r' h
    obtain ⟨rfl, -⟩ := List.cons.inj h
    exact absurd hc (by decide)
  have hstart : isNameStart c = false := by
    simp only [Numeral.isDigit, Bool.and_eq_true, decide_eq_true_eq] at hc
    have hle : c.val ≤ '9'.val := hc.2
    simp only [isNameStart, Bool.or_eq_false_iff, Bool.and_eq_false_iff, decide_eq_false_iff_not,
      beq_eq_false_iff_ne]
    refine ⟨⟨.inl fun h => ?_, .inl fun h => ?_⟩, ?_⟩
    · exact absurd (UInt32.le_trans (show 'a'.val ≤ c.val from h) hle) (by decide)
    · exact absurd (UInt32.le_trans (show 'A'.val ≤ c.val from h) hle) (by decide)
    · rintro rfl
      exact absurd hle (by decide)
  rw [lex_of_start hblank hcomment, token, if_neg (by simp [hstart]),
    if_pos (by simp [startsNumeral, hc])]

theorem isNameChar_of_isHexDigit {c : Char} (h : Numeral.isHexDigit c = true) :
    isNameChar c = true := by
  have hle {lo hi hi' : Char} (hc : (lo ≤ c && c ≤ hi) = true) (hhi : hi ≤ hi') :
      (lo ≤ c && c ≤ hi') = true := by
    simp only [Bool.and_eq_true, decide_eq_true_eq] at hc ⊢
    exact ⟨hc.1, Char.le_trans hc.2 hhi⟩
  unfold Numeral.isHexDigit Numeral.hexDigit? at h
  split at h
  next hc => simp [isNameChar, hc]
  split at h
  next hc =>
    have hletter : ('a' ≤ c && c ≤ 'z') = true := hle hc (by decide)
    simp [isNameChar, isNameStart, hletter]
  split at h
  next hc =>
    have hletter : ('A' ≤ c && c ≤ 'Z') = true := hle hc (by decide)
    simp [isNameChar, isNameStart, hletter]
  next => cases h

/-- Neither a word nor a numeral goes on with what comes next. -/
def EndsNumeral (rest : List Char) : Prop :=
  ∀ c, rest.head? = some c → isNameChar c = false ∧ c ≠ '.'

theorem EndsNumeral.takeWhile {rest : List Char} (h : EndsNumeral rest) (offset : Nat) :
    takeWhile isNameChar ⟨offset, rest⟩ = ([], ⟨offset, rest⟩) :=
  takeWhile_append (fun c (hc : c ∈ []) => absurd hc (by simp)) (fun c hc => (h c hc).1) offset

/-- Digits are what is read of a numeral, if none of them is an exponent mark and nothing goes on
behind them. -/
theorem numeralRun_digits {isMark : Char → Bool} {digits : List Char}
    (hdigits : ∀ c ∈ digits, isMark c = false ∧ Numeral.isHexDigit c = true) {rest : List Char}
    (hmark : ∀ c, isMark c = true → isNameChar c = true) (hrest : EndsNumeral rest) :
    numeralRun isMark (digits ++ rest) = digits := by
  induction digits with
  | nil =>
    cases rest with
    | nil => rfl
    | cons c r =>
      obtain ⟨hword, hpoint⟩ := hrest c rfl
      have hno : ¬isMark c = true := fun hc => by simp [hmark c hc] at hword
      have hhex : ¬Numeral.isHexDigit c = true := fun hc => by
        simp [isNameChar_of_isHexDigit hc] at hword
      rw [List.nil_append, numeralRun.eq_def]
      simp [hno, hhex, hpoint]
  | cons d r ih =>
    rw [List.forall_mem_cons] at hdigits
    rw [List.cons_append, numeralRun.eq_def]
    simp [hdigits.1.1, hdigits.1.2, ih hdigits.2]

theorem isHexadecimal_of_second (c : Char) {d : Char} (hd : (d == 'x' || d == 'X') = false)
    (r : List Char) : isHexadecimal (c :: d :: r) = false := by
  unfold isHexadecimal
  split
  next heq =>
    cases heq
    exact hd
  next => rfl

/-- Decimal digits are read as what they stand for. -/
theorem lex_decimal {digits : List Char} (hne : digits ≠ [])
    (hdigits : ∀ c ∈ digits, Numeral.isDigit c = true) {x : Number}
    (hvalue : Numeral.decimal? digits = some x) {rest : List Char} (hrest : EndsNumeral rest)
    (offset : Nat) :
    lex ⟨offset, digits ++ rest⟩ =
      lexeme ⟨offset + Text.size digits, rest⟩ offset x.kind (.number x) [] := by
  obtain ⟨d, r, hd⟩ := List.exists_cons_of_ne_nil hne
  have hhex : isHexadecimal (digits ++ rest) = false := by
    rw [hd]
    cases r with
    | nil =>
      cases rest with
      | nil => rw [List.append_nil, isHexadecimal]; simp
      | cons e r =>
        have hclass : (!isNameChar e) = true := by simp [(hrest e rfl).1]
        exact isHexadecimal_of_second d
          (marks_of_class (p := (!isNameChar ·)) hclass (by decide) (by decide)) r
    | cons e r =>
      have hdigit := hdigits e (by simp [hd])
      exact isHexadecimal_of_second d (marks_of_class hdigit (by decide) (by decide)) _
  have hrun : numeralRun (fun c => c == 'e' || c == 'E') (digits ++ rest) = digits := by
    refine numeralRun_digits (fun d hd => ⟨?_, isHexDigit_of_isDigit (hdigits d hd)⟩) ?_ hrest
    · exact marks_of_class (hdigits d hd) (by decide) (by decide)
    · intro c hc
      rw [Bool.or_eq_true, beq_iff_eq, beq_iff_eq] at hc
      rcases hc with rfl | rfl <;> decide
  have hlex : lex ⟨offset, digits ++ rest⟩ = numeral ⟨offset, digits ++ rest⟩ := by
    have hdigit := hdigits d (by simp [hd])
    rw [hd]
    exact lex_digit hdigit offset _
  rw [hlex]
  simp only [numeral, hhex, Bool.false_eq_true, if_false, hrun, skip_append, hrest.takeWhile, hvalue]
  cases x <;> rfl

/-- Hexadecimal digits are read modulo `2^64`. -/
theorem lex_hexadecimal (capital : Bool) {digits : List Char} (hne : digits ≠ [])
    (hdigits : ∀ c ∈ digits, Numeral.isHexDigit c = true) {rest : List Char}
    (hrest : EndsNumeral rest) (offset : Nat) :
    lex ⟨offset, '0' :: Numeral.letter capital 'x' :: (digits ++ rest)⟩ =
      lexeme ⟨offset + 2 + Text.size digits, rest⟩ offset .integer
        (.number (.integer (UInt64.ofNat (Escape.hexValue digits)).toInt64)) [] := by
  have hrun : numeralRun (fun c => c == 'p' || c == 'P') (digits ++ rest) = digits := by
    refine numeralRun_digits (fun d hd => ⟨?_, hdigits d hd⟩) ?_ hrest
    · exact marks_of_class (hdigits d hd) (by decide) (by decide)
    · intro c hc
      rw [Bool.or_eq_true, beq_iff_eq, beq_iff_eq] at hc
      rcases hc with rfl | rfl <;> decide
  have hstart : (Scanner.mk offset ('0' :: Numeral.letter capital 'x' :: (digits ++ rest))).skip 2 =
      ⟨offset + 2, digits ++ rest⟩ := by
    cases capital <;> rfl
  have hhex : isHexadecimal ('0' :: Numeral.letter capital 'x' :: (digits ++ rest)) = true := by
    cases capital <;> rfl
  rw [lex_digit (by decide)]
  simp only [numeral, hhex, if_true, hstart, hrun, skip_append, hrest.takeWhile,
    Numeral.hexadecimal?_of_digits hne hdigits]

/-! ## Strings -/

/-- What the readers of escapes ask of a decimal digit. -/
theorem digitChar_class {d : Nat} (h : d < 10) :
    Numeral.isDigit d.digitChar = true ∧ Escape.named? d.digitChar = none ∧
      isLineBreak d.digitChar = false ∧ d.digitChar ≠ 'z' ∧ d.digitChar ≠ 'x' ∧
      d.digitChar.toNat - '0'.toNat = d ∧ d.digitChar.utf8Size = 1 := by
  revert d
  decide

theorem size_escape (b : UInt8) : Text.size (Item.escape b) = 4 := by
  have hb := b.toNat_lt
  obtain ⟨-, -, -, -, -, -, hsize1⟩ := digitChar_class (d := b.toNat / 100) (by omega)
  obtain ⟨-, -, -, -, -, -, hsize2⟩ := digitChar_class (d := b.toNat / 10 % 10) (by omega)
  obtain ⟨-, -, -, -, -, -, hsize3⟩ := digitChar_class (d := b.toNat % 10) (by omega)
  simp [Item.escape, hsize1, hsize2, hsize3, show '\\'.utf8Size = 1 from rfl]

theorem read_escape (b : UInt8) (offset : Nat) (rest : List Char) :
    Escape.read ⟨offset, (Item.escape b).tail ++ rest⟩ = ⟨.ok [b], ⟨offset + 3, rest⟩⟩ := by
  have hb := b.toNat_lt
  obtain ⟨h1, hnamed, hbreak, hz, hx, hvalue1, -⟩ := digitChar_class (d := b.toNat / 100) (by omega)
  obtain ⟨h2, -, -, -, -, hvalue2, -⟩ := digitChar_class (d := b.toNat / 10 % 10) (by omega)
  obtain ⟨h3, -, -, -, -, hvalue3, -⟩ := digitChar_class (d := b.toNat % 10) (by omega)
  have hvalue : Numeral.decimalValue (Item.escape b).tail = b.toNat := by
    simp only [Item.escape, List.tail_cons, Numeral.decimalValue, List.foldl_cons, List.foldl_nil,
      hvalue1, hvalue2, hvalue3]
    omega
  have hsize : Text.size (Item.escape b).tail = 3 := by
    have hescape := size_escape b
    simp only [Item.escape, Text.size_cons, List.tail_cons, show '\\'.utf8Size = 1 from rfl]
      at hescape ⊢
    omega
  have hdigits : (((Item.escape b).tail ++ rest).take 3).takeWhile Numeral.isDigit =
      (Item.escape b).tail := by
    simp [Item.escape, h1, h2, h3]
  have hdecimal : Escape.decimalByte ⟨offset, (Item.escape b).tail ++ rest⟩ =
      ⟨.ok [b], ⟨offset + 3, rest⟩⟩ := by
    simp only [Escape.decimalByte, hdigits, hvalue, skip_append, hsize]
    rw [if_pos hb, UInt8.ofNat_toNat]
  rw [← hdecimal]
  simp [Escape.read, Item.escape, hnamed, hbreak, hz, hx, h1]

/-- The quote that a string was opened with closes it. -/
theorem read_quote {quote : Char} (hquote : quote = '"' ∨ quote = '\'') (start offset : Nat)
    (rest : List Char) :
    QuotedString.read quote start ⟨offset, quote :: rest⟩ = ⟨[], [], ⟨offset + 1, rest⟩⟩ := by
  have hbreak : isLineBreak quote = false := by rcases hquote with rfl | rfl <;> decide
  have hsize : quote.utf8Size = 1 := by rcases hquote with rfl | rfl <;> decide
  rw [QuotedString.read]
  split
  next heq => cases heq
  next heq =>
    cases heq
    simp [hbreak, skip, hsize]

/-- A backslash hands over to an escape. -/
theorem read_backslash {quote : Char} (hquote : quote = '"' ∨ quote = '\'') (start offset : Nat)
    (rest : List Char) :
    QuotedString.read quote start ⟨offset, '\\' :: rest⟩ =
      (QuotedString.read quote start (Escape.read ⟨offset + 1, rest⟩).after).escape offset
        (Escape.read ⟨offset + 1, rest⟩) := by
  have hne : '\\' ≠ quote := by rcases hquote with rfl | rfl <;> decide
  rw [QuotedString.read]
  split
  next heq => cases heq
  next heq =>
    cases heq
    rw [if_neg (by decide), if_neg hne, if_pos rfl]
    rfl

theorem read_escapes {quote : Char} (hquote : quote = '"' ∨ quote = '\'') (bytes : List UInt8)
    (start offset : Nat) (rest : List Char) :
    QuotedString.read quote start ⟨offset, bytes.flatMap Item.escape ++ quote :: rest⟩ =
      ⟨bytes, [], ⟨offset + Text.size (bytes.flatMap Item.escape) + 1, rest⟩⟩ := by
  induction bytes generalizing offset with
  | nil => exact read_quote hquote start offset rest
  | cons b bytes ih =>
    have htext : (b :: bytes).flatMap Item.escape ++ quote :: rest =
        '\\' :: ((Item.escape b).tail ++ (bytes.flatMap Item.escape ++ quote :: rest)) := by
      simp [Item.escape]
    have hsize : Text.size ((b :: bytes).flatMap Item.escape) =
        4 + Text.size (bytes.flatMap Item.escape) := by
      rw [List.flatMap_cons, Text.size_append, size_escape]
    rw [htext, read_backslash hquote, read_escape, ih, hsize]
    simp only [QuotedString.Body.escape, List.singleton_append]
    rw [show offset + 1 + 3 + Text.size (bytes.flatMap Item.escape) + 1 =
      offset + (4 + Text.size (bytes.flatMap Item.escape)) + 1 by omega]

theorem lex_string {quote : Char} (hquote : quote = '"' ∨ quote = '\'') (bytes : List UInt8)
    (offset : Nat) (rest : List Char) :
    lex ⟨offset, quote :: (bytes.flatMap Item.escape ++ quote :: rest)⟩ =
      lexeme ⟨offset + 1 + Text.size (bytes.flatMap Item.escape) + 1, rest⟩ offset .string
        (.string bytes) [] := by
  have hskip (r : List Char) : (Scanner.mk offset (quote :: r)).skip 1 = ⟨offset + 1, r⟩ := by
    rcases hquote with rfl | rfl <;> rfl
  have hlex (r : List Char) :
      lex ⟨offset, quote :: r⟩ = quotedString ⟨offset, quote :: r⟩ quote := by
    rcases hquote with rfl | rfl <;> exact lex_of_start (by decide) (by simp) offset
  rw [hlex, quotedString, hskip, read_escapes hquote]

/-! ## Reading what was written -/

/-- A blank ends a word. -/
theorem endsWord_of_isBlank {c : Char} (hc : isBlank c = true) (rest : List Char) :
    EndsWord (c :: rest) := by
  intro d hd
  cases hd
  exact not_isNameChar_of_isBlank hc

theorem endsNumeral_of_isBlank {c : Char} (hc : isBlank c = true) (rest : List Char) :
    EndsNumeral (c :: rest) := by
  intro d hd
  cases hd
  exact ⟨not_isNameChar_of_isBlank hc, ne_of_class hc (by decide)⟩

/-- An item in front of a blank is read as what it is. -/
theorem lex_text (x : Item) {c : Char} (hc : isBlank c = true) (offset : Nat) (rest : List Char) :
    lex ⟨offset, x.text ++ c :: rest⟩ =
      (⟨x.token offset, []⟩, ⟨offset + Text.size x.text, c :: rest⟩) := by
  cases x with
  | keyword k => exact lex_keyword k (endsWord_of_isBlank hc rest) offset
  | sign σ => exact lex_sign σ hc offset rest
  | name word isWord free => exact lex_name isWord (endsWord_of_isBlank hc rest) free offset
  | decimal n nonneg =>
    have hvalue := Numeral.decimalValue_toDigits n.toInt.toNat
    have hpos : 0 ≤ n.toInt := Int64.le_iff_toInt_le.1 nonneg
    have hn : Int64.ofNat n.toInt.toNat = n := by
      rw [← Int64.ofInt_eq_ofNat, Int.toNat_of_nonneg hpos, Int64.ofInt_toInt]
    have hlt : n.toInt.toNat < 0x8000000000000000 := by
      have := n.toInt_lt
      omega
    have hdigits : ∀ d ∈ Nat.toDigits 10 n.toInt.toNat, Numeral.isDigit d = true :=
      fun d hd => Numeral.isDigit_of_mem_toDigits hd
    have hread := Numeral.decimal?_of_digits Nat.toDigits_ne_nil hdigits (by rw [hvalue]; exact hlt)
    rw [hvalue, hn] at hread
    exact lex_decimal Nat.toDigits_ne_nil hdigits hread (endsNumeral_of_isBlank hc rest) offset
  | hexadecimal capital n =>
    have h := lex_hexadecimal false (Numeral.hexDigits_ne_nil capital n.toUInt64.toNat)
      (fun d hd => Numeral.isHexDigit_of_mem_hexDigits hd) (endsNumeral_of_isBlank hc rest) offset
    have hsize : Text.size (Item.hexadecimal capital n).text =
        2 + Text.size (Numeral.hexDigits capital n.toUInt64.toNat) := by
      simp only [Item.text, Text.size_cons, show '0'.utf8Size = 1 from rfl,
        show 'x'.utf8Size = 1 from rfl]
      omega
    rw [Numeral.hexValue_hexDigits, UInt64.ofNat_toNat, show n.toUInt64.toInt64 = n from rfl,
      Nat.add_assoc, ← hsize] at h
    exact h
  | string quote isQuote bytes =>
    have h := lex_string isQuote bytes offset (c :: rest)
    have htext : (Item.string quote isQuote bytes).text ++ c :: rest =
        quote :: (bytes.flatMap Item.escape ++ quote :: c :: rest) := by
      simp [Item.text]
    have hquote : quote.utf8Size = 1 := by rcases isQuote with rfl | rfl <;> rfl
    have hsize : Text.size (Item.string quote isQuote bytes).text =
        1 + Text.size (bytes.flatMap Item.escape) + 1 := by
      simp only [Item.text, Text.size_cons, Text.size_append, Text.size_nil, hquote]
      omega
    rw [Nat.add_assoc, Nat.add_assoc, ← Nat.add_assoc 1, ← hsize] at h
    rw [htext]
    exact h

end Scanner

/-- An item and what is written behind it: a blank, and then blanks and comments of any kind. -/
structure Item.Spaced where
  item : Item
  space : Char
  isBlank_space : isBlank space = true
  more : List Blank

namespace Item.Spaced

def text (x : Spaced) : List Char := x.item.text ++ x.space :: Blank.texts x.more

/-- The tokens of items one after the other, and the end of file behind them. -/
def tokens : Nat → List Spaced → List Token
  | offset, [] => [⟨.endOfFile, Span.empty offset, .none, false⟩]
  | offset, x :: xs => x.item.token offset :: tokens (offset + Text.size x.text) xs

end Item.Spaced

namespace Scanner

/-- Blanks in front of tokens change where these stand, and nothing else. -/
theorem lexemes_texts (bs : List Blank) (offset : Nat) (rest : List Char) :
    lexemes ⟨offset, Blank.texts bs ++ rest⟩ = lexemes ⟨offset + Text.size (Blank.texts bs), rest⟩ := by
  have hlex : lex ⟨offset, Blank.texts bs ++ rest⟩ =
      lex ⟨offset + Text.size (Blank.texts bs), rest⟩ := by
    simp only [lex, skipBlanks_texts]
  rw [lexemes.eq_def, hlex, ← lexemes.eq_def]

theorem lexemes_nil (offset : Nat) :
    lexemes ⟨offset, []⟩ = [⟨⟨.endOfFile, Span.empty offset, .none, false⟩, []⟩] := by
  rw [lexemes, lex_of_rest rfl]
  rfl

/-- After a token comes all that is read behind it. -/
theorem lexemes_of_lex {s after : Scanner} {start : Nat} {kind : Kind} {value : Value}
    {ds : List Diagnostic} (hkind : kind ≠ .endOfFile) (h : s.lex = lexeme after start kind value ds) :
    s.lexemes = ⟨⟨kind, after.spanFrom start, value, false⟩, ds⟩ :: after.lexemes := by
  rw [lexemes]
  simp only [h, lexeme, hkind, dite_false]

/-- A token that a text consists of is its only one. -/
theorem lexemes_of_whole {cs : List Char} {kind : Kind} {value : Value} {ds : List Diagnostic}
    (hkind : kind ≠ .endOfFile)
    (h : lex ⟨0, cs⟩ = lexeme ⟨Text.size cs, []⟩ 0 kind value ds) :
    (ofSource (Text.Source.ofChars cs)).lexemes =
      [⟨⟨kind, ⟨0, Text.size cs⟩, value, false⟩, ds⟩,
        ⟨⟨.endOfFile, Span.empty (Text.size cs), .none, false⟩, []⟩] := by
  rw [ofSource, Text.Source.chars_ofChars, lexemes_of_lex hkind h, lexemes_nil]
  rfl

theorem lexemes_spaced (xs : List Item.Spaced) (offset : Nat) :
    lexemes ⟨offset, xs.flatMap Item.Spaced.text⟩ = (Item.Spaced.tokens offset xs).map (⟨·, []⟩) := by
  induction xs generalizing offset with
  | nil => exact lexemes_nil offset
  | cons x xs ih =>
    have htext : (x :: xs).flatMap Item.Spaced.text =
        x.item.text ++ x.space :: (Blank.texts x.more ++ xs.flatMap Item.Spaced.text) := by
      simp [Item.Spaced.text]
    have hlex := lex_text x.item x.isBlank_space offset
      (Blank.texts x.more ++ xs.flatMap Item.Spaced.text)
    have hkind : (x.item.token offset).kind ≠ .endOfFile := by
      rw [Item.token]
      cases x.item <;> simp [Item.kind]
    have hrest := lexemes_texts (.space x.space x.isBlank_space :: x.more)
      (offset + Text.size x.item.text) (xs.flatMap Item.Spaced.text)
    rw [Nat.add_assoc, ← Text.size_append] at hrest
    rw [htext, lexemes]
    simp only [hlex, hkind, dite_false]
    exact congrArg _ (hrest.trans (ih _))

/-- Items that are written one after the other, each with a blank behind it and then whatever may
stand between tokens, are read as these items where they were written, without a diagnostic. -/
theorem lexemes_text (xs : List Item.Spaced) :
    (ofSource (Text.Source.ofChars (xs.flatMap Item.Spaced.text))).lexemes =
      (Item.Spaced.tokens 0 xs).map (⟨·, []⟩) := by
  rw [ofSource, Text.Source.chars_ofChars]
  exact lexemes_spaced xs 0

end Scanner
end LuaFront
