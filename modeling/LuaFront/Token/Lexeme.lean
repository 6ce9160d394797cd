import LuaFront.Token.Basic
import LuaFront.Token.Escape
import LuaFront.Token.LongBracket

/-!
# LuaFront.Token.Lexeme

Reading tokens. A lexeme is a token with the diagnostics that reading it gave rise to; blanks and
comments before a token are skipped. Every lexeme but the end of the text consumes at least one
character, so a text has finitely many.
-/

namespace LuaFront

open Text (Span)

structure Lexeme where
  token : Token
  /-- What was wrong with the token, or with a comment before it. -/
  diagnostics : List Diagnostic
deriving DecidableEq, Inhabited, Repr

namespace Scanner

/-- Skips a comment, the two hyphens of which come next. -/
def comment (s : Scanner) : List Diagnostic × Scanner :=
  let inside := s.skip 2
  match LongBracket.level? inside.rest with
  | some level =>
    let body := LongBracket.read level (inside.skip (level + 2))
    (if body.closed then [] else [⟨body.after.spanFrom s.offset, .unterminatedLongComment⟩],
      body.after)
  | none => ([], (inside.takeWhile (!isLineBreak ·)).2)

theorem length_comment_lt (s : Scanner) (h : s.rest ≠ []) :
    s.comment.2.rest.length < s.rest.length := by
  have hpos := List.length_pos_iff.2 h
  simp only [comment]
  split
  · rename_i level _
    have := LongBracket.length_read_le level ((s.skip 2).skip (level + 2))
    simp only [rest_skip, List.length_drop] at this ⊢
    omega
  · have := length_dropWhile_le (!isLineBreak ·) (s.rest.drop 2)
    simp only [rest_takeWhile, rest_skip, List.length_drop] at this ⊢
    omega

/-- Skips blanks and comments. -/
def skipBlanks (s : Scanner) : List Diagnostic × Scanner :=
  match h : s.rest with
  | '-' :: '-' :: _ =>
    have := length_comment_lt s (by simp [h])
    let later := skipBlanks s.comment.2
    (s.comment.1 ++ later.1, later.2)
  | c :: _ => if isBlank c then skipBlanks (s.skip 1) else ([], s)
  | [] => ([], s)
termination_by s.rest.length
decreasing_by
  · simpa [h] using this
  · simp [h]

theorem length_skipBlanks_le (s : Scanner) : s.skipBlanks.2.rest.length ≤ s.rest.length := by
  fun_induction skipBlanks s with
  | case1 s _ h shorter later ih =>
    simp only [later]
    omega
  | case2 s c r h _ _ ih =>
    simp only [rest_skip, List.length_drop] at ih
    omega
  | case3 => exact Nat.le_refl _
  | case4 => exact Nat.le_refl _

/-- A token that was read from `start` up to this place. -/
def lexeme (s : Scanner) (start : Nat) (kind : Kind) (value : Value) (ds : List Diagnostic) :
    Lexeme × Scanner :=
  (⟨⟨kind, s.spanFrom start, value, false⟩, ds⟩, s)

/-- Reads a name or a keyword. -/
def word (s : Scanner) : Lexeme × Scanner :=
  let text := String.ofList (s.takeWhile isNameChar).1
  let after := (s.takeWhile isNameChar).2
  match Keyword.ofWord? text with
  | some k => after.lexeme s.offset (.keyword k) .none []
  | none => after.lexeme s.offset .name (.name text) []

/-- The longest run of hexadecimal digits, points, and exponent marks with an optional sign. -/
def numeralRun (isMark : Char → Bool) : List Char → List Char
  | [] => []
  | c :: r =>
    if isMark c then
      match r with
      | '+' :: r' => c :: '+' :: numeralRun isMark r'
      | '-' :: r' => c :: '-' :: numeralRun isMark r'
      | r => c :: numeralRun isMark r
    else if Numeral.isHexDigit c || c == '.' then c :: numeralRun isMark r
    else []

/-- Whether a hexadecimal numeral comes next. -/
def isHexadecimal : List Char → Bool
  | '0' :: c :: _ => c == 'x' || c == 'X'
  | _ => false

/-- Reads a numeral: everything that could belong to it is consumed before its form is judged. -/
def numeral (s : Scanner) : Lexeme × Scanner :=
  let hexadecimal := isHexadecimal s.rest
  let start := if hexadecimal then s.skip 2 else s
  let isMark (c : Char) : Bool :=
    if hexadecimal then c == 'p' || c == 'P' else c == 'e' || c == 'E'
  let text := numeralRun isMark start.rest
  let excess := ((start.skip text.length).takeWhile isNameChar).1
  let after := ((start.skip text.length).takeWhile isNameChar).2
  let value? := if hexadecimal then Numeral.hexadecimal? text else Numeral.decimal? text
  match value?, excess with
  | some (.integer n), [] => after.lexeme s.offset .integer (.number (.integer n)) []
  | some (.float x), [] => after.lexeme s.offset .float (.number (.float x)) []
  | _, _ =>
    after.lexeme s.offset .integer (.number (.integer 0))
      [⟨after.spanFrom s.offset, .malformedNumber⟩]

/-- Reads a string between quotes, the opening one of which is `quote`. -/
def quotedString (s : Scanner) (quote : Char) : Lexeme × Scanner :=
  let body := QuotedString.read quote s.offset (s.skip 1)
  body.after.lexeme s.offset .string (.string body.bytes) body.diagnostics

/-- Reads a string between long brackets, or the start of a broken opening bracket. -/
def longString (s : Scanner) : Lexeme × Scanner :=
  match LongBracket.level? s.rest with
  | some level =>
    let body := LongBracket.read level (s.skip (level + 2))
    body.after.lexeme s.offset .string (.string body.bytes)
      (if body.closed then [] else [⟨body.after.spanFrom s.offset, .unterminatedLongString⟩])
  | none =>
    let after := ((s.skip 1).takeWhile (· == '=')).2
    after.lexeme s.offset .bad .none [⟨after.spanFrom s.offset, .invalidLongStringDelimiter⟩]

/-- Reads a sign, or a character that starts no token. -/
def sign (s : Scanner) (c : Char) : Lexeme × Scanner :=
  match Sign.ofChars? s.rest with
  | some sign => (s.skip sign.spelling.length).lexeme s.offset (.sign sign) .none []
  | none =>
    let after := s.skip 1
    after.lexeme s.offset .bad .none [⟨after.spanFrom s.offset, .badCharacter c⟩]

/-- Whether a numeral starts with `c`, before `r`. -/
def startsNumeral (c : Char) (r : List Char) : Bool :=
  Numeral.isDigit c || (c == '.' && r.head?.any Numeral.isDigit)

/-- Whether a long string starts with `c`, before `r`, if need be a broken one. -/
def startsLongString (c : Char) (r : List Char) : Bool :=
  c == '[' && r.head?.any fun d => d == '[' || d == '='

/-- Reads a token that starts with `c`, before `r`. -/
def token (s : Scanner) (c : Char) (r : List Char) : Lexeme × Scanner :=
  if isNameStart c then s.word
  else if startsNumeral c r then s.numeral
  else if c = '"' ∨ c = '\'' then s.quotedString c
  else if startsLongString c r then s.longString
  else s.sign c

/-- Skips blanks and comments and reads one token, which at the end of the text is the end of
file. -/
def lex (s : Scanner) : Lexeme × Scanner :=
  let before := s.skipBlanks.1
  let start := s.skipBlanks.2
  match start.rest with
  | [] => start.lexeme start.offset .endOfFile .none before
  | c :: r =>
    let here := start.token c r
    ({ here.1 with diagnostics := before ++ here.1.diagnostics }, here.2)

@[simp] theorem lexeme_snd (s : Scanner) (start : Nat) (kind : Kind) (value : Value)
    (ds : List Diagnostic) : (s.lexeme start kind value ds).2 = s := rfl

theorem length_word_lt {s : Scanner} {c : Char} {r : List Char} (h : s.rest = c :: r)
    (hc : isNameStart c = true) : s.word.2.rest.length < s.rest.length := by
  have hr := length_dropWhile_le isNameChar r
  have hn : isNameChar c = true := by simp [isNameChar, hc]
  simp only [word]
  split <;> simp [h, hn] <;> omega

theorem numeralRun_ne_nil {isMark : Char → Bool} {c : Char} {r : List Char}
    (hc : startsNumeral c r = true) : numeralRun isMark (c :: r) ≠ [] := by
  have : Numeral.isHexDigit c = true ∨ c = '.' := by
    simp only [startsNumeral, Bool.or_eq_true, Bool.and_eq_true, beq_iff_eq] at hc
    rcases hc with hc | hc
    · left
      simp only [Numeral.isDigit] at hc
      simp [Numeral.isHexDigit, Numeral.hexDigit?, hc]
    · exact .inr hc.1
  unfold numeralRun
  split
  · split <;> simp
  · rw [if_pos (by simpa using this)]
    simp

theorem length_numeral_lt {s : Scanner} {c : Char} {r : List Char} (h : s.rest = c :: r)
    (hc : startsNumeral c r = true) : s.numeral.2.rest.length < s.rest.length := by
  have hpos : 0 < s.rest.length := by simp [h]
  have hd (n m : Nat) := length_dropWhile_le isNameChar ((s.rest.drop n).drop m)
  simp only [List.length_drop] at hd
  simp only [numeral]
  by_cases hx : isHexadecimal s.rest = true
  · simp only [hx, if_true]
    split <;> simp only [lexeme_snd, rest_takeWhile, rest_skip] <;>
      exact Nat.lt_of_le_of_lt (hd ..) (by omega)
  · have hrun (isMark : Char → Bool) : 0 < (numeralRun isMark s.rest).length := by
      rw [h]
      exact List.length_pos_iff.2 (numeralRun_ne_nil hc)
    simp only [hx, if_false, Bool.false_eq_true]
    split <;> simp only [lexeme_snd, rest_takeWhile, rest_skip] <;>
      exact Nat.lt_of_le_of_lt (hd 0 _) (Nat.sub_lt hpos (hrun _))

theorem length_quotedString_lt {s : Scanner} (q : Char) (h : s.rest ≠ []) :
    (s.quotedString q).2.rest.length < s.rest.length := by
  have hpos := List.length_pos_iff.2 h
  have := QuotedString.length_read_le q s.offset (s.skip 1)
  simp only [rest_skip, List.length_drop] at this
  simp only [quotedString, lexeme_snd]
  omega

theorem length_longString_lt {s : Scanner} (h : s.rest ≠ []) :
    s.longString.2.rest.length < s.rest.length := by
  have hpos := List.length_pos_iff.2 h
  simp only [longString]
  split
  · rename_i level _
    have := LongBracket.length_read_le level (s.skip (level + 2))
    simp only [rest_skip, List.length_drop] at this
    simp only [lexeme_snd]
    omega
  · have := length_dropWhile_le (· == '=') (s.rest.drop 1)
    simp only [lexeme_snd, rest_takeWhile, rest_skip, List.length_drop] at this ⊢
    omega

theorem length_sign_lt {s : Scanner} (c : Char) (h : s.rest ≠ []) :
    (s.sign c).2.rest.length < s.rest.length := by
  have hpos := List.length_pos_iff.2 h
  simp only [sign]
  split
  · rename_i sign _
    have : 0 < sign.spelling.length := by cases sign <;> decide
    simp only [lexeme_snd, rest_skip, List.length_drop]
    omega
  · simp only [lexeme_snd, rest_skip, List.length_drop]
    omega

theorem length_token_lt {s : Scanner} {c : Char} {r : List Char} (h : s.rest = c :: r) :
    (s.token c r).2.rest.length < s.rest.length := by
  have hne : s.rest ≠ [] := by simp [h]
  unfold token
  split
  next hc => exact length_word_lt h hc
  split
  next hc => exact length_numeral_lt h hc
  split
  · exact length_quotedString_lt c hne
  split
  · exact length_longString_lt hne
  · exact length_sign_lt c hne

/-- A token other than the end of file consumes something. -/
theorem length_lex_lt {s : Scanner} (h : s.lex.1.token.kind ≠ .endOfFile) :
    s.lex.2.rest.length < s.rest.length := by
  have hle := length_skipBlanks_le s
  simp only [lex] at h ⊢
  split
  next hr => simp [hr, lexeme] at h
  next c r hr => exact Nat.lt_of_lt_of_le (length_token_lt hr) hle

/-- All lexemes of a text, the last of which is the end of file. -/
def lexemes (s : Scanner) : List Lexeme :=
  let here := s.lex
  if _h : here.1.token.kind = .endOfFile then [here.1] else here.1 :: lexemes here.2
termination_by s.rest.length
decreasing_by exact length_lex_lt _h

end Scanner
end LuaFront
