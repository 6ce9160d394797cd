import LuaFront.Text.Source
import LuaFront.Token.Lexeme

/-!
# LuaFront.Token.Lexer

Reading tokens while walking over a text in segments. Nothing here sees more of the text than the
next character of a cursor: to look further ahead, the readers of long brackets, numerals and signs
walk on with a copy of it. A `Lexer` hands out the lexemes of a text one by one.
-/

namespace LuaFront

namespace Text.Cursor

open Numeral (isDigit isHexDigit)
open Scanner (isBlank isLineBreak isNameStart isNameChar)

/-- The stretch of text from `start` to this place. -/
def spanFrom (c : Cursor) (start : Nat) : Span := ⟨start, c.offset⟩

/-- Passes over the line ending that comes next: a carriage return and a line feed, in either order,
are one line ending. -/
def eatLineEnding (c : Cursor) : Cursor :=
  (c.eat.eatUpTo (fun second => isLineBreak second && some second != c.peek) 1).2

theorem left_eatLineEnding_lt {c : Cursor} {x : Char} (h : c.peek = some x) :
    c.eatLineEnding.left < c.left :=
  Nat.lt_of_le_of_lt (left_eatUpTo_le ..) (left_eat_lt h)

theorem left_eatLineEnding_le (c : Cursor) : c.eatLineEnding.left ≤ c.left :=
  Nat.le_trans (left_eatUpTo_le ..) (left_eat_le c)

/-! ## Long brackets -/

/-- The level of an opening long bracket of which `level` equals signs were seen. -/
def levelFrom (level : Nat) (ahead : Cursor) : Option Nat :=
  match _h : ahead.peek with
  | some x =>
    if x = '=' then levelFrom (level + 1) ahead.eat
    else if x = '[' then some level
    else none
  | none => none
termination_by ahead.left
decreasing_by exact left_eat_lt _h

theorem levelFrom_of_none {c : Cursor} (level : Nat) (h : c.peek = none) :
    levelFrom level c = none := by
  rw [levelFrom]
  split <;> simp_all

theorem levelFrom_of_some {c : Cursor} {x : Char} (level : Nat) (h : c.peek = some x) :
    levelFrom level c =
      if x = '=' then levelFrom (level + 1) c.eat
      else if x = '[' then some level
      else none := by
  rw [levelFrom]
  split <;> simp_all

/-- The level of the opening long bracket that comes next, if one does. -/
def longBracketLevel? (c : Cursor) : Option Nat :=
  if c.peek = some '[' then levelFrom 0 c.eat else none

/-- Whether `level` equals signs and a closing bracket come next. -/
def closesFrom : Nat → Cursor → Bool
  | 0, ahead => ahead.peek == some ']'
  | level + 1, ahead => ahead.peek == some '=' && closesFrom level ahead.eat

/-- Whether the closing long bracket of a level comes next. -/
def closesLongBracket (level : Nat) (c : Cursor) : Bool :=
  c.peek == some ']' && closesFrom level c.eat

/-- What was read between long brackets, whether the closing one was found, and the place after
it. -/
structure LongBody where
  bytes : List UInt8
  closed : Bool
  after : Cursor

/-- More bytes in front of a body. -/
def LongBody.push (bytes : List UInt8) (b : LongBody) : LongBody :=
  { b with bytes := bytes ++ b.bytes }

/-- Reads up to and including the closing bracket. Each line ending becomes a line feed. -/
def longBodyFrom (level : Nat) (c : Cursor) : LongBody :=
  match _h : c.peek with
  | none => ⟨[], false, c⟩
  | some x =>
    if x = ']' ∧ c.closesLongBracket level then ⟨[], true, c.forward (level + 2)⟩
    else if isLineBreak x then (longBodyFrom level c.eatLineEnding).push [10]
    else (longBodyFrom level c.eat).push (String.utf8EncodeChar x)
termination_by c.left
decreasing_by
  · exact left_eatLineEnding_lt _h
  · exact left_eat_lt _h

theorem longBodyFrom_of_none {c : Cursor} (level : Nat) (h : c.peek = none) :
    longBodyFrom level c = ⟨[], false, c⟩ := by
  rw [longBodyFrom]
  split <;> simp_all

theorem longBodyFrom_of_some {c : Cursor} {x : Char} (level : Nat) (h : c.peek = some x) :
    longBodyFrom level c =
      if x = ']' ∧ c.closesLongBracket level then ⟨[], true, c.forward (level + 2)⟩
      else if isLineBreak x then (longBodyFrom level c.eatLineEnding).push [10]
      else (longBodyFrom level c.eat).push (String.utf8EncodeChar x) := by
  rw [longBodyFrom]
  split <;> simp_all

/-- Reads a body whose opening bracket was just passed. A line ending right after the bracket does
not belong to the body. -/
def longBody (level : Nat) (c : Cursor) : LongBody :=
  longBodyFrom level (if c.peek.any isLineBreak then c.eatLineEnding else c)

theorem left_longBodyFrom_le (level : Nat) (c : Cursor) :
    (longBodyFrom level c).after.left ≤ c.left := by
  fun_induction longBodyFrom level c with
  | case1 => exact Nat.le_refl _
  | case2 => exact left_forward_le ..
  | case3 c x h _ _ ih => exact Nat.le_trans ih (left_eatLineEnding_le c)
  | case4 c x h _ _ ih => exact Nat.le_trans ih (left_eat_le c)

theorem left_longBody_le (level : Nat) (c : Cursor) : (longBody level c).after.left ≤ c.left := by
  refine Nat.le_trans (left_longBodyFrom_le ..) ?_
  split
  · exact left_eatLineEnding_le c
  · exact Nat.le_refl _

/-- Skips a comment, the two hyphens of which come next. -/
def comment (c : Cursor) : List Diagnostic × Cursor :=
  let inside := c.eat.eat
  match inside.longBracketLevel? with
  | some level =>
    let body := longBody level (inside.forward (level + 2))
    (if body.closed then [] else [⟨body.after.spanFrom c.offset, .unterminatedLongComment⟩],
      body.after)
  | none => ([], (inside.eatWhile (!isLineBreak ·)).2)

theorem left_comment_lt {c : Cursor} {x : Char} (h : c.peek = some x) :
    c.comment.2.left < c.left := by
  have hinside : c.eat.eat.left < c.left := Nat.lt_of_le_of_lt (left_eat_le _) (left_eat_lt h)
  refine Nat.lt_of_le_of_lt ?_ hinside
  unfold comment
  simp only
  split
  · exact Nat.le_trans (left_longBody_le ..) (left_forward_le ..)
  · exact left_eatWhile_le ..

/-! ## Quoted strings -/

/-- Two hexadecimal digits, after the `x`. -/
def hexByte (c : Cursor) : Except Cause (List UInt8) × Cursor :=
  let digits := c.eatUpTo isHexDigit 2
  (if digits.1.length = 2 then .ok [UInt8.ofNat (Escape.hexValue digits.1)]
    else .error .incompleteEscape, digits.2)

/-- Up to three decimal digits. -/
def decimalByte (c : Cursor) : Except Cause (List UInt8) × Cursor :=
  let digits := c.eatUpTo isDigit 3
  let value := Numeral.decimalValue digits.1
  (if value < 256 then .ok [UInt8.ofNat value] else .error .decimalEscapeTooLarge, digits.2)

/-- Any number of hexadecimal digits between braces, after the `u`. -/
def utf8Value (c : Cursor) : Except Cause (List UInt8) × Cursor :=
  if c.peek = some '{' then
    let digits := c.eat.eatWhile isHexDigit
    if digits.1 = [] then (.error .incompleteEscape, digits.2)
    else if digits.2.peek = some '}' then
      let value := Escape.hexValue digits.1
      (if value < 0x80000000 then .ok (Utf8.encodeValue value) else .error .utf8ValueTooLarge,
        digits.2.eat)
    else (.error (.expectedCharacter digits.2.peek '}'), digits.2)
  else (.error (.expectedCharacter c.peek '{'), c)

/-- Reads an escape whose backslash was just passed: what it stands for, or what is wrong with
it. -/
def escape (c : Cursor) : Except Cause (List UInt8) × Cursor :=
  match c.peek with
  | none => (.error .unterminatedEscape, c)
  | some x =>
    match Escape.named? x with
    | some byte => (.ok [byte], c.eat)
    | none =>
      if isLineBreak x then (.ok [10], c.eatLineEnding)
      else if x = 'z' then (.ok [], (c.eat.eatWhile isBlank).2)
      else if x = 'x' then c.eat.hexByte
      else if isDigit x then c.decimalByte
      else if x = 'u' then c.eat.utf8Value
      else (.error (.invalidEscape (some x)), c.eat)

theorem left_utf8Value_le (c : Cursor) : c.utf8Value.2.left ≤ c.left := by
  have hdigits : (c.eat.eatWhile isHexDigit).2.left ≤ c.left :=
    Nat.le_trans (left_eatWhile_le ..) (left_eat_le c)
  unfold utf8Value
  split
  · dsimp only
    split
    · exact hdigits
    split
    · exact Nat.le_trans (left_eat_le _) hdigits
    · exact hdigits
  · exact Nat.le_refl _

theorem left_escape_le (c : Cursor) : c.escape.2.left ≤ c.left := by
  have heat := left_eat_le c
  unfold escape
  split
  · exact Nat.le_refl _
  split
  · exact heat
  split
  · exact left_eatLineEnding_le c
  split
  · exact Nat.le_trans (left_eatWhile_le ..) heat
  split
  · exact Nat.le_trans (left_eatUpTo_le ..) heat
  split
  · exact left_eatUpTo_le ..
  split
  · exact Nat.le_trans (left_utf8Value_le _) heat
  · exact heat

/-- What was read of a quoted string after its opening quote. -/
structure QuotedBody where
  bytes : List UInt8
  diagnostics : List Diagnostic
  after : Cursor

/-- More bytes in front of a body. -/
def QuotedBody.push (bytes : List UInt8) (b : QuotedBody) : QuotedBody :=
  { b with bytes := bytes ++ b.bytes }

/-- What an escape adds to the body after it. -/
def QuotedBody.escaped (place : Span) (meaning : Except Cause (List UInt8)) (b : QuotedBody) :
    QuotedBody :=
  match meaning with
  | .ok bytes => b.push bytes
  | .error cause => { b with diagnostics := ⟨place, cause⟩ :: b.diagnostics }

@[simp] theorem after_push (bytes : List UInt8) (b : QuotedBody) :
    (b.push bytes).after = b.after := rfl

@[simp] theorem after_escaped (place : Span) (meaning : Except Cause (List UInt8)) (b : QuotedBody) :
    (b.escaped place meaning).after = b.after := by
  unfold QuotedBody.escaped
  split <;> rfl

/-- Reads up to and including the closing quote. The string, which began at `start`, ends early
at a line break. -/
def quotedBody (quote : Char) (start : Nat) (c : Cursor) : QuotedBody :=
  match _h : c.peek with
  | none => ⟨[], [⟨c.spanFrom start, .unterminatedString⟩], c⟩
  | some x =>
    if isLineBreak x then ⟨[], [⟨c.spanFrom start, .unterminatedString⟩], c⟩
    else if x = quote then ⟨[], [], c.eat⟩
    else if x = '\\' then
      let outcome := c.eat.escape
      (quotedBody quote start outcome.2).escaped (outcome.2.spanFrom c.offset) outcome.1
    else (quotedBody quote start c.eat).push (String.utf8EncodeChar x)
termination_by c.left
decreasing_by
  · exact Nat.lt_of_le_of_lt (left_escape_le _) (left_eat_lt _h)
  · exact left_eat_lt _h

theorem quotedBody_of_none {c : Cursor} (quote : Char) (start : Nat) (h : c.peek = none) :
    quotedBody quote start c = ⟨[], [⟨c.spanFrom start, .unterminatedString⟩], c⟩ := by
  rw [quotedBody]
  split <;> simp_all

theorem quotedBody_of_some {c : Cursor} {x : Char} (quote : Char) (start : Nat)
    (h : c.peek = some x) :
    quotedBody quote start c =
      if isLineBreak x then ⟨[], [⟨c.spanFrom start, .unterminatedString⟩], c⟩
      else if x = quote then ⟨[], [], c.eat⟩
      else if x = '\\' then
        (quotedBody quote start c.eat.escape.2).escaped (c.eat.escape.2.spanFrom c.offset)
          c.eat.escape.1
      else (quotedBody quote start c.eat).push (String.utf8EncodeChar x) := by
  rw [quotedBody]
  split <;> simp_all

theorem left_quotedBody_le (quote : Char) (start : Nat) (c : Cursor) :
    (quotedBody quote start c).after.left ≤ c.left := by
  fun_induction quotedBody quote start c with
  | case1 => exact Nat.le_refl _
  | case2 => exact Nat.le_refl _
  | case3 c => exact left_eat_le c
  | case4 c h _ _ outcome ih =>
    rw [after_escaped]
    exact Nat.le_trans ih (Nat.le_trans (left_escape_le _) (left_eat_le c))
  | case5 c x h _ _ _ ih => exact Nat.le_trans ih (left_eat_le c)

/-! ## Tokens -/

/-- A token that was read from `start` up to this place. -/
def lexeme (c : Cursor) (start : Nat) (kind : Kind) (value : Value) (ds : List Diagnostic) :
    Lexeme × Cursor :=
  (⟨⟨kind, c.spanFrom start, value, false⟩, ds⟩, c)

/-- Reads a name or a keyword. -/
def word (c : Cursor) : Lexeme × Cursor :=
  let text := String.ofList (c.eatWhile isNameChar).1
  let after := (c.eatWhile isNameChar).2
  match Keyword.ofWord? text with
  | some k => after.lexeme c.offset (.keyword k) .none []
  | none => after.lexeme c.offset .name (.name text) []

/-- The longest run of hexadecimal digits, points, and exponent marks with an optional sign, and the
place after it. -/
def numeralRun (isMark : Char → Bool) (c : Cursor) : List Char × Cursor :=
  match _h : c.peek with
  | some x =>
    if isMark x then
      let sign := c.eat.eatUpTo (fun s => s == '+' || s == '-') 1
      let later := numeralRun isMark sign.2
      (x :: (sign.1 ++ later.1), later.2)
    else if isHexDigit x || x == '.' then
      let later := numeralRun isMark c.eat
      (x :: later.1, later.2)
    else ([], c)
  | none => ([], c)
termination_by c.left
decreasing_by
  · exact Nat.lt_of_le_of_lt (left_eatUpTo_le ..) (left_eat_lt _h)
  · exact left_eat_lt _h

theorem numeralRun_of_none {c : Cursor} (isMark : Char → Bool) (h : c.peek = none) :
    numeralRun isMark c = ([], c) := by
  rw [numeralRun]
  split <;> simp_all

theorem numeralRun_of_some {c : Cursor} {x : Char} (isMark : Char → Bool) (h : c.peek = some x) :
    numeralRun isMark c =
      if isMark x then
        let sign := c.eat.eatUpTo (fun s => s == '+' || s == '-') 1
        let later := numeralRun isMark sign.2
        (x :: (sign.1 ++ later.1), later.2)
      else if isHexDigit x || x == '.' then
        (x :: (numeralRun isMark c.eat).1, (numeralRun isMark c.eat).2)
      else ([], c) := by
  rw [numeralRun]
  split <;> simp_all

/-- Reads a numeral: everything that could belong to it is consumed before its form is judged. -/
def numeral (c : Cursor) : Lexeme × Cursor :=
  let hexadecimal := c.peek == some '0' && c.peekSecond.any fun x => x == 'x' || x == 'X'
  let start := if hexadecimal then c.eat.eat else c
  let isMark (x : Char) : Bool :=
    if hexadecimal then x == 'p' || x == 'P' else x == 'e' || x == 'E'
  let text := (start.numeralRun isMark).1
  let excess := ((start.numeralRun isMark).2.eatWhile isNameChar).1
  let after := ((start.numeralRun isMark).2.eatWhile isNameChar).2
  let value? := if hexadecimal then Numeral.hexadecimal? text else Numeral.decimal? text
  match value?, excess with
  | some (.integer n), [] => after.lexeme c.offset .integer (.number (.integer n)) []
  | some (.float x), [] => after.lexeme c.offset .float (.number (.float x)) []
  | _, _ =>
    after.lexeme c.offset .integer (.number (.integer 0))
      [⟨after.spanFrom c.offset, .malformedNumber⟩]

/-- Reads a string between quotes, the opening one of which is `quote`. -/
def quotedString (c : Cursor) (quote : Char) : Lexeme × Cursor :=
  let body := quotedBody quote c.offset c.eat
  body.after.lexeme c.offset .string (.string body.bytes) body.diagnostics

/-- Reads a string between long brackets, or the start of a broken opening bracket. -/
def longString (c : Cursor) : Lexeme × Cursor :=
  match c.longBracketLevel? with
  | some level =>
    let body := longBody level (c.forward (level + 2))
    body.after.lexeme c.offset .string (.string body.bytes)
      (if body.closed then [] else [⟨body.after.spanFrom c.offset, .unterminatedLongString⟩])
  | none =>
    let after := (c.eat.eatWhile (· == '=')).2
    after.lexeme c.offset .bad .none [⟨after.spanFrom c.offset, .invalidLongStringDelimiter⟩]

/-- The longer of two signs if the character that makes the difference comes next, and the shorter
one if not. -/
def longer (c : Cursor) (x : Char) (long short : Sign) : Sign × Cursor :=
  if c.peek = some x then (long, c.eat) else (short, c)

/-- The sign that starts with a character which was just passed, if one does. -/
def sign? (c : Cursor) : Char → Option (Sign × Cursor)
  | '-' => some (.minus, c)
  | '[' => some (.openBracket, c)
  | '=' => some (c.longer '=' .equalsEquals .equals)
  | '<' => some (if c.peek = some '=' then (.lessEquals, c.eat) else c.longer '<' .lessLess .less)
  | '>' =>
    some (if c.peek = some '=' then (.greaterEquals, c.eat)
      else c.longer '>' .greaterGreater .greater)
  | '~' => some (c.longer '=' .tildeEquals .tilde)
  | '/' => some (c.longer '/' .slashSlash .slash)
  | ':' => some (c.longer ':' .colonColon .colon)
  | '.' => some (if c.peek = some '.' then c.eat.longer '.' .dotDotDot .dotDot else (.dot, c))
  | '+' => some (.plus, c)
  | '*' => some (.asterisk, c)
  | '%' => some (.percent, c)
  | '^' => some (.caret, c)
  | '#' => some (.hash, c)
  | '&' => some (.ampersand, c)
  | '|' => some (.pipe, c)
  | ';' => some (.semicolon, c)
  | ',' => some (.comma, c)
  | '(' => some (.openParenthesis, c)
  | ')' => some (.closeParenthesis, c)
  | '{' => some (.openBrace, c)
  | '}' => some (.closeBrace, c)
  | ']' => some (.closeBracket, c)
  | _ => none

/-- Reads a sign, or a character that starts no token. -/
def sign (c : Cursor) (x : Char) : Lexeme × Cursor :=
  match c.eat.sign? x with
  | some (sign, after) => after.lexeme c.offset (.sign sign) .none []
  | none => c.eat.lexeme c.offset .bad .none [⟨c.eat.spanFrom c.offset, .badCharacter x⟩]

/-- Reads a token that starts with `x`. -/
def token (c : Cursor) (x : Char) : Lexeme × Cursor :=
  if isNameStart x then c.word
  else if isDigit x || (x == '.' && c.peekSecond.any isDigit) then c.numeral
  else if x = '"' ∨ x = '\'' then c.quotedString x
  else if x == '[' && c.peekSecond.any fun y => y == '[' || y == '=' then c.longString
  else c.sign x

/-- Skips blanks and comments and reads one token, which at the end of the text is the end of
file. -/
def lex (c : Cursor) : Lexeme × Cursor :=
  match _h : c.peek with
  | none => c.lexeme c.offset .endOfFile .none []
  | some x =>
    if isBlank x then lex c.eat
    else if x = '-' ∧ c.eat.peek = some '-' then
      let later := lex c.comment.2
      ({ later.1 with diagnostics := c.comment.1 ++ later.1.diagnostics }, later.2)
    else c.token x
termination_by c.left
decreasing_by
  · exact left_eat_lt _h
  · exact left_comment_lt _h

/-! ### Every token consumes something -/

variable {c : Cursor} {x : Char}

theorem left_eatWhile_lt {p : Char → Bool} (h : c.peek = some x) (hx : p x) :
    (c.eatWhile p).2.left < c.left := by
  rw [eatWhile_of_some p h, if_pos hx]
  exact Nat.lt_of_le_of_lt (left_eatWhile_le ..) (left_eat_lt h)

theorem left_word_lt (h : c.peek = some x) (hx : isNameStart x) : c.word.2.left < c.left := by
  have hchar : isNameChar x := by simp [isNameChar, hx]
  unfold word
  simp only
  split <;> exact left_eatWhile_lt h hchar

theorem left_numeralRun_le (isMark : Char → Bool) (c : Cursor) :
    (c.numeralRun isMark).2.left ≤ c.left := by
  fun_induction numeralRun isMark c with
  | case1 c x h hmark sign later ih =>
    exact Nat.le_trans ih (Nat.le_trans (left_eatUpTo_le ..) (left_eat_le c))
  | case2 c x h hmark hx later ih => exact Nat.le_trans ih (left_eat_le c)
  | case3 => exact Nat.le_refl _
  | case4 => exact Nat.le_refl _

theorem left_numeralRun_lt (isMark : Char → Bool) (h : c.peek = some x)
    (hx : (isHexDigit x || x == '.') = true) : (c.numeralRun isMark).2.left < c.left := by
  have heat := left_eat_lt h
  rw [numeralRun_of_some isMark h, if_pos hx]
  split
  · exact Nat.lt_of_le_of_lt (Nat.le_trans (left_numeralRun_le ..) (left_eatUpTo_le ..)) heat
  · exact Nat.lt_of_le_of_lt (left_numeralRun_le ..) heat

theorem left_numeral_lt (h : c.peek = some x) (hx : (isHexDigit x || x == '.') = true) :
    c.numeral.2.left < c.left := by
  have hrun (hexadecimal : Bool) (isMark : Char → Bool) :
      ((if hexadecimal then c.eat.eat else c).numeralRun isMark).2.left < c.left := by
    cases hexadecimal with
    | false => exact left_numeralRun_lt isMark h hx
    | true =>
      exact Nat.lt_of_le_of_lt
        (Nat.le_trans (left_numeralRun_le ..) (left_eat_le _)) (left_eat_lt h)
  unfold numeral
  simp only
  split <;> exact Nat.lt_of_le_of_lt (left_eatWhile_le ..) (hrun _ _)

theorem left_quotedString_lt (quote : Char) (h : c.peek = some x) :
    (c.quotedString quote).2.left < c.left :=
  Nat.lt_of_le_of_lt (left_quotedBody_le ..) (left_eat_lt h)

theorem left_longString_lt (h : c.peek = some x) : c.longString.2.left < c.left := by
  unfold longString
  split
  · rename_i level _
    exact Nat.lt_of_le_of_lt
      (Nat.le_trans (left_longBody_le ..) (left_forward_le (level + 1) c.eat)) (left_eat_lt h)
  · exact Nat.lt_of_le_of_lt (left_eatWhile_le ..) (left_eat_lt h)

theorem left_longer_le (c : Cursor) (x : Char) (long short : Sign) :
    (c.longer x long short).2.left ≤ c.left := by
  unfold longer
  split
  · exact left_eat_le c
  · exact Nat.le_refl _

theorem left_sign?_le {found : Sign × Cursor} (h : c.sign? x = some found) :
    found.2.left ≤ c.left := by
  have heat := left_eat_le c
  have hdots := Nat.le_trans (left_longer_le c.eat '.' .dotDotDot .dotDot) heat
  unfold sign? at h
  split at h
  all_goals first
    | (obtain rfl := Option.some.inj h)
    | cases h
  all_goals first
    | exact Nat.le_refl _
    | exact left_longer_le ..
    | (split <;> first | exact heat | exact hdots | exact left_longer_le .. | exact Nat.le_refl _)

theorem left_sign_lt (h : c.peek = some x) : (c.sign x).2.left < c.left := by
  unfold sign
  split
  next hsign => exact Nat.lt_of_le_of_lt (left_sign?_le hsign) (left_eat_lt h)
  next => exact left_eat_lt h

theorem left_token_lt (h : c.peek = some x) : (c.token x).2.left < c.left := by
  unfold token
  split
  next hx => exact left_word_lt h hx
  split
  next hx =>
    refine left_numeral_lt h ?_
    simp only [Bool.or_eq_true, Bool.and_eq_true] at hx ⊢
    refine hx.imp (fun hdigit => ?_) And.left
    have hrange : ('0' ≤ x && x ≤ '9') = true := hdigit
    simp [isHexDigit, Numeral.hexDigit?, hrange]
  split
  · exact left_quotedString_lt x h
  split
  · exact left_longString_lt h
  · exact left_sign_lt h

/-- A token other than the end of file consumes something. -/
theorem left_lex_lt (h : c.lex.1.token.kind ≠ .endOfFile) : c.lex.2.left < c.left := by
  fun_induction lex c with
  | case1 => exact absurd rfl h
  | case2 c x hx _ ih => exact Nat.lt_trans (ih h) (left_eat_lt hx)
  | case3 c x hx _ _ later ih => exact Nat.lt_trans (ih h) (left_comment_lt hx)
  | case4 c x hx => exact left_token_lt hx

end Text.Cursor

/-! ## Handing out lexemes -/

/-- A lexer: where it stands in a text, and whether it is through with it. -/
structure Lexer where
  cursor : Text.Cursor
  finished : Bool

namespace Lexer

def ofSource (s : Text.Source) : Lexer := ⟨s.cursor, false⟩

/-- The next lexeme, up to the end of file. -/
def next? (l : Lexer) : Option (Lexeme × Lexer) :=
  if l.finished then none
  else
    let here := l.cursor.lex
    some (here.1, ⟨here.2, here.1.token.kind = .endOfFile⟩)

/-- No more lexemes than this are left: each takes a character, but for the end of file. -/
def bound (l : Lexer) : Nat := if l.finished then 0 else l.cursor.left + 1

theorem bound_lt_of_next? {l later : Lexer} {x : Lexeme} (h : l.next? = some (x, later)) :
    later.bound < l.bound := by
  obtain ⟨cursor, finished⟩ := l
  cases finished with
  | true => cases h
  | false =>
    cases h
    by_cases hkind : cursor.lex.1.token.kind = .endOfFile
    · simp [bound, hkind]
    · simpa [bound, hkind] using Text.Cursor.left_lex_lt hkind

/-- All lexemes that are left, the last of which is the end of file. -/
def lexemes (l : Lexer) : List Lexeme :=
  match _h : l.next? with
  | some (x, later) => x :: lexemes later
  | none => []
termination_by l.bound
decreasing_by exact bound_lt_of_next? _h

end Lexer
end LuaFront
