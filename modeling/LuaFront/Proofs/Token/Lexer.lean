import LuaFront.Proofs.Token.RoundTrip
import LuaFront.Token.Lexer

/-!
# LuaFront.Proofs.Token.Lexer

Where a text is cut into segments makes no difference to reading its tokens.

* `Cursor.At c s`: a cursor has the same characters left as a place in the flat text.
* `Cursor.Matches got want`: what was read while walking over segments is what is read of the flat
  text, and both end at the same place. Every reader of the lexer is matched by its flat
  counterpart, whatever it looks ahead for: `At.longBracketLevel?`, `At.closesLongBracket`,
  `At.numeral`, `At.quotedString`, and so on up to `At.lex`.
* `Lexer.lexemes_ofSource`: so a lexer hands out the lexemes of the flat text.
-/

namespace LuaFront

open Text (Cursor)

namespace Text.Cursor

open Numeral (isDigit isHexDigit)
open Scanner (isBlank isLineBreak isNameStart isNameChar lineEnding)

/-- The cursor stands at this place of the flat text. -/
abbrev At (c : Cursor) (s : Scanner) : Prop := c.Stands s.offset s.rest

/-- What was read, and the place after it, are the same with and without segments. -/
structure Matches {α : Type} (got : α × Cursor) (want : α × Scanner) : Prop where
  given : got.1 = want.1
  place : got.2.At want.2

variable {c : Cursor} {s : Scanner} {x : Char} {r : List Char}

theorem Stands.cons {offset : Nat} {text : List Char} (h : c.Stands offset text)
    (hpeek : c.peek = some x) : ∃ r, text = x :: r := by
  rw [h.peek] at hpeek
  exact List.head?_eq_some_iff.1 hpeek

namespace At

theorem spanFrom (h : c.At s) (start : Nat) : c.spanFrom start = s.spanFrom start := by
  rw [Cursor.spanFrom, h.offset, Scanner.spanFrom]

theorem skip (h : c.At s) (n : Nat) : (c.forward n).At (s.skip n) := h.forward n

theorem next (h : c.At s) : c.eat.At (s.skip 1) := h.forward 1

theorem takeWhile (h : c.At s) (p : Char → Bool) : Matches (c.eatWhile p) (s.takeWhile p) :=
  ⟨(h.eatWhile p).1, (h.eatWhile p).2⟩

theorem takeUpTo (h : c.At s) (p : Char → Bool) (n : Nat) :
    (c.eatUpTo p n).1 = (s.rest.take n).takeWhile p ∧
      (c.eatUpTo p n).2.At (s.skip ((s.rest.take n).takeWhile p).length) :=
  h.eatUpTo p n

theorem lexeme (h : c.At s) (start : Nat) (kind : Kind) (value : Value) (ds : List Diagnostic) :
    Matches (c.lexeme start kind value ds) (s.lexeme start kind value ds) := by
  refine ⟨?_, h⟩
  rw [Cursor.lexeme, Scanner.lexeme, h.spanFrom]

/-- A line ending is passed over whole, also where it is cut in two. -/
theorem lineEnding (h : c.At s) (hrest : s.rest = x :: r) (hx : isLineBreak x = true) :
    c.eatLineEnding.At (s.skip (Scanner.lineEnding s.rest)) := by
  obtain ⟨offset, rest⟩ := s
  obtain rfl : rest = x :: r := hrest
  have hpeek : c.peek = some x := h.peek
  have heat : c.eat.Stands (offset + x.utf8Size) r := h.eat
  have hstands := (heat.eatUpTo (fun y => isLineBreak y && some y != c.peek) 1).2
  simp only [hpeek] at hstands
  unfold eatLineEnding
  simp only [isLineBreak, Bool.or_eq_true, beq_iff_eq] at hx
  simp only [hpeek]
  -- The second half of a line ending is the one that differs from the first.
  rcases hx with rfl | rfl <;> cases r with
  | nil => simpa [Scanner.lineEnding, Scanner.skip] using hstands
  | cons y r =>
    by_cases hlf : y = '\n'
    · subst hlf
      simpa [Scanner.lineEnding, Scanner.skip, isLineBreak, Nat.add_assoc] using hstands
    by_cases hcr : y = '\r'
    · subst hcr
      simpa [Scanner.lineEnding, Scanner.skip, isLineBreak, Nat.add_assoc] using hstands
    simpa [Scanner.lineEnding, Scanner.skip, isLineBreak, hlf, hcr] using hstands

end At

/-! ## Long brackets -/

theorem level?_cons_equals (r : List Char) :
    LongBracket.level? ('[' :: '=' :: r) = (LongBracket.level? ('[' :: r)).map (· + 1) := by
  simp only [LongBracket.level?, List.dropWhile_cons_of_pos, List.takeWhile_cons_of_pos,
    beq_self_eq_true, List.length_cons]
  split <;> rfl

theorem levelFrom_eq {offset : Nat} {text : List Char} (h : c.Stands offset text) (level : Nat) :
    c.levelFrom level = (LongBracket.level? ('[' :: text)).map (level + ·) := by
  induction text generalizing c offset level with
  | nil =>
    rw [levelFrom_of_none level h.peek]
    rfl
  | cons x r ih =>
    rw [levelFrom_of_some level h.peek]
    by_cases heq : x = '='
    · rw [if_pos heq, ih h.eat, heq, level?_cons_equals, Option.map_map]
      congr 1
      funext n
      exact (Nat.add_assoc level 1 n).trans (congrArg (level + ·) (Nat.add_comm 1 n))
    · rw [if_neg heq]
      by_cases hopen : x = '['
      · simp [hopen, LongBracket.level?]
      · simp [heq, hopen, LongBracket.level?]

/-- The level of an opening bracket is found by walking on with a copy, across as many segments as
it takes. -/
theorem At.longBracketLevel? (h : c.At s) : c.longBracketLevel? = LongBracket.level? s.rest := by
  obtain ⟨offset, rest⟩ := s
  unfold Cursor.longBracketLevel?
  rw [h.peek]
  cases rest with
  | nil => rfl
  | cons x r =>
    have heat : c.eat.Stands (offset + x.utf8Size) r := h.eat
    by_cases hx : x = '['
    · subst hx
      simp [levelFrom_eq heat]
    · simp [hx, LongBracket.level?]

theorem closesFrom_eq {offset : Nat} {text : List Char} (h : c.Stands offset text) (level : Nat) :
    closesFrom level c = (List.replicate level '=' ++ [']']).isPrefixOf text := by
  induction level generalizing c offset text with
  | zero =>
    rw [closesFrom, h.peek]
    cases text <;> simp [List.isPrefixOf, Bool.beq_comm]
  | succ level ih =>
    rw [closesFrom, h.peek]
    cases text with
    | nil => rfl
    | cons x r =>
      rw [ih h.eat, List.replicate_succ, List.cons_append, List.isPrefixOf_cons_cons, Bool.beq_comm]
      rfl

theorem At.closesLongBracket (h : c.At s) (level : Nat) :
    c.closesLongBracket level = LongBracket.closes level s.rest := by
  obtain ⟨offset, rest⟩ := s
  unfold Cursor.closesLongBracket LongBracket.closes LongBracket.closing
  rw [h.peek]
  cases rest with
  | nil => rfl
  | cons x r =>
    have heat : c.eat.Stands (offset + x.utf8Size) r := h.eat
    rw [closesFrom_eq heat, List.isPrefixOf_cons_cons, Bool.beq_comm]
    rfl

/-- What was read of a body is the same with and without segments. -/
structure MatchesLong (got : LongBody) (want : LongBracket.Body) : Prop where
  bytes : got.bytes = want.bytes
  closed : got.closed = want.closed
  after : got.after.At want.after

theorem MatchesLong.push {got : LongBody} {want : LongBracket.Body} (h : MatchesLong got want)
    (bytes : List UInt8) : MatchesLong (got.push bytes) (want.push bytes) :=
  ⟨congrArg (bytes ++ ·) h.bytes, h.closed, h.after⟩

theorem lineEnding_pos (hx : isLineBreak x = true) (r : List Char) : 0 < lineEnding (x :: r) := by
  simp only [isLineBreak, Bool.or_eq_true, beq_iff_eq] at hx
  unfold lineEnding
  rcases hx with rfl | rfl <;> split <;> simp_all

theorem readFrom_cons (level offset : Nat) (x : Char) (r : List Char) :
    LongBracket.readFrom level offset (x :: r) =
      if LongBracket.closes level (x :: r) then
        ⟨[], true, (Scanner.mk offset (x :: r)).skip (level + 2)⟩
      else if isLineBreak x then
        let after := (Scanner.mk offset (x :: r)).skip (lineEnding (x :: r))
        (LongBracket.readFrom level after.offset after.rest).push [10]
      else
        (LongBracket.readFrom level (offset + x.utf8Size) r).push (String.utf8EncodeChar x) := by
  have hcrSize : '\r'.utf8Size = 1 := rfl
  have hlfSize : '\n'.utf8Size = 1 := rfl
  by_cases hcr : x = '\r'
  · subst hcr
    rcases r with _ | ⟨y, r⟩
    · simp [LongBracket.readFrom, isLineBreak, lineEnding, Scanner.skip, hcrSize]
    by_cases hlf : y = '\n' <;>
      simp [LongBracket.readFrom, isLineBreak, lineEnding, Scanner.skip, hlf, hcrSize, hlfSize]
  by_cases hlf : x = '\n'
  · subst hlf
    rcases r with _ | ⟨y, r⟩
    · simp [LongBracket.readFrom, isLineBreak, lineEnding, Scanner.skip, hlfSize]
    by_cases hcr : y = '\r' <;>
      simp [LongBracket.readFrom, isLineBreak, lineEnding, Scanner.skip, hcr, hcrSize, hlfSize]
  simp [LongBracket.readFrom, isLineBreak, hcr, hlf]

theorem longBodyFrom_cons {offset : Nat} (h : c.Stands offset (x :: r)) (level : Nat) :
    longBodyFrom level c =
      if LongBracket.closes level (x :: r) then ⟨[], true, c.forward (level + 2)⟩
      else if isLineBreak x then (longBodyFrom level c.eatLineEnding).push [10]
      else (longBodyFrom level c.eat).push (String.utf8EncodeChar x) := by
  have hcloses : c.closesLongBracket level = LongBracket.closes level (x :: r) :=
    At.closesLongBracket (s := ⟨offset, x :: r⟩) h level
  have hbracket : LongBracket.closes level (x :: r) = true → x = ']' := by
    intro hc
    obtain ⟨r', hr'⟩ := LongBracket.closes_iff.1 hc
    exact (List.cons.inj hr').1
  rw [longBodyFrom_of_some level h.peek, hcloses]
  by_cases hc : LongBracket.closes level (x :: r) = true
  · rw [if_pos ⟨hbracket hc, hc⟩, if_pos hc]
  · rw [if_neg (fun hboth => hc hboth.2), if_neg hc]

/-- Bodies are read alike, down to line endings and closing brackets that are cut in two. -/
theorem longBodyFrom_matches {offset : Nat} {text : List Char} (h : c.Stands offset text)
    (level : Nat) :
    MatchesLong (longBodyFrom level c) (LongBracket.readFrom level offset text) := by
  induction hn : text.length using Nat.strongRecOn generalizing c offset text with
  | ind n ih =>
    cases text with
    | nil =>
      rw [longBodyFrom_of_none level h.peek]
      exact ⟨rfl, rfl, h⟩
    | cons x r =>
      rw [longBodyFrom_cons h, readFrom_cons]
      split
      next => exact ⟨rfl, rfl, h.forward (level + 2)⟩
      split
      next hx =>
        have hafter := At.lineEnding (s := ⟨offset, x :: r⟩) h rfl hx
        have hshorter :
            ((Scanner.mk offset (x :: r)).skip (lineEnding (x :: r))).rest.length < n := by
          have hpos : 0 < lineEnding (x :: r) := lineEnding_pos hx r
          rw [Scanner.rest_skip, List.length_drop, ← hn]
          exact Nat.sub_lt (Nat.succ_pos _) hpos
        exact (ih _ hshorter hafter rfl).push [10]
      next =>
        rw [List.length_cons] at hn
        exact (ih r.length (by omega) h.eat rfl).push _

theorem longBody_matches (h : c.At s) (level : Nat) :
    MatchesLong (longBody level c) (LongBracket.read level s) := by
  obtain ⟨offset, rest⟩ := s
  unfold longBody LongBracket.read
  rw [h.peek]
  cases rest with
  | nil => exact longBodyFrom_matches h level
  | cons x r =>
    by_cases hx : isLineBreak x = true
    · rw [show (x :: r).head?.any isLineBreak = true from hx, if_pos rfl]
      exact longBodyFrom_matches (At.lineEnding h rfl hx) level
    · have hnone : lineEnding (x :: r) = 0 := by
        simp only [isLineBreak, Bool.or_eq_true, beq_iff_eq, not_or] at hx
        simp [lineEnding, hx.1, hx.2]
      rw [show (x :: r).head?.any isLineBreak = false by simpa using hx]
      simp only [hnone]
      exact longBodyFrom_matches h level

theorem At.comment (h : c.At s) : Matches c.comment s.comment := by
  have hinside : c.eat.eat.At (s.skip 2) := h.skip 2
  unfold Cursor.comment Scanner.comment
  simp only [hinside.longBracketLevel?]
  cases LongBracket.level? (s.skip 2).rest with
  | some level =>
    have hbody := longBody_matches (hinside.skip (level + 2)) level
    refine ⟨?_, hbody.after⟩
    simp only [hbody.closed, hbody.after.spanFrom, h.offset]
  | none => exact ⟨rfl, (hinside.takeWhile _).place⟩

/-! ## Quoted strings -/

/-- What an escape stands for, and the place after it, are the same with and without segments. -/
structure MatchesEscape (got : Except Cause (List UInt8) × Cursor) (want : Escape.Outcome) :
    Prop where
  meaning : got.1 = want.meaning
  after : got.2.At want.after

theorem At.hexByte (h : c.At s) : MatchesEscape c.hexByte (Escape.hexByte s) := by
  obtain ⟨hdigits, hafter⟩ := h.takeUpTo isHexDigit 2
  refine ⟨?_, hafter⟩
  simp only [Cursor.hexByte, Escape.hexByte, hdigits]

theorem At.decimalByte (h : c.At s) : MatchesEscape c.decimalByte (Escape.decimalByte s) := by
  obtain ⟨hdigits, hafter⟩ := h.takeUpTo isDigit 3
  refine ⟨?_, hafter⟩
  simp only [Cursor.decimalByte, Escape.decimalByte, hdigits]

theorem At.utf8Value (h : c.At s) : MatchesEscape c.utf8Value (Escape.utf8Value s) := by
  obtain ⟨offset, rest⟩ := s
  rcases rest with _ | ⟨x, r⟩
  · have hpeek : c.peek = none := h.peek
    simp only [Cursor.utf8Value, hpeek]
    exact ⟨rfl, h⟩
  have hpeek : c.peek = some x := h.peek
  by_cases hx : x = '{'
  · subst hx
    obtain ⟨hdigits, hafter⟩ := h.next.takeWhile isHexDigit
    simp only [Cursor.utf8Value, Escape.utf8Value, hpeek, if_true, hdigits]
    split
    · exact ⟨rfl, hafter⟩
    rw [hafter.peek]
    cases hrest : ((Scanner.mk offset ('{' :: r)).skip 1 |>.takeWhile isHexDigit).2.rest with
    | nil => exact ⟨rfl, hafter⟩
    | cons y r' =>
      by_cases hy : y = '}'
      · subst hy
        exact ⟨rfl, hafter.next⟩
      · simp only [List.head?_cons, Option.some.injEq, hy, if_false]
        split
        next heq =>
          cases heq
          exact absurd rfl hy
        next => exact ⟨rfl, hafter⟩
  · simp only [Cursor.utf8Value, Escape.utf8Value, hpeek, Option.some.injEq, hx, if_false]
    split
    next heq =>
      cases heq
      exact absurd rfl hx
    next => exact ⟨rfl, h⟩

theorem At.escape (h : c.At s) : MatchesEscape c.escape (Escape.read s) := by
  obtain ⟨offset, rest⟩ := s
  rcases rest with _ | ⟨x, r⟩
  · have hpeek : c.peek = none := h.peek
    simp only [Cursor.escape, Escape.read, hpeek]
    exact ⟨rfl, h⟩
  have hpeek : c.peek = some x := h.peek
  simp only [Cursor.escape, Escape.read, hpeek]
  cases Escape.named? x with
  | some byte => exact ⟨rfl, h.next⟩
  | none =>
    simp only
    split
    next hbreak => exact ⟨rfl, h.lineEnding rfl hbreak⟩
    split
    · exact ⟨rfl, (h.next.takeWhile isBlank).place⟩
    split
    · exact h.next.hexByte
    split
    · exact h.decimalByte
    split
    · exact h.next.utf8Value
    · exact ⟨rfl, h.next⟩

/-- What was read of a quoted string is the same with and without segments. -/
structure MatchesQuoted (got : QuotedBody) (want : QuotedString.Body) : Prop where
  bytes : got.bytes = want.bytes
  diagnostics : got.diagnostics = want.diagnostics
  after : got.after.At want.after

theorem MatchesQuoted.push {got : QuotedBody} {want : QuotedString.Body}
    (h : MatchesQuoted got want) (bytes : List UInt8) :
    MatchesQuoted (got.push bytes) { want with bytes := bytes ++ want.bytes } :=
  ⟨congrArg (bytes ++ ·) h.bytes, h.diagnostics, h.after⟩

theorem MatchesQuoted.escaped {got : QuotedBody} {want : QuotedString.Body}
    (h : MatchesQuoted got want) {o : Except Cause (List UInt8) × Cursor} {w : Escape.Outcome}
    (ho : MatchesEscape o w) (start : Nat) :
    MatchesQuoted (got.escaped (o.2.spanFrom start) o.1) (want.escape start w) := by
  rw [ho.meaning, ho.after.spanFrom]
  unfold QuotedBody.escaped QuotedString.Body.escape
  cases w.meaning with
  | ok bytes => exact h.push bytes
  | error cause => exact ⟨h.bytes, congrArg (_ :: ·) h.diagnostics, h.after⟩

theorem At.quotedBody (h : c.At s) (quote : Char) (start : Nat) :
    MatchesQuoted (quotedBody quote start c) (QuotedString.read quote start s) := by
  have hpeek := h.peek
  fun_induction QuotedString.read quote start s generalizing c with
  | case1 s hrest =>
    rw [hrest] at hpeek
    rw [quotedBody_of_none quote start hpeek]
    exact ⟨rfl, by rw [h.spanFrom], h⟩
  | case2 s x r hrest hbreak =>
    rw [hrest] at hpeek
    rw [quotedBody_of_some quote start hpeek, if_pos hbreak]
    exact ⟨rfl, by rw [h.spanFrom], h⟩
  | case3 s r hrest hbreak =>
    rw [hrest] at hpeek
    rw [quotedBody_of_some quote start hpeek, if_neg hbreak, if_pos rfl]
    exact ⟨rfl, rfl, h.next⟩
  | case4 s r shorter hrest hbreak hquote ih =>
    rw [hrest] at hpeek
    have hescape : MatchesEscape c.eat.escape (Escape.read (s.skip 1)) := h.next.escape
    rw [quotedBody_of_some quote start hpeek, if_neg hbreak, if_neg hquote, if_pos rfl, h.offset]
    exact (ih hescape.after hescape.after.peek).escaped hescape s.offset
  | case5 s x r hrest hbreak hquote hslash later =>
    rename_i ih
    rw [hrest] at hpeek
    rw [quotedBody_of_some quote start hpeek, if_neg hbreak, if_neg hquote, if_neg hslash]
    exact (ih h.next h.next.peek).push _

/-! ## Tokens -/

theorem At.word (h : c.At s) : Matches c.word s.word := by
  obtain ⟨htext, hafter⟩ := h.takeWhile isNameChar
  unfold Cursor.word Scanner.word
  simp only [htext, h.offset]
  cases Keyword.ofWord? (String.ofList (s.takeWhile isNameChar).1) with
  | some k => exact hafter.lexeme s.offset (.keyword k) .none []
  | none => exact hafter.lexeme s.offset .name _ []

theorem skip_append (offset : Nat) (text r : List Char) (n : Nat) :
    (Scanner.mk offset (text ++ r)).skip (text.length + n) =
      (Scanner.mk (offset + Text.size text) r).skip n := by
  simp [Scanner.skip, List.take_append, List.take_of_length_le, Nat.add_assoc]

/-- An exponent mark comes with the sign after it, if there is one. -/
theorem numeralRun_cons (isMark : Char → Bool) (x : Char) (r : List Char) :
    Scanner.numeralRun isMark (x :: r) =
      if isMark x then
        let sign := (r.take 1).takeWhile fun s => s == '+' || s == '-'
        x :: (sign ++ Scanner.numeralRun isMark (r.drop sign.length))
      else if isHexDigit x || x == '.' then x :: Scanner.numeralRun isMark r
      else [] := by
  rw [Scanner.numeralRun.eq_def]
  by_cases hmark : isMark x = true
  · rcases r with _ | ⟨y, r⟩
    · simp [hmark]
    by_cases hplus : y = '+'
    · simp [hmark, hplus]
    by_cases hminus : y = '-' <;> simp [hmark, hplus, hminus]
  · simp [hmark]

theorem Matches.append {got : List Char × Cursor} {offset : Nat} {run : List Char}
    (text : List Char)
    (h : Matches got (run, (Scanner.mk (offset + Text.size text) r).skip run.length)) :
    Matches (text ++ got.1, got.2)
      (text ++ run, (Scanner.mk offset (text ++ r)).skip (text ++ run).length) := by
  refine ⟨congrArg (text ++ ·) h.given, ?_⟩
  rw [List.length_append, skip_append]
  exact h.place

/-- A run of a numeral is the longest one also where it is cut. -/
theorem numeralRun_matches (isMark : Char → Bool) {offset : Nat} {text : List Char}
    (h : c.Stands offset text) :
    Matches (c.numeralRun isMark) (Scanner.numeralRun isMark text,
      (Scanner.mk offset text).skip (Scanner.numeralRun isMark text).length) := by
  induction hn : text.length using Nat.strongRecOn generalizing c offset text with
  | ind n ih =>
    cases text with
    | nil =>
      rw [numeralRun_of_none isMark h.peek]
      exact ⟨rfl, h⟩
    | cons x r =>
      rw [numeralRun_of_some isMark h.peek, numeralRun_cons]
      split
      · have hprefix : (r.take 1).takeWhile (fun s => s == '+' || s == '-') <+: r :=
          (List.takeWhile_prefix _).trans (List.take_prefix ..)
        obtain ⟨hsign, hplace⟩ := h.eat.eatUpTo (fun s => s == '+' || s == '-') 1
        simp only [hsign]
        generalize (r.take 1).takeWhile (fun s => s == '+' || s == '-') = sign at hprefix hplace ⊢
        obtain ⟨r, rfl⟩ := hprefix
        rw [List.take_left, List.drop_left, Nat.add_assoc] at hplace
        rw [List.drop_left]
        have hshorter : r.length < n := by
          rw [← hn, List.length_cons, List.length_append]
          omega
        exact .append (x :: sign) (ih r.length hshorter hplace rfl)
      split
      · exact .append [x] (ih r.length (by simp [← hn]) h.eat rfl)
      · exact ⟨rfl, h⟩

theorem At.isHexadecimal (h : c.At s) :
    (c.peek == some '0' && c.peekSecond.any fun x => x == 'x' || x == 'X') =
      Scanner.isHexadecimal s.rest := by
  rw [h.peek, h.peekSecond]
  obtain ⟨offset, rest⟩ := s
  rcases rest with _ | ⟨x, r⟩
  · rfl
  by_cases hx : x = '0'
  · subst hx
    rcases r with _ | ⟨y, r⟩ <;> simp [Scanner.isHexadecimal]
  · simp [Scanner.isHexadecimal, hx]

/-- What belongs to a numeral does not depend on the segments, and so neither does its form. -/
theorem At.numeral (h : c.At s) : Matches c.numeral s.numeral := by
  unfold Cursor.numeral Scanner.numeral
  simp only [h.isHexadecimal]
  generalize Scanner.isHexadecimal s.rest = hexadecimal
  generalize hmark : (fun x => if hexadecimal then x == 'p' || x == 'P' else x == 'e' || x == 'E') =
    isMark
  have hstart :
      (if hexadecimal then c.eat.eat else c).At (if hexadecimal then s.skip 2 else s) := by
    cases hexadecimal with
    | true => exact h.skip 2
    | false => exact h
  generalize (if hexadecimal then c.eat.eat else c) = d at hstart ⊢
  generalize (if hexadecimal then s.skip 2 else s) = start at hstart ⊢
  obtain ⟨offset, rest⟩ := start
  have hrun := numeralRun_matches isMark hstart
  have hexcess := hrun.place.takeWhile isNameChar
  simp only [hrun.given, hexcess.given, h.offset, hexcess.place.spanFrom]
  generalize (if hexadecimal then Numeral.hexadecimal? (Scanner.numeralRun isMark rest)
    else Numeral.decimal? (Scanner.numeralRun isMark rest)) = value?
  generalize (Scanner.takeWhile isNameChar _).1 = excess
  cases excess with
  | nil => rcases value? with _ | n | x <;> exact hexcess.place.lexeme ..
  | cons e es => rcases value? with _ | n | x <;> exact hexcess.place.lexeme ..

/-- A sign is read as what it is, and passed over whole. -/
structure MatchesSign (s : Scanner) (got : Sign × Cursor) (want : Sign) : Prop where
  given : got.1 = want
  place : got.2.At (s.skip want.spelling.length)

theorem At.longer (h : c.At s) (hrest : s.rest = x :: r) (y : Char) {long short : Sign}
    (hlong : long.spelling.length = 2) (hshort : short.spelling.length = 1) :
    MatchesSign s (c.eat.longer y long short) (if r.head? = some y then long else short) := by
  have hpeek : c.eat.peek = r.head? := by
    rw [h.next.peek, Scanner.rest_skip, hrest]
    rfl
  unfold Cursor.longer
  rw [hpeek]
  split
  · exact ⟨rfl, by rw [hlong]; exact h.skip 2⟩
  · exact ⟨rfl, by rw [hshort]; exact h.next⟩

theorem ofChars?_pair {x y : Char} {long short : Sign}
    (hlong : ∀ r, Sign.ofChars? (x :: y :: r) = some long)
    (hend : Sign.ofChars? [x] = some short)
    (hother : ∀ z r, z ≠ y → Sign.ofChars? (x :: z :: r) = some short) (r : List Char) :
    Sign.ofChars? (x :: r) = some (if r.head? = some y then long else short) := by
  rcases r with _ | ⟨z, r⟩
  · exact hend
  by_cases hz : z = y
  · subst hz
    simpa using hlong r
  · simpa [hz] using hother z r hz

theorem ofChars?_equals (r : List Char) :
    Sign.ofChars? ('=' :: r) = some (if r.head? = some '=' then .equalsEquals else .equals) :=
  ofChars?_pair (fun _ => rfl) rfl (fun z r hz => by simp [Sign.ofChars?, hz]) r

theorem ofChars?_tilde (r : List Char) :
    Sign.ofChars? ('~' :: r) = some (if r.head? = some '=' then .tildeEquals else .tilde) :=
  ofChars?_pair (fun _ => rfl) rfl (fun z r hz => by simp [Sign.ofChars?, hz]) r

theorem ofChars?_slash (r : List Char) :
    Sign.ofChars? ('/' :: r) = some (if r.head? = some '/' then .slashSlash else .slash) :=
  ofChars?_pair (fun _ => rfl) rfl (fun z r hz => by simp [Sign.ofChars?, hz]) r

theorem ofChars?_colon (r : List Char) :
    Sign.ofChars? (':' :: r) = some (if r.head? = some ':' then .colonColon else .colon) :=
  ofChars?_pair (fun _ => rfl) rfl (fun z r hz => by simp [Sign.ofChars?, hz]) r

theorem ofChars?_less (r : List Char) :
    Sign.ofChars? ('<' :: r) = some (if r.head? = some '=' then .lessEquals
      else if r.head? = some '<' then .lessLess else .less) := by
  rcases r with _ | ⟨y, r⟩
  · rfl
  by_cases hequals : y = '='
  · simp [Sign.ofChars?, hequals]
  by_cases hless : y = '<' <;> simp [Sign.ofChars?, hequals, hless]

theorem ofChars?_greater (r : List Char) :
    Sign.ofChars? ('>' :: r) = some (if r.head? = some '=' then .greaterEquals
      else if r.head? = some '>' then .greaterGreater else .greater) := by
  rcases r with _ | ⟨y, r⟩
  · rfl
  by_cases hequals : y = '='
  · simp [Sign.ofChars?, hequals]
  by_cases hgreater : y = '>' <;> simp [Sign.ofChars?, hequals, hgreater]

theorem ofChars?_dot (r : List Char) :
    Sign.ofChars? ('.' :: r) = some (if r.head? = some '.' then
      if r.tail.head? = some '.' then .dotDotDot else .dotDot else .dot) := by
  rcases r with _ | ⟨y, r⟩
  · rfl
  by_cases hdot : y = '.'
  · subst hdot
    rcases r with _ | ⟨z, r⟩
    · rfl
    by_cases hdots : z = '.' <;> simp [Sign.ofChars?, hdots]
  · simp [Sign.ofChars?, hdot]

theorem ofChars?_of_sign? (h : c.sign? x = none) (r : List Char) :
    Sign.ofChars? (x :: r) = none := by
  unfold Sign.ofChars?
  split
  all_goals first
    | rfl
    | (rename_i heq
       cases heq
       cases h)

/-- The sign that comes next is told by looking ahead with a copy, one character at a time. -/
theorem sign?_matches {offset : Nat} (h : c.Stands offset (x :: r)) :
    Option.Rel (MatchesSign ⟨offset, x :: r⟩) (c.eat.sign? x) (Sign.ofChars? (x :: r)) := by
  have hat : c.At ⟨offset, x :: r⟩ := h
  have hpeek : c.eat.peek = r.head? := h.eat.peek
  have hpeek' : c.eat.eat.peek = r.tail.head? := h.eat.peekSecond
  by_cases hnone : c.eat.sign? x = none
  · rw [hnone, ofChars?_of_sign? hnone]
    exact .none
  -- Signs that may have more than one character.
  by_cases hequals : x = '='
  · subst hequals
    rw [ofChars?_equals]
    exact .some (hat.longer rfl '=' rfl rfl)
  by_cases hless : x = '<'
  · subst hless
    simp only [ofChars?_less, Cursor.sign?, hpeek]
    split
    · exact .some ⟨rfl, hat.skip 2⟩
    · exact .some (hat.longer rfl '<' rfl rfl)
  by_cases hgreater : x = '>'
  · subst hgreater
    simp only [ofChars?_greater, Cursor.sign?, hpeek]
    split
    · exact .some ⟨rfl, hat.skip 2⟩
    · exact .some (hat.longer rfl '>' rfl rfl)
  by_cases htilde : x = '~'
  · subst htilde
    rw [ofChars?_tilde]
    exact .some (hat.longer rfl '=' rfl rfl)
  by_cases hslash : x = '/'
  · subst hslash
    rw [ofChars?_slash]
    exact .some (hat.longer rfl '/' rfl rfl)
  by_cases hcolon : x = ':'
  · subst hcolon
    rw [ofChars?_colon]
    exact .some (hat.longer rfl ':' rfl rfl)
  by_cases hdot : x = '.'
  · subst hdot
    simp only [ofChars?_dot, Cursor.sign?, hpeek, Cursor.longer, hpeek']
    split
    · split
      · exact .some ⟨rfl, hat.skip 3⟩
      · exact .some ⟨rfl, hat.skip 2⟩
    · exact .some ⟨rfl, hat.next⟩
  -- All other signs are one character.
  revert hnone
  unfold Cursor.sign?
  split <;> intro hnone
  all_goals first
    | exact .some ⟨rfl, hat.next⟩
    | contradiction

theorem At.sign (h : c.At s) (hrest : s.rest = x :: r) : Matches (c.sign x) (s.sign x) := by
  obtain ⟨offset, rest⟩ := s
  obtain rfl : rest = x :: r := hrest
  have hsign := sign?_matches h
  unfold Cursor.sign Scanner.sign
  rw [h.offset, h.next.spanFrom]
  revert hsign
  generalize c.eat.sign? x = got
  simp only
  generalize Sign.ofChars? (x :: r) = want
  intro hsign
  cases hsign with
  | none => exact h.next.lexeme ..
  | @some got want hsign =>
    obtain ⟨rfl, hplace⟩ := hsign
    exact hplace.lexeme ..

theorem At.quotedString (h : c.At s) (quote : Char) :
    Matches (c.quotedString quote) (s.quotedString quote) := by
  have hbody := h.next.quotedBody quote s.offset
  unfold Cursor.quotedString Scanner.quotedString
  simp only [h.offset, hbody.bytes, hbody.diagnostics]
  exact hbody.after.lexeme ..

theorem At.longString (h : c.At s) : Matches c.longString s.longString := by
  unfold Cursor.longString Scanner.longString
  rw [h.longBracketLevel?]
  cases LongBracket.level? s.rest with
  | some level =>
    have hbody := longBody_matches (h.skip (level + 2)) level
    simp only [hbody.bytes, hbody.closed, hbody.after.spanFrom, h.offset]
    exact hbody.after.lexeme ..
  | none =>
    have hafter := (h.next.takeWhile (· == '=')).place
    simp only [hafter.spanFrom, h.offset]
    exact hafter.lexeme ..

theorem At.token (h : c.At s) (hrest : s.rest = x :: r) : Matches (c.token x) (s.token x r) := by
  have hsecond : c.peekSecond = r.head? := by rw [h.peekSecond, hrest, List.tail_cons]
  unfold Cursor.token Scanner.token
  rw [hsecond]
  change Matches (if _ then _ else if Scanner.startsNumeral x r = true then _
    else if _ then _ else if Scanner.startsLongString x r = true then _ else _) _
  split
  · exact h.word
  split
  · exact h.numeral
  split
  · exact h.quotedString x
  split
  · exact h.longString
  · exact h.sign hrest

/-- A comment only adds to what is reported with the token after it. -/
theorem lex_of_comment (h : s.rest = '-' :: '-' :: r) :
    s.lex = (⟨s.comment.2.lex.1.token, s.comment.1 ++ s.comment.2.lex.1.diagnostics⟩,
      s.comment.2.lex.2) := by
  simp only [Scanner.lex, Scanner.skipBlanks_of_comment h]
  split
  · rfl
  · simp

/-- The next token is the same with and without segments, whatever blanks and comments come before
it. -/
theorem At.lex (h : c.At s) : Matches c.lex s.lex := by
  fun_induction Cursor.lex c generalizing s with
  | case1 c hpeek =>
    have hrest : s.rest = [] := by simpa [h.peek] using hpeek
    have hskip := Scanner.skipBlanks_of_nil hrest
    rw [Scanner.lex_of_nil (by rw [hskip, hrest]), hskip, h.offset]
    exact h.lexeme ..
  | case2 c x hpeek hblank ih =>
    obtain ⟨offset, rest⟩ := s
    obtain ⟨r, rfl⟩ : ∃ r, rest = x :: r := h.cons hpeek
    have hskip : (Scanner.mk offset (x :: r)).lex = (Scanner.mk (offset + x.utf8Size) r).lex := by
      simp only [Scanner.lex, Scanner.skipBlanks_space hblank]
    rw [hskip]
    exact ih h.eat
  | case3 c x hpeek hblank hdashes later =>
    rename_i ih
    obtain ⟨rfl, hsecond⟩ := hdashes
    obtain ⟨offset, rest⟩ := s
    obtain ⟨r, rfl⟩ : ∃ r, rest = '-' :: r := h.cons hpeek
    obtain ⟨r, rfl⟩ : ∃ r', r = '-' :: r' := h.next.cons hsecond
    have hcomment := At.comment h
    obtain ⟨hlexeme, hplace⟩ := ih hcomment.place
    rw [lex_of_comment rfl]
    refine ⟨?_, hplace⟩
    simp only [later, hcomment.given, hlexeme]
  | case4 c x hpeek hblank hcomment =>
    obtain ⟨offset, rest⟩ := s
    obtain ⟨r, rfl⟩ : ∃ r, rest = x :: r := h.cons hpeek
    have hcomment' : ∀ r', x :: r ≠ '-' :: '-' :: r' := by
      rintro r' heq
      cases heq
      exact hcomment ⟨rfl, h.eat.peek⟩
    rw [Scanner.lex_of_start (by simpa using hblank) hcomment']
    exact h.token rfl

end Text.Cursor

namespace Lexer

theorem lexemes_finished (c : Cursor) : (Lexer.mk c true).lexemes = [] := by
  rw [lexemes]
  rfl

theorem lexemes_next (c : Cursor) :
    (Lexer.mk c false).lexemes =
      c.lex.1 :: (Lexer.mk c.lex.2 (c.lex.1.token.kind = .endOfFile)).lexemes := by
  rw [lexemes]
  rfl

theorem lexemes_at {c : Cursor} {s : Scanner} (h : c.At s) :
    (Lexer.mk c false).lexemes = s.lexemes := by
  fun_induction Scanner.lexemes s generalizing c with
  | case1 s here =>
    rename_i hend
    have hhere : c.lex.1 = here.1 := h.lex.given
    rw [lexemes_next, hhere, decide_eq_true hend, lexemes_finished]
  | case2 s here hend =>
    rename_i ih
    have hhere : c.lex.1 = here.1 := h.lex.given
    rw [lexemes_next, hhere, decide_eq_false hend, ih h.lex.place]

/-- A lexer that walks over segments hands out what the flat text is made of. -/
theorem lexemes_ofSource (s : Text.Source) :
    (Lexer.ofSource s).lexemes = (Scanner.ofSource s).lexemes :=
  lexemes_at s.stands_cursor

end Lexer
end LuaFront
