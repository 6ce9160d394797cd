import LuaFront.Proofs.Token.LineCut

/-!
# LuaFront.Proofs.Token.LongString

What strings between long brackets stand for, and what becomes of those without an end.

* `LongBracket.content`: the text between the brackets without the line ending it starts with, and
  with a line feed for every other line ending.
* `LongBracket.bytesOf_eq`: the bytes that are read of a body are the UTF-8 of its content.
* `LongBracket.content_of_lineFeed`: a line feed in front protects a text from being changed.
* `Scanner.lexemes_enclosed`: strings and comments between long brackets, closed or not, are read
  exactly.
-/

namespace LuaFront

open Text (Span)

namespace LongBracket

/-- The text with a line feed for each line ending. From the left on, a carriage return and a line
feed next to each other, in either order, are one line ending. -/
def unified : List Char → List Char
  | [] => []
  | '\r' :: '\n' :: r => '\n' :: unified r
  | '\n' :: '\r' :: r => '\n' :: unified r
  | '\r' :: r => '\n' :: unified r
  | '\n' :: r => '\n' :: unified r
  | c :: r => c :: unified r

/-- The text without the line ending it starts with, if it does start with one. -/
def trimmed : List Char → List Char
  | '\r' :: '\n' :: r => r
  | '\n' :: '\r' :: r => r
  | '\r' :: r => r
  | '\n' :: r => r
  | r => r

/-- What a body stands for. -/
def content (body : List Char) : List Char := unified (trimmed body)

/-- A body between the brackets of a level. -/
def enclosed (level : Nat) (body : List Char) : List Char :=
  opening level ++ (body ++ closing level)

theorem bytesOf_eq (cs : List Char) : bytesOf cs = Text.Utf8.encode (unified cs) := by
  have hfeed (r : List Char) : Text.Utf8.encode ('\n' :: r) = 10 :: Text.Utf8.encode r := rfl
  fun_induction bytesOf cs with
  | case1 => rfl
  | case2 r ih => simp [unified, hfeed, ih]
  | case3 r ih => simp [unified, hfeed, ih]
  | case4 r hno ih => simp [unified, hfeed, ih]
  | case5 r hno ih => simp [unified, hfeed, ih]
  | case6 c r _ _ _ _ ih => simp [unified, ih, Text.Utf8.encode]

theorem drop_lineEnding (body : List Char) :
    body.drop (Scanner.lineEnding body) = trimmed body := by
  fun_cases trimmed body <;> simp_all [Scanner.lineEnding]

/-- Where no carriage return stands, nothing is changed. -/
theorem unified_of_not_mem {cs : List Char} (h : '\r' ∉ cs) : unified cs = cs := by
  fun_induction unified cs with
  | case1 => rfl
  | case2 r ih => simp at h
  | case3 r ih => simp at h
  | case4 r _ ih => simp at h
  | case5 r _ ih => rw [ih fun hr => h (List.mem_cons_of_mem _ hr)]
  | case6 c r _ _ _ _ ih => rw [ih fun hr => h (List.mem_cons_of_mem c hr)]

/-- Of a text behind a line feed nothing is lost. -/
theorem content_of_lineFeed {cs : List Char} (h : '\r' ∉ cs) : content ('\n' :: cs) = cs := by
  have htrimmed : trimmed ('\n' :: cs) = cs := by
    cases cs with
    | nil => rfl
    | cons c r =>
      have hc : c ≠ '\r' := fun hc => h (hc ▸ List.mem_cons_self)
      simp [trimmed, hc]
  rw [content, htrimmed, unified_of_not_mem h]

theorem First.lineFeed {level : Nat} {body : List Char} (h : First level body) :
    First level ('\n' :: body) :=
  first_cons.2 ⟨closes_cons_of_ne (by decide) _, h⟩

end LongBracket

namespace Scanner

open LongBracket (opening closing enclosed content First)

variable {level : Nat} {body : List Char}

/-- What starts with an opening long bracket is a long string. -/
theorem lex_opening (level offset : Nat) (r : List Char) :
    lex ⟨offset, opening level ++ r⟩ = longString ⟨offset, opening level ++ r⟩ := by
  have hstarts : startsLongString '[' (List.replicate level '=' ++ '[' :: r) = true := by
    cases level <;> rfl
  have htext : opening level ++ r = '[' :: (List.replicate level '=' ++ '[' :: r) := by
    simp [opening]
  rw [htext, lex_of_start (by decide) (by simp), token_of_bracket hstarts]

/-- A string between long brackets that does not end reaches to the end of the text, and is
reported. -/
theorem longString_open (h : ∀ a r, body ≠ a ++ (closing level ++ r)) (offset : Nat) :
    ∃ bytes, longString ⟨offset, opening level ++ body⟩ =
      lexeme ⟨offset + Text.size (opening level ++ body), []⟩ offset .string (.string bytes)
        [⟨⟨offset, offset + Text.size (opening level ++ body)⟩, .unterminatedLongString⟩] := by
  obtain ⟨hopen, hafter⟩ := LongBracket.read_open h (offset + (level + 2))
  have hsize : offset + (level + 2) + Text.size body =
      offset + Text.size (opening level ++ body) := by
    rw [Text.size_append, LongBracket.size_opening, Nat.add_assoc]
  rw [hsize] at hafter
  refine ⟨(LongBracket.read level ⟨offset + (level + 2), body⟩).bytes, ?_⟩
  simp [longString, LongBracket.level?_opening, skip_opening, hopen, hafter, spanFrom]

/-- A closed string stands for the UTF-8 of its content. -/
theorem lexemes_long (h : First level body) (offset : Nat) (rest : List Char) :
    lexemes ⟨offset, enclosed level body ++ rest⟩ =
      ⟨⟨.string, ⟨offset, offset + Text.size (enclosed level body)⟩,
        .string (Text.Utf8.encode (content body)), false⟩, []⟩ ::
          lexemes ⟨offset + Text.size (enclosed level body), rest⟩ := by
  have htext : enclosed level body ++ rest =
      opening level ++ (body ++ (closing level ++ rest)) := by simp [enclosed]
  have hlex := (lex_opening level offset (body ++ (closing level ++ rest))).trans
    (longString_brackets h offset rest)
  rw [LongBracket.drop_lineEnding, LongBracket.bytesOf_eq] at hlex
  rw [htext, lexemes_of_lex (by simp) hlex]
  rfl

/-- A closed comment is passed over whole. -/
theorem lexemes_longComment (h : First level body) (offset : Nat) (rest : List Char) :
    lexemes ⟨offset, '-' :: '-' :: enclosed level body ++ rest⟩ =
      lexemes ⟨offset + Text.size ('-' :: '-' :: enclosed level body), rest⟩ := by
  have htexts : Blank.texts [.long level body h] = '-' :: '-' :: enclosed level body := by
    rw [Blank.texts_cons, Blank.texts_nil, List.append_nil]
    rfl
  have hskip := lexemes_texts [.long level body h] offset rest
  rwa [htexts] at hskip

theorem lexemes_openString (h : ∀ a r, body ≠ a ++ (closing level ++ r)) (offset : Nat) :
    ∃ bytes, lexemes ⟨offset, opening level ++ body⟩ =
      [⟨⟨.string, ⟨offset, offset + Text.size (opening level ++ body)⟩, .string bytes, false⟩,
          [⟨⟨offset, offset + Text.size (opening level ++ body)⟩, .unterminatedLongString⟩]⟩,
        ⟨⟨.endOfFile, Span.empty (offset + Text.size (opening level ++ body)), .none, false⟩,
          []⟩] := by
  obtain ⟨bytes, hlong⟩ := longString_open h offset
  refine ⟨bytes, ?_⟩
  rw [lexemes_of_lex (by simp) ((lex_opening level offset body).trans hlong), lexemes_nil]
  rfl

theorem lexemes_openComment (h : ∀ a r, body ≠ a ++ (closing level ++ r)) (offset : Nat) :
    lexemes ⟨offset, '-' :: '-' :: (opening level ++ body)⟩ =
      [⟨⟨.endOfFile, Span.empty (offset + Text.size ('-' :: '-' :: (opening level ++ body))), .none,
          false⟩,
        [⟨⟨offset, offset + Text.size ('-' :: '-' :: (opening level ++ body))⟩,
          .unterminatedLongComment⟩]⟩] := by
  have hsize : offset + 2 + (level + 2) + Text.size body =
      offset + Text.size ('-' :: '-' :: (opening level ++ body)) := by
    simp only [Text.size_cons, Text.size_append, LongBracket.size_opening,
      show '-'.utf8Size = 1 from rfl]
    omega
  have hskip : skipBlanks ⟨offset, '-' :: '-' :: (opening level ++ body)⟩ =
      ([⟨⟨offset, offset + Text.size ('-' :: '-' :: (opening level ++ body))⟩,
          .unterminatedLongComment⟩],
        ⟨offset + Text.size ('-' :: '-' :: (opening level ++ body)), []⟩) := by
    rw [skipBlanks_of_comment rfl, comment_open h, skipBlanks_of_nil rfl, hsize]
    rfl
  rw [lexemes_of_blanks (by rw [hskip]), hskip]

/-- Strings and comments between long brackets are read exactly.

A closed one is read up to the first closing bracket of its level, a string as the UTF-8 of its
content; behind a line feed that is the text as it stands, unless it has carriage returns. One that
does not end reaches to the end of the text, where it is reported once. -/
theorem lexemes_enclosed (level : Nat) (body : List Char) (offset : Nat) :
    (First level body → ∀ rest,
      lexemes ⟨offset, enclosed level body ++ rest⟩ =
        ⟨⟨.string, ⟨offset, offset + Text.size (enclosed level body)⟩,
          .string (Text.Utf8.encode (content body)), false⟩, []⟩ ::
            lexemes ⟨offset + Text.size (enclosed level body), rest⟩ ∧
      lexemes ⟨offset, '-' :: '-' :: enclosed level body ++ rest⟩ =
        lexemes ⟨offset + Text.size ('-' :: '-' :: enclosed level body), rest⟩ ∧
      ('\r' ∉ body → lexemes ⟨offset, enclosed level ('\n' :: body) ++ rest⟩ =
        ⟨⟨.string, ⟨offset, offset + Text.size (enclosed level ('\n' :: body))⟩,
          .string (Text.Utf8.encode body), false⟩, []⟩ ::
            lexemes ⟨offset + Text.size (enclosed level ('\n' :: body)), rest⟩)) ∧
    ((∀ a r, body ≠ a ++ (closing level ++ r)) →
      (∃ bytes, lexemes ⟨offset, opening level ++ body⟩ =
        [⟨⟨.string, ⟨offset, offset + Text.size (opening level ++ body)⟩, .string bytes, false⟩,
            [⟨⟨offset, offset + Text.size (opening level ++ body)⟩, .unterminatedLongString⟩]⟩,
          ⟨⟨.endOfFile, Span.empty (offset + Text.size (opening level ++ body)), .none, false⟩,
            []⟩]) ∧
      lexemes ⟨offset, '-' :: '-' :: (opening level ++ body)⟩ =
        [⟨⟨.endOfFile, Span.empty (offset + Text.size ('-' :: '-' :: (opening level ++ body))),
            .none, false⟩,
          [⟨⟨offset, offset + Text.size ('-' :: '-' :: (opening level ++ body))⟩,
            .unterminatedLongComment⟩]⟩]) := by
  refine ⟨fun hfirst rest => ?_, fun hopen => ?_⟩
  · refine ⟨lexemes_long hfirst offset rest, lexemes_longComment hfirst offset rest, ?_⟩
    intro hreturn
    have hbehind := lexemes_long hfirst.lineFeed offset rest
    rwa [LongBracket.content_of_lineFeed hreturn] at hbehind
  · exact ⟨lexemes_openString hopen offset, lexemes_openComment hopen offset⟩

/-- Brackets of other levels do not close, and one in front of the closing bracket does not hide
it. -/
theorem lexemes_enclosed_nearMiss :
    First 1 [']', '=', '=', ']', '\n', ']'] ∧
    lexemes ⟨0, enclosed 1 ['\n', ']', '=', '=', ']', '\n', ']']⟩ =
      [⟨⟨.string, ⟨0, 13⟩, .string [93, 61, 61, 93, 10, 93], false⟩, []⟩,
        ⟨⟨.endOfFile, Span.empty 13, .none, false⟩, []⟩] ∧
    (∀ a r, [']', '=', ']'] ≠ a ++ (closing 2 ++ r)) ∧
    lexemes ⟨0, '-' :: '-' :: (opening 2 ++ [']', '=', ']'])⟩ =
      [⟨⟨.endOfFile, Span.empty 9, .none, false⟩, [⟨⟨0, 9⟩, .unterminatedLongComment⟩]⟩] := by
  have hfirst : First 1 [']', '=', '=', ']', '\n', ']'] := by
    simp only [LongBracket.first_cons, LongBracket.first_nil, and_true]
    decide
  have hopen : ∀ a r, [']', '=', ']'] ≠ a ++ (closing 2 ++ r) := by
    intro a r h
    have hlength := congrArg List.length h
    simp only [List.length_append, LongBracket.length_closing, List.length_cons,
      List.length_nil] at hlength
    omega
  have hlong := ((lexemes_enclosed 1 _ 0).1 hfirst []).2.2 (by decide)
  rw [List.append_nil, lexemes_nil] at hlong
  exact ⟨hfirst, hlong, hopen, ((lexemes_enclosed 2 _ 0).2 hopen).2⟩

end Scanner
end LuaFront
