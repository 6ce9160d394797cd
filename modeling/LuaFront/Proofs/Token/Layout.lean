import LuaFront.Proofs.Number.Digits
import LuaFront.Proofs.Token.LongBracket

/-!
# LuaFront.Proofs.Token.Layout

What stands between tokens.

* `Scanner.Blank`: a blank, a comment that ends with its line, or a closed comment between long
  brackets. `Scanner.Trailing` is the comment that a text may end in.
* `Scanner.skipBlanks_texts`: blanks are passed over one by one and say nothing.
* `Scanner.skipBlanks_cases`: nothing but blanks is ever passed over, and a comment without an end
  is passed over at the end of the text only.
-/

namespace LuaFront
namespace Scanner

open LongBracket (opening closing level? First)

/-- The text of a comment that ends with its line, and that opens no long bracket. -/
structure IsLine (body : List Char) : Prop where
  unbroken : ∀ c ∈ body, isLineBreak c = false
  bare : ∀ level r, body ≠ opening level ++ r

/-- What may stand between two tokens. -/
inductive Blank where
  | space (c : Char) (blank : isBlank c = true)
  | line (body : List Char) (stop : Char) (isLine : IsLine body) (ends : isLineBreak stop = true)
  | long (level : Nat) (body : List Char) (first : First level body)

/-- The comment that a text ends in, if it does end in one. -/
inductive Trailing where
  | none
  | line (body : List Char) (isLine : IsLine body)
  | long (level : Nat) (body : List Char) (unclosed : ∀ a r, body ≠ a ++ (closing level ++ r))

namespace Blank

def text : Blank → List Char
  | .space c _ => [c]
  | .line body stop _ _ => '-' :: '-' :: (body ++ [stop])
  | .long level body _ => '-' :: '-' :: (opening level ++ (body ++ closing level))

/-- The text of blanks in a row. -/
def texts (bs : List Blank) : List Char := bs.flatMap text

@[simp] theorem texts_nil : texts [] = [] := rfl

@[simp] theorem texts_cons (b : Blank) (bs : List Blank) : texts (b :: bs) = b.text ++ texts bs := by
  simp [texts]

theorem length_text_pos (b : Blank) : 0 < b.text.length := by
  cases b <;> simp [text]

end Blank

def Trailing.text : Trailing → List Char
  | .none => []
  | .line body _ => '-' :: '-' :: body
  | .long level body _ => '-' :: '-' :: (opening level ++ body)

theorem skip_append (cs : List Char) (offset : Nat) (rest : List Char) :
    skip cs.length ⟨offset, cs ++ rest⟩ = ⟨offset + Text.size cs, rest⟩ := by
  rw [skip, List.take_left, List.drop_left]

theorem skip_opening (level offset : Nat) (r : List Char) :
    (Scanner.mk offset (opening level ++ r)).skip (level + 2) = ⟨offset + (level + 2), r⟩ := by
  rw [← LongBracket.length_opening level, skip_append, LongBracket.size_opening,
    LongBracket.length_opening]

/-- The next characters as long as they satisfy `p`, where it is known how far that is. -/
theorem takeWhile_append {p : Char → Bool} {body rest : List Char}
    (hbody : ∀ c ∈ body, p c = true) (hrest : ∀ c, rest.head? = some c → p c = false)
    (offset : Nat) :
    takeWhile p ⟨offset, body ++ rest⟩ = (body, ⟨offset + Text.size body, rest⟩) := by
  simp only [takeWhile, takeWhile_of_stop hbody hrest, dropWhile_of_stop hbody hrest]

/-! ## Comments -/

/-- A long bracket that is opened before a line break is opened in that line. -/
theorem IsLine.level? {body : List Char} (h : IsLine body) {rest : List Char}
    (hrest : ∀ c, rest.head? = some c → isLineBreak c = true) : level? (body ++ rest) = none := by
  rw [Option.eq_none_iff_forall_not_mem]
  intro level hlevel
  obtain ⟨r, hr⟩ := LongBracket.level?_eq_some.1 hlevel
  rcases List.append_eq_append_iff.1 hr with ⟨m, hm, rfl⟩ | ⟨m, rfl, -⟩
  · cases m with
    | nil => exact h.bare level [] (by simpa using hm.symm)
    | cons c m =>
      have hbreak : isLineBreak c = true := hrest c rfl
      have hmem : c ∈ opening level := by simp [hm]
      simp only [opening, List.mem_cons, List.mem_append, List.mem_replicate, List.not_mem_nil,
        or_false] at hmem
      rcases hmem with rfl | ⟨-, rfl⟩ | rfl <;> exact absurd hbreak (by decide)
  · exact h.bare level m rfl

/-- A comment without long brackets is passed over up to the end of its line. -/
theorem comment_line {body : List Char} (h : IsLine body) (offset : Nat) (rest : List Char)
    (hrest : ∀ c, rest.head? = some c → isLineBreak c = true) :
    comment ⟨offset, '-' :: '-' :: (body ++ rest)⟩ = ([], ⟨offset + 2 + Text.size body, rest⟩) := by
  have hinside : (Scanner.mk offset ('-' :: '-' :: (body ++ rest))).skip 2 =
      ⟨offset + 2, body ++ rest⟩ := rfl
  have hline : (Scanner.mk (offset + 2) (body ++ rest)).takeWhile (!isLineBreak ·) =
      (body, ⟨offset + 2 + Text.size body, rest⟩) :=
    takeWhile_append (fun c hc => by simp [h.unbroken c hc]) (fun c hc => by simp [hrest c hc]) _
  simp only [comment, hinside, h.level? hrest, hline]

/-- A comment between long brackets is passed over whole. -/
theorem comment_long {level : Nat} {body : List Char} (h : First level body) (offset : Nat)
    (rest : List Char) :
    comment ⟨offset, '-' :: '-' :: (opening level ++ (body ++ (closing level ++ rest)))⟩ =
      ([], ⟨offset + 2 + (level + 2) + Text.size body + (level + 2), rest⟩) := by
  have hinside : (Scanner.mk offset
      ('-' :: '-' :: (opening level ++ (body ++ (closing level ++ rest))))).skip 2 =
        ⟨offset + 2, opening level ++ (body ++ (closing level ++ rest))⟩ := rfl
  obtain ⟨hclosed, hafter⟩ := LongBracket.read_closing h (offset + 2 + (level + 2)) rest
  simp only [comment, hinside, LongBracket.level?_opening, skip_opening, hclosed, hafter, if_true]

/-- A comment between long brackets that does not end is passed over to the end of the text, and
reported. -/
theorem comment_open {level : Nat} {body : List Char}
    (h : ∀ a r, body ≠ a ++ (closing level ++ r)) (offset : Nat) :
    comment ⟨offset, '-' :: '-' :: (opening level ++ body)⟩ =
      ([⟨⟨offset, offset + 2 + (level + 2) + Text.size body⟩, .unterminatedLongComment⟩],
        ⟨offset + 2 + (level + 2) + Text.size body, []⟩) := by
  have hinside : (Scanner.mk offset ('-' :: '-' :: (opening level ++ body))).skip 2 =
      ⟨offset + 2, opening level ++ body⟩ := rfl
  obtain ⟨hopen, hafter⟩ := LongBracket.read_open h (offset + 2 + (level + 2))
  simp [comment, hinside, LongBracket.level?_opening, skip_opening, hopen, hafter, spanFrom]

/-! ## Blanks in a row -/

theorem skipBlanks_of_comment {s : Scanner} {r : List Char} (h : s.rest = '-' :: '-' :: r) :
    s.skipBlanks = (s.comment.1 ++ s.comment.2.skipBlanks.1, s.comment.2.skipBlanks.2) := by
  rw [skipBlanks]
  split
  next => rfl
  next hno heq => exact absurd (heq.symm.trans h) (by simpa using fun hc => hno _ hc)
  next heq => rw [h] at heq; cases heq

theorem skipBlanks_space {c : Char} (h : isBlank c = true) (offset : Nat) (rest : List Char) :
    skipBlanks ⟨offset, c :: rest⟩ = skipBlanks ⟨offset + c.utf8Size, rest⟩ := by
  rw [skipBlanks]
  split
  next heq =>
    cases heq
    exact absurd h (by decide)
  next hno heq =>
    cases heq
    rw [if_pos h]
    rfl
  next heq => cases heq

/-- A blank is passed over and says nothing. -/
theorem skipBlanks_text (b : Blank) (offset : Nat) (rest : List Char) :
    skipBlanks ⟨offset, b.text ++ rest⟩ = skipBlanks ⟨offset + Text.size b.text, rest⟩ := by
  cases b with
  | space c blank => exact skipBlanks_space blank offset rest
  | line body stop isLine ends =>
    have hblank : isBlank stop = true := by
      simp only [isLineBreak, Bool.or_eq_true, beq_iff_eq] at ends
      rcases ends with rfl | rfl <;> decide
    have hcomment := comment_line isLine offset (stop :: rest)
      (fun c hc => by cases hc; exact ends)
    have htext : (Blank.line body stop isLine ends).text ++ rest =
        '-' :: '-' :: (body ++ stop :: rest) := by simp [Blank.text]
    rw [htext, skipBlanks_of_comment rfl, hcomment, List.nil_append, skipBlanks_space hblank]
    simp only [Blank.text, Text.size_cons, Text.size_append, Text.size_nil,
      show '-'.utf8Size = 1 from rfl]
    rw [show offset + 2 + Text.size body + stop.utf8Size =
      offset + (1 + (1 + (Text.size body + (stop.utf8Size + 0)))) by omega]
  | long level body first =>
    have htext : (Blank.long level body first).text ++ rest =
        '-' :: '-' :: (opening level ++ (body ++ (closing level ++ rest))) := by simp [Blank.text]
    rw [htext, skipBlanks_of_comment rfl, comment_long first, List.nil_append]
    simp only [Blank.text, Text.size_cons, Text.size_append, LongBracket.size_opening,
      LongBracket.size_closing, show '-'.utf8Size = 1 from rfl]
    rw [show offset + 2 + (level + 2) + Text.size body + (level + 2) =
      offset + (1 + (1 + (level + 2 + (Text.size body + (level + 2))))) by omega]

theorem skipBlanks_texts (bs : List Blank) (offset : Nat) (rest : List Char) :
    skipBlanks ⟨offset, Blank.texts bs ++ rest⟩ =
      skipBlanks ⟨offset + Text.size (Blank.texts bs), rest⟩ := by
  induction bs generalizing offset with
  | nil => rfl
  | cons b bs ih =>
    rw [Blank.texts_cons, List.append_assoc, skipBlanks_text, ih, Text.size_append, Nat.add_assoc]

/-! ## All that is passed over -/

theorem skipBlanks_of_nil {s : Scanner} (h : s.rest = []) : s.skipBlanks = ([], s) := by
  rw [skipBlanks]
  split
  next heq => rw [h] at heq; cases heq
  next heq => rw [h] at heq; cases heq
  next => rfl

/-- A comment that does not end reaches to the end of the text. -/
theorem skipBlanks_trailing (t : Trailing) (offset : Nat) :
    (skipBlanks ⟨offset, t.text⟩).2.rest = [] := by
  cases t with
  | none => rw [Trailing.text, skipBlanks_of_nil rfl]
  | line body isLine =>
    have hcomment := comment_line isLine offset [] (by simp)
    rw [List.append_nil] at hcomment
    rw [Trailing.text, skipBlanks_of_comment rfl, hcomment, skipBlanks_of_nil rfl]
  | long level body unclosed =>
    rw [Trailing.text, skipBlanks_of_comment rfl, comment_open unclosed, skipBlanks_of_nil rfl]

/-- A comment is a blank, or it does not end. -/
theorem comment_cases (r : List Char) :
    (∃ (b : Blank) (rest : List Char), '-' :: '-' :: r = b.text ++ rest) ∨
      ∃ t : Trailing, '-' :: '-' :: r = t.text := by
  cases hlevel : level? r with
  | some level =>
    obtain ⟨r', rfl⟩ := LongBracket.level?_eq_some.1 hlevel
    rcases LongBracket.read_ends level ⟨0, r'⟩ with ⟨-, body, hbody, hfirst⟩ | ⟨-, -, hnone⟩
    · refine .inl ⟨.long level body hfirst, (LongBracket.read level ⟨0, r'⟩).after.rest, ?_⟩
      simp only [Blank.text, List.cons_append, List.append_assoc]
      rw [← hbody]
    · exact .inr ⟨.long level r' hnone, rfl⟩
  | none =>
    have hsplit := List.takeWhile_append_dropWhile (p := (!isLineBreak ·)) (l := r)
    have hline : IsLine (r.takeWhile (!isLineBreak ·)) := by
      constructor
      · intro c hc
        simpa using List.all_eq_true.1 List.all_takeWhile c hc
      · intro level r' hr'
        rw [← hsplit, hr', List.append_assoc, LongBracket.level?_opening] at hlevel
        cases hlevel
    cases hdrop : r.dropWhile (!isLineBreak ·) with
    | nil =>
      rw [hdrop, List.append_nil] at hsplit
      exact .inr ⟨.line _ hline, by rw [Trailing.text, hsplit]⟩
    | cons stop rest =>
      have hstop : isLineBreak stop = true := by
        have := List.head?_dropWhile_not (!isLineBreak ·) r
        simpa [hdrop] using this
      rw [hdrop] at hsplit
      refine .inl ⟨.line _ stop hline hstop, rest, ?_⟩
      simpa [Blank.text] using hsplit.symm

/-- Where neither a blank nor a comment starts, nothing is passed over. -/
theorem skipBlanks_of_start {c : Char} {r : List Char} (hblank : isBlank c = false)
    (hcomment : ∀ r', c :: r ≠ '-' :: '-' :: r') (offset : Nat) :
    skipBlanks ⟨offset, c :: r⟩ = ([], ⟨offset, c :: r⟩) := by
  rw [skipBlanks]
  split
  next heq => exact absurd heq (hcomment _)
  next heq =>
    cases heq
    rw [if_neg (by simp [hblank])]
  next heq => cases heq

/-- What comes next is a blank or a comment without an end, or it is no blank. -/
theorem blank_cases (cs : List Char) :
    (∃ (b : Blank) (rest : List Char), cs = b.text ++ rest) ∨ (∃ t : Trailing, cs = t.text) ∨
      ∀ offset, skipBlanks ⟨offset, cs⟩ = ([], ⟨offset, cs⟩) := by
  rcases cs with _ | ⟨c, r⟩
  · exact .inr (.inl ⟨.none, rfl⟩)
  by_cases hblank : isBlank c = true
  · exact .inl ⟨.space c hblank, r, rfl⟩
  by_cases hcomment : ∃ r', c :: r = '-' :: '-' :: r'
  · obtain ⟨r', hr'⟩ := hcomment
    rw [hr']
    rcases comment_cases r' with hb | ht
    · exact .inl hb
    · exact .inr (.inl ht)
  · rw [not_exists] at hcomment
    exact .inr (.inr (skipBlanks_of_start (by simpa using hblank) hcomment))

/-- Blanks are passed over, and at the end of the text perhaps a comment that does not end; then
comes a token. -/
theorem skipBlanks_cases (s : Scanner) :
    (∃ bs, s.rest = Blank.texts bs ++ s.skipBlanks.2.rest) ∨
      s.skipBlanks.2.rest = [] ∧ ∃ bs t, s.rest = Blank.texts bs ++ Trailing.text t := by
  obtain ⟨offset, cs⟩ := s
  induction hn : cs.length using Nat.strongRecOn generalizing offset cs with
  | ind n ih =>
    rcases blank_cases cs with ⟨b, rest, rfl⟩ | ⟨t, rfl⟩ | hstop
    · have hpos := b.length_text_pos
      rw [List.length_append] at hn
      rw [skipBlanks_text]
      rcases ih rest.length (by omega) (offset + Text.size b.text) rest rfl with
        ⟨bs, hbs⟩ | ⟨hnil, bs, t, hbs⟩
      · refine .inl ⟨b :: bs, ?_⟩
        simp only [Blank.texts_cons, List.append_assoc]
        rw [← hbs]
      · refine .inr ⟨hnil, b :: bs, t, ?_⟩
        simp only [Blank.texts_cons, List.append_assoc]
        rw [← hbs]
    · exact .inr ⟨skipBlanks_trailing t offset, [], t, rfl⟩
    · exact .inl ⟨[], by rw [hstop]; rfl⟩

end Scanner
end LuaFront
