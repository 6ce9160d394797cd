import LuaFront.Text.Cursor

/-!
# LuaFront.Text.Source

Source text in segments, as it arrives line by line at a prompt. The segments are never joined: a
cursor walks across them, and a slice is cut out of the segments that it touches.
-/

namespace LuaFront
namespace Text

/-- A text kept in the segments it arrived in, none of which is empty. -/
structure Source where
  segments : List (List Char)
  segments_ne_nil : ∀ s ∈ segments, s ≠ []

namespace Source

/-- The text made of the given segments, in order. Empty ones are dropped. -/
def ofSegments (segments : List (List Char)) : Source where
  segments := segments.filter (· ≠ [])
  segments_ne_nil := by simp

def ofChars (text : List Char) : Source := ofSegments [text]

def ofString (text : String) : Source := ofChars text.toList

/-- The length of the text in bytes. -/
def length (s : Source) : Nat := s.segments.foldr (size · + ·) 0

def isEmpty (s : Source) : Bool := s.length == 0

/-- A cursor at the start of the text. -/
def cursor (s : Source) : Cursor :=
  match s.segments with
  | [] => ⟨[], [], 0⟩
  | first :: later => ⟨first, later, 0⟩

/-- The characters of the text, as a cursor hands them out. -/
def chars (s : Source) : List Char := s.cursor.take s.length

/-- What is left of some characters after their first `n` bytes, unless these end inside a
character. -/
def dropBytes : Nat → List Char → Option (List Char)
  | 0, cs => some cs
  | _ + 1, [] => none
  | n + 1, c :: r => if c.utf8Size ≤ n + 1 then dropBytes (n + 1 - c.utf8Size) r else none

/-- The first `n` bytes of some characters, unless these end inside a character. -/
def takeBytes : Nat → List Char → Option (List Char)
  | 0, _ => some []
  | _ + 1, [] => none
  | n + 1, c :: r =>
    if c.utf8Size ≤ n + 1 then (takeBytes (n + 1 - c.utf8Size) r).map (c :: ·) else none

/-- The characters between two byte offsets of one segment, if both lie between characters. -/
def cut (segment : List Char) (start stop : Nat) : Option (List Char) :=
  (dropBytes start segment).bind (takeBytes (stop - start))

/-- Where segments start of which the first one starts at `base`. -/
def startsFrom : Nat → List (List Char) → List Nat
  | _, [] => []
  | base, segment :: later => base :: startsFrom (base + size segment) later

/-- The offsets at which the segments start. -/
def starts (s : Source) : List Nat := startsFrom 0 s.segments

/-- The number of the segment that an offset lies in, which is the last one that starts no later.
The starts ascend, so those that are no later come first. -/
def segmentOf (s : Source) (offset : Nat) : Nat :=
  (s.starts.takeWhile (· ≤ offset)).length - 1

/-- The characters between two byte offsets, put together from segments that come with their
starts. Of each one up to the end of the stretch there is the part that lies inside. -/
def stitch (start stop : Nat) : List (List Char × Nat) → Option (List Char)
  | [] => some []
  | (segment, base) :: later =>
    if base < stop then do
      let here ← cut segment (start - base) (min (stop - base) (size segment))
      let rest ← stitch start stop later
      return here ++ rest
    else some []

/-- The text that a span covers. Offsets past the end count as the end, a span that ends before
it starts covers nothing, and there is no answer for an offset inside a character. A stretch that
ends in the segment it starts in is cut out of that one. -/
def slice (s : Source) (span : Span) : Option (List Char) :=
  let start := min span.start s.length
  let stop := min span.stop s.length
  if stop ≤ start then some []
  else
    match (s.segments.zip s.starts).drop (s.segmentOf start) with
    | [] => none
    | (segment, base) :: later =>
      if stop - base ≤ size segment then cut segment (start - base) (stop - base)
      else stitch start stop ((segment, base) :: later)

/-- Line and column after reading up to the first character that starts at `target` or later. A
line feed starts a line, and any other character takes a column. -/
def walk (target : Nat) (line column : Nat) (c : Cursor) : Nat × Nat :=
  if c.offset < target then
    match _h : c.peek with
    | some x =>
      if x = '\n' then walk target (line + 1) 0 c.eat else walk target line (column + 1) c.eat
    | none => (line, column)
  else (line, column)
termination_by c.left
decreasing_by all_goals exact Cursor.left_eat_lt _h

/-- The line of an offset, counted from one, and its column in characters, counted from zero. -/
def lineColumn (s : Source) (offset : Nat) : Nat × Nat := walk offset 1 0 s.cursor

end Source
end Text
end LuaFront
