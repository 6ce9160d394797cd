import LuaFront.Token.Scanner

/-!
# LuaFront.Token.LongBracket

Long brackets: two brackets with any number of equals signs between them, the level, around a
body that has no escapes.
-/

namespace LuaFront
namespace LongBracket

/-- The level of the opening long bracket that comes next, if one does. -/
def level? : List Char → Option Nat
  | '[' :: r =>
    match r.dropWhile (· == '=') with
    | '[' :: _ => some (r.takeWhile (· == '=')).length
    | _ => none
  | _ => none

/-- The closing long bracket of a level. -/
def closing (level : Nat) : List Char := ']' :: (List.replicate level '=' ++ [']'])

/-- Whether the closing long bracket of a level comes next. -/
def closes (level : Nat) (cs : List Char) : Bool := (closing level).isPrefixOf cs

/-- What was read of a body: its bytes, whether the closing bracket was found, and the place after
it. -/
structure Body where
  bytes : List UInt8
  closed : Bool
  after : Scanner

/-- More bytes in front of a body. -/
def Body.push (bytes : List UInt8) (b : Body) : Body := { b with bytes := bytes ++ b.bytes }

/-- Reads up to and including the closing bracket. Each line ending becomes a line feed. -/
def readFrom (level : Nat) : Nat → List Char → Body
  | offset, [] => ⟨[], false, ⟨offset, []⟩⟩
  | offset, c :: r =>
    if closes level (c :: r) then
      ⟨[], true, (Scanner.mk offset (c :: r)).skip (level + 2)⟩
    else
      match c, r with
      | '\r', '\n' :: r' => (readFrom level (offset + 2) r').push [10]
      | '\n', '\r' :: r' => (readFrom level (offset + 2) r').push [10]
      | '\r', r => (readFrom level (offset + 1) r).push [10]
      | '\n', r => (readFrom level (offset + 1) r).push [10]
      | c, r => (readFrom level (offset + c.utf8Size) r).push (String.utf8EncodeChar c)

/-- Reads a body whose opening bracket was just passed. A line ending right after the bracket does
not belong to the body. -/
def read (level : Nat) (s : Scanner) : Body :=
  let start := s.skip (Scanner.lineEnding s.rest)
  readFrom level start.offset start.rest

@[simp] theorem after_push (bytes : List UInt8) (b : Body) : (b.push bytes).after = b.after := rfl

theorem length_readFrom_le (level offset : Nat) (cs : List Char) :
    (readFrom level offset cs).after.rest.length ≤ cs.length := by
  fun_induction readFrom level offset cs <;> simp_all <;> omega

theorem length_read_le (level : Nat) (s : Scanner) :
    (read level s).after.rest.length ≤ s.rest.length :=
  Nat.le_trans (length_readFrom_le ..) (by simp)

end LongBracket
end LuaFront
