import LuaFront.Number.Numeral
import LuaFront.Token.Scanner

/-!
# LuaFront.Token.Escape

Quoted strings and the escapes in them.
-/

namespace LuaFront
namespace Escape

open Numeral (hexDigit? isHexDigit isDigit)

/-- What an escape stands for, or what is wrong with it, and the place after it. -/
structure Outcome where
  meaning : Except Cause (List UInt8)
  after : Scanner

/-- The byte of an escape that is a backslash and one letter or sign. -/
def named? : Char → Option UInt8
  | 'a' => some 7
  | 'b' => some 8
  | 'f' => some 12
  | 'n' => some 10
  | 'r' => some 13
  | 't' => some 9
  | 'v' => some 11
  | '\\' => some 92
  | '"' => some 34
  | '\'' => some 39
  | _ => none

/-- The value of some hexadecimal digits. -/
def hexValue (digits : List Char) : Nat :=
  digits.foldl (fun n c => n * 16 + (hexDigit? c).getD 0) 0

/-- Two hexadecimal digits, after the `x`. -/
def hexByte (s : Scanner) : Outcome :=
  let digits := (s.rest.take 2).takeWhile isHexDigit
  ⟨if digits.length = 2 then .ok [UInt8.ofNat (hexValue digits)] else .error .incompleteEscape,
    s.skip digits.length⟩

/-- Up to three decimal digits. -/
def decimalByte (s : Scanner) : Outcome :=
  let digits := (s.rest.take 3).takeWhile isDigit
  let value := Numeral.decimalValue digits
  ⟨if value < 256 then .ok [UInt8.ofNat value] else .error .decimalEscapeTooLarge,
    s.skip digits.length⟩

/-- Any number of hexadecimal digits between braces, after the `u`. The value is below `2^31`, and
need not be a character. -/
def utf8Value (s : Scanner) : Outcome :=
  match s.rest with
  | '{' :: _ =>
    let (digits, afterDigits) := (s.skip 1).takeWhile isHexDigit
    if digits = [] then ⟨.error .incompleteEscape, afterDigits⟩
    else
      match afterDigits.rest with
      | '}' :: _ =>
        let value := hexValue digits
        ⟨if value < 0x80000000 then .ok (Text.Utf8.encodeValue value) else .error .utf8ValueTooLarge,
          afterDigits.skip 1⟩
      | cs => ⟨.error (.expectedCharacter cs.head? '}'), afterDigits⟩
  | cs => ⟨.error (.expectedCharacter cs.head? '{'), s⟩

/-- Reads an escape whose backslash was just passed. -/
def read (s : Scanner) : Outcome :=
  match s.rest with
  | [] => ⟨.error .unterminatedEscape, s⟩
  | c :: r =>
    match named? c with
    | some byte => ⟨.ok [byte], s.skip 1⟩
    | none =>
      if Scanner.isLineBreak c then ⟨.ok [10], s.skip (Scanner.lineEnding (c :: r))⟩
      else if c = 'z' then ⟨.ok [], ((s.skip 1).takeWhile Scanner.isBlank).2⟩
      else if c = 'x' then hexByte (s.skip 1)
      else if isDigit c then decimalByte s
      else if c = 'u' then utf8Value (s.skip 1)
      else ⟨.error (.invalidEscape (some c)), s.skip 1⟩

theorem length_hexByte_le (s : Scanner) : (hexByte s).after.rest.length ≤ s.rest.length := by
  simp [hexByte]

theorem length_decimalByte_le (s : Scanner) :
    (decimalByte s).after.rest.length ≤ s.rest.length := by
  simp [decimalByte]

theorem length_utf8Value_le (s : Scanner) :
    (utf8Value s).after.rest.length ≤ s.rest.length := by
  have h := Scanner.length_dropWhile_le isHexDigit (s.rest.drop 1)
  unfold utf8Value
  split
  · simp only [Scanner.rest_takeWhile, Scanner.rest_skip, List.length_drop] at h ⊢
    split
    · simp only [Scanner.rest_takeWhile, Scanner.rest_skip]; omega
    · split <;> simp only [Scanner.rest_takeWhile, Scanner.rest_skip, List.length_drop] <;> omega
  · exact Nat.le_refl _

theorem length_read_le (s : Scanner) : (read s).after.rest.length ≤ s.rest.length := by
  have hx := length_hexByte_le (s.skip 1)
  have hd := length_decimalByte_le s
  have hu := length_utf8Value_le (s.skip 1)
  have hz := Scanner.length_dropWhile_le Scanner.isBlank (s.rest.drop 1)
  simp only [Scanner.rest_skip, List.length_drop] at hx hu hz
  unfold read
  split
  · exact Nat.le_refl _
  · split
    · simp
    · simp only [apply_ite Outcome.after, apply_ite Scanner.rest, apply_ite List.length,
        Scanner.rest_skip, Scanner.rest_takeWhile, List.length_drop]
      repeat' split
      all_goals omega

end Escape

namespace QuotedString

/-- What was read of a quoted string after its opening quote. -/
structure Body where
  bytes : List UInt8
  diagnostics : List Diagnostic
  after : Scanner

/-- What an escape between two places adds to the body after it. -/
def Body.escape (start : Nat) (o : Escape.Outcome) (b : Body) : Body :=
  match o.meaning with
  | .ok bytes => { b with bytes := bytes ++ b.bytes }
  | .error cause => { b with diagnostics := ⟨o.after.spanFrom start, cause⟩ :: b.diagnostics }

/-- Reads up to and including the closing quote. The string, which began at `start`, ends early
at a line break. -/
def read (quote : Char) (start : Nat) (s : Scanner) : Body :=
  match _h : s.rest with
  | [] => ⟨[], [⟨s.spanFrom start, .unterminatedString⟩], s⟩
  | c :: _ =>
    if Scanner.isLineBreak c then ⟨[], [⟨s.spanFrom start, .unterminatedString⟩], s⟩
    else if c = quote then ⟨[], [], s.skip 1⟩
    else if c = '\\' then
      have _shorter := Escape.length_read_le (s.skip 1)
      (read quote start (Escape.read (s.skip 1)).after).escape s.offset (Escape.read (s.skip 1))
    else
      let later := read quote start (s.skip 1)
      { later with bytes := String.utf8EncodeChar c ++ later.bytes }
termination_by s.rest.length
decreasing_by
  · simp only [Scanner.rest_skip, List.length_drop, _h, List.length_cons] at _shorter ⊢
    omega
  · simp only [Scanner.rest_skip, List.length_drop, _h, List.length_cons]
    omega

@[simp] theorem after_escape (start : Nat) (o : Escape.Outcome) (b : Body) :
    (b.escape start o).after = b.after := by
  unfold Body.escape
  split <;> rfl

theorem length_read_le (quote : Char) (start : Nat) (s : Scanner) :
    (read quote start s).after.rest.length ≤ s.rest.length := by
  fun_induction read quote start s with
  | case1 => exact Nat.le_refl _
  | case2 => exact Nat.le_refl _
  | case3 => simp
  | case4 s r shorter _ _ _ ih =>
    simp only [after_escape]
    simp only [Scanner.rest_skip, List.length_drop] at shorter
    omega
  | case5 s c r _ _ _ _ later ih =>
    simp only [Scanner.rest_skip, List.length_drop] at ih
    simp only [later]
    omega

end QuotedString
end LuaFront
