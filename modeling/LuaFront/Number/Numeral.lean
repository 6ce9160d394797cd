import LuaFront.Number.Binary64

/-!
# LuaFront.Number.Numeral

The values of numerals, given the characters between which a program's text puts them. Decimal
numerals are integers, or floats with a point or an exponent; hexadecimal ones likewise, with a
binary exponent.
-/

namespace LuaFront

inductive Number where
  | integer (value : Int64)
  | float (value : Binary64)
deriving DecidableEq, Inhabited, Repr

namespace Numeral

def isDigit (c : Char) : Bool := '0' ≤ c && c ≤ '9'

/-- The value of a digit of base sixteen. -/
def hexDigit? (c : Char) : Option Nat :=
  if '0' ≤ c && c ≤ '9' then some (c.toNat - '0'.toNat)
  else if 'a' ≤ c && c ≤ 'f' then some (c.toNat - 'a'.toNat + 10)
  else if 'A' ≤ c && c ≤ 'F' then some (c.toNat - 'A'.toNat + 10)
  else none

def isHexDigit (c : Char) : Bool := (hexDigit? c).isSome

/-- The natural number that some decimal digits write. -/
def decimalValue (digits : List Char) : Nat :=
  digits.foldl (fun n c => n * 10 + (c.toNat - '0'.toNat)) 0

/-- An exponent as it is written: whether it has a minus, and its digits. -/
structure Exponent where
  negative : Bool
  digits : List Char

/-- Reads an optional sign and one or more digits, up to the end. -/
def exponent? (cs : List Char) : Option Exponent :=
  let (negative, digits) := match cs with
    | '-' :: r => (true, r)
    | '+' :: r => (false, r)
    | r => (false, r)
  if digits ≠ [] ∧ digits.all isDigit then some ⟨negative, digits⟩ else none

/-- The power of ten that an exponent stands for. Once it has reached `65536` its further digits
do not count: only a numeral with as many digits before its exponent could tell. -/
def Exponent.value (e : Exponent) : Int :=
  let magnitude := e.digits.foldl
    (fun n c => if n < 0x10000 then n * 10 + (c.toNat - '0'.toNat) else n) 0
  if e.negative then -(magnitude : Int) else magnitude

/-- Reads a decimal fraction: digits with an optional point, at least one digit in all, and an
optional exponent. -/
def decimalFloat? (cs : List Char) : Option Binary64 :=
  let whole := cs.takeWhile isDigit
  let (fraction, rest) := match cs.dropWhile isDigit with
    | '.' :: r => (r.takeWhile isDigit, r.dropWhile isDigit)
    | r => ([], r)
  if whole ++ fraction = [] then none
  else
    let value (e : Int) := Binary64.ofDecimal (decimalValue (whole ++ fraction)) (e - fraction.length)
    match rest with
    | [] => some (value 0)
    | c :: r =>
      if c = 'e' ∨ c = 'E' then (exponent? r).map fun e => value e.value else none

/-- The value of a decimal numeral, unless it is malformed. Digits alone are an integer, or a
float if they exceed the range of integers. -/
def decimal? (cs : List Char) : Option Number :=
  if cs ≠ [] ∧ cs.all isDigit ∧ decimalValue cs < 0x8000000000000000 then
    some (.integer (Int64.ofNat (decimalValue cs)))
  else (decimalFloat? cs).map .float

/-- A binary scale is kept within 32 bits. -/
def saturate (n : Int) : Int := max (-0x80000000) (min 0x7FFFFFFF n)

/-- The scale that a binary exponent stands for. One too large for 32 bits counts as about half
the largest. -/
def Exponent.scale (e : Exponent) : Int :=
  let magnitude : Int :=
    if decimalValue e.digits < 0x80000000 then decimalValue e.digits else 0x3FFFFFFF
  if e.negative then -magnitude else magnitude

/-- A hexadecimal numeral in its parts. -/
structure Hexadecimal where
  whole : List Nat
  /-- The digits after the point, if there is a point. -/
  fraction : Option (List Nat)
  exponent : Option Exponent

namespace Hexadecimal

/-- All digits, those after the point included. -/
def digits (h : Hexadecimal) : List Nat := h.whole ++ h.fraction.getD []

/-- Reads a hexadecimal numeral, without its `0x`: digits with an optional point, at least one
digit in all, and an optional exponent after `p`. -/
def read? (cs : List Char) : Option Hexadecimal := do
  let isMark (c : Char) : Bool := c == 'p' || c == 'P'
  let mantissa := cs.takeWhile (!isMark ·)
  let whole ← (mantissa.takeWhile (· != '.')).mapM hexDigit?
  let fraction ← match mantissa.dropWhile (· != '.') with
    | [] => some none
    | _ :: r => (r.mapM hexDigit?).map some
  if whole ++ fraction.getD [] = [] then none
  else
    let exponent ← match cs.dropWhile (!isMark ·) with
      | [] => some none
      | _ :: r => (exponent? r).map some
    return ⟨whole, fraction, exponent⟩

/-- The value of the digits modulo `2^64`. -/
def word (digits : List Nat) : UInt64 :=
  digits.foldl (fun n d => n * 16 + UInt64.ofNat d) 0

/-- Adds one digit to a significand, unless it already fills its 56 bits; then the digit only
counts towards the scale. -/
def addDigit (s : Nat × Int) (digit : Nat) : Nat × Int :=
  if s.1 < 1 <<< 56 then (s.1 * 16 + digit, s.2) else (s.1, saturate (s.2 + 4))

/-- The scale before any digit is added. Each digit after the point takes four from it, and these are
counted in 32 bits, which wrap around. -/
def startScale (h : Hexadecimal) : Int :=
  let places := Int32.ofNat (h.fraction.getD []).length
  saturate ((h.exponent.map Exponent.scale).getD 0 - (4 * places).toInt)

/-- The leading significant digits, and the power of two by which they are scaled. -/
def significandScale (h : Hexadecimal) : Nat × Int :=
  h.digits.foldl addDigit (0, h.startScale)

def float (h : Hexadecimal) : Binary64 :=
  let (significand, scale) := h.significandScale
  (Binary64.ofNat significand).mul (Binary64.twoPow scale)

/-- Without point and exponent the numeral is an integer, which wraps around. -/
def value (h : Hexadecimal) : Number :=
  match h.fraction, h.exponent with
  | none, none => .integer (word h.digits).toInt64
  | _, _ => .float h.float

end Hexadecimal

/-- The value of a hexadecimal numeral, without its `0x`, unless it is malformed. -/
def hexadecimal? (cs : List Char) : Option Number :=
  (Hexadecimal.read? cs).map Hexadecimal.value

end Numeral
end LuaFront
